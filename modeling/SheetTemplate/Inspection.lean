import SheetTemplate.Fill.Directive
import SheetTemplate.Json.Basic
/-!
A survey of a template without data: every marker with its cell, and for each sheet its
directives, or why it has none.
-/
namespace SheetTemplate

/-- A marker and the cell it stands in. -/
structure MarkerEntry where
  cell : CellRef
  marker : Marker
deriving DecidableEq

namespace MarkerEntry

def kindName (e : MarkerEntry) : String :=
  match e.marker.scope with
  | .root => "scalar"
  | .element => "array"

def raw (e : MarkerEntry) : String :=
  String.ofList e.marker.raw

end MarkerEntry

/-- What a sheet holds for filling. -/
structure SheetSurvey where
  sheet : String
  markers : List MarkerEntry
  directives : List Directive
  failure : Option Failure

/-- What the sheets of a workbook hold for filling. -/
structure Survey where
  sheets : List SheetSurvey

def Sheet.markerEntries (s : Sheet) : List MarkerEntry :=
  s.cells.entries.flatMap fun (place, cell) =>
    match cell.value.text? with
    | some t => (placedMarkers t).map fun m => ⟨place, m.marker⟩
    | none => []

def Sheet.survey (s : Sheet) : SheetSurvey :=
  match s.directives with
  | .ok directives => ⟨s.name, s.markerEntries, directives, none⟩
  | .error failure => ⟨s.name, s.markerEntries, [], some failure⟩

def Workbook.survey (w : Workbook) : Survey :=
  ⟨w.sheets.map Sheet.survey⟩

namespace Survey

def hasFailures (s : Survey) : Bool :=
  s.sheets.any fun sheet => sheet.failure.isSome

def firstFailure? (s : Survey) : Option Failure :=
  s.sheets.findSome? SheetSurvey.failure

def markerJson (e : MarkerEntry) : Json :=
  .record [("cell", .text e.cell.text), ("kind", .text e.kindName),
    ("path", .text e.marker.path), ("raw", .text e.raw)]

def directiveJson (d : Directive) : Json :=
  .record [("row", .int (Int64.ofNat d.row)), ("array_key", .text d.key)]

/-- The survey of a sheet as a JSON record, its fields in the order of reading. -/
def sheetJson (s : SheetSurvey) : Json :=
  .record <| [("sheet", .text s.sheet), ("markers", .list (s.markers.map markerJson)),
    ("directives", .list (s.directives.map directiveJson))]
    ++ s.failure.toList.map fun f => ("error", .text f.message)

def toJson (s : Survey) : Json :=
  .record [("sheets", .list (s.sheets.map sheetJson))]

end Survey

end SheetTemplate
