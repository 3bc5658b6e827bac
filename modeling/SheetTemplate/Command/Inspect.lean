import SheetTemplate.Command.Session
import SheetTemplate.Inspection
/-!
The command that lists the markers of a template and the rows that repeat.
-/
namespace SheetTemplate

/-- The path of the template, and whether the list is JSON. -/
structure InspectRequest where
  template : String
  json : Bool := false

namespace InspectRequest

def padded (width : Nat) (s : String) : String :=
  s ++ String.ofList (List.replicate (width - s.length) ' ')

def markerLine (e : MarkerEntry) : String :=
  "      " ++ padded 6 e.cell.text ++ " " ++ padded 7 e.kindName ++ " " ++ e.raw

def sheetLines (s : SheetSurvey) : List String :=
  ["   📊 Worksheet: " ++ s.sheet]
    ++ (if s.markers.isEmpty then ["      (no markers)"] else s.markers.map markerLine)
    ++ s.directives.map (fun d =>
      "      ↳ row " ++ Text.decimal d.row ++ " expands over " ++ d.key)
    ++ s.failure.toList.map (fun f => "      ❌ " ++ f.message)
    ++ [""]

def lines (r : InspectRequest) (s : Survey) : List String :=
  ["🔍 Sheetfill - Template Inspection", "   Template: " ++ r.template ++ "\n"]
    ++ s.sheets.flatMap sheetLines

/-- The command. It fails with the first failure of a sheet, after the list. -/
def run (r : InspectRequest) : Session Unit := do
  let content ← Session.readFile r.template
  let workbook ← Session.result (Session.packageOf content >>= Package.load)
  let survey := workbook.survey
  Session.sayAll (if r.json then [survey.toJson.prettyText] else r.lines survey)
  match survey.firstFailure? with
  | some failure => throw failure
  | none => pure ()

end InspectRequest

end SheetTemplate
