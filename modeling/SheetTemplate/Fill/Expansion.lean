import SheetTemplate.Fill.Directive
import SheetTemplate.Formula.Row
import SheetTemplate.Marker.Substitute
import SheetTemplate.Sheet.RowEdit
/-!
Expansion of a sheet: each row bound to a list is replaced by one row per element, from the last
such row up, so that no pending row has moved yet. Then all root markers are filled. All lists are
looked up before the first change, so a sheet that fails is not touched.
-/
namespace SheetTemplate

/-- A row that was replaced, and by how many rows. -/
structure Expanded where
  row : Nat
  key : String
  rowsWritten : Nat
deriving DecidableEq

/-- What was done to a sheet: rows replaced, and rows kept because the data lacks their key. Both
run from the bottom up. -/
structure SheetSummary where
  sheet : String
  expanded : List Expanded := []
  skipped : List Directive := []
deriving DecidableEq

def SheetSummary.rowsWritten (s : SheetSummary) : Nat :=
  total (s.expanded.map Expanded.rowsWritten)

/-- A directive with the elements of its list. -/
structure BoundRow where
  directive : Directive
  items : List Data

namespace Sheet

/-- Directives with their lists, and those whose key the data lacks. -/
def bindRows (name : String) (data : Data) :
    List Directive → Except Failure (List BoundRow × List Directive)
  | [] => .ok ([], [])
  | d :: rest =>
    match data.field? d.key with
    | none => (bindRows name data rest).map fun (bound, skipped) => (bound, d :: skipped)
    | some (.list items) =>
      (bindRows name data rest).map fun (bound, skipped) => (⟨d, items⟩ :: bound, skipped)
    | some other => .error (.notAList name d.row d.key other.kindName)

/-- The value of a cell in the copy for one element: formulas move to the copy's row, texts are
filled from the element and then from the root. -/
def copyValue (data : Data) (d : Directive) (row : Nat) (item : Data) : CellValue → CellValue
  | .formula f => .formula (Formula.moveRow d.row row f)
  | .text s => .text (data.fillRoot (Data.fillElement d.key item s))
  | value => value

def copies (data : Data) (d : Directive) (template : List (Nat × Cell)) (row : Nat) :
    List Data → List (CellRef × Cell)
  | [] => []
  | item :: rest =>
    template.map (fun (column, cell) =>
      (⟨row, column⟩, { cell with value := copyValue data d row item cell.value }))
      ++ copies data d template (row + 1) rest

def insertRows (s : Sheet) (row : Nat) : Nat → Sheet
  | 0 => s
  | n + 1 => insertRows (s.insertRow row) (row + 1) n

/-- Merged regions that cover a row, by their names. -/
def mergesOver (row : Nat) (merges : List String) : List Range :=
  (merges.filter (Range.textIncludesRow · row)).filterMap Range.ofText?

def mergeCopies (s : Sheet) (ranges : List Range) (offset : Nat) : Sheet :=
  (ranges.filterMap (·.shifted? offset)).foldl (fun s range => s.mergeText range.text) s

/-- The sheet with a row replaced by its copies. All rows are opened before the first region is
added, so no copy of a region is stretched. -/
def expandRow (data : Data) (merges : List String) (s : Sheet) (b : BoundRow) : Sheet :=
  let row := b.directive.row
  let ranges := mergesOver row merges
  let opened := (s.deleteRow row).insertRows row b.items.length
  let filled := { opened with
    cells := opened.cells.mergeWith (fun _ new => new)
      (Table.ofList (copies data b.directive (s.rowCells row) row b.items)) }
  (List.range b.items.length).foldl (fun s offset => s.mergeCopies ranges offset) filled

def fillRoot (data : Data) (s : Sheet) : Sheet :=
  { s with cells := s.cells.mapValues fun _ cell =>
      match cell.value with
      | .text t => { cell with value := .text (data.fillRoot t) }
      | _ => cell }

def expand (data : Data) (s : Sheet) : Except Failure (SheetSummary × Sheet) := do
  let directives ← s.directives
  let (bound, skipped) ← bindRows s.name data directives.reverse
  let expanded := bound.map fun b => ⟨b.directive.row, b.directive.key, b.items.length⟩
  let filled := bound.foldl (expandRow data s.mergeTexts) s
  return (⟨s.name, expanded, skipped⟩, filled.fillRoot data)

end Sheet

structure Summary where
  sheets : List SheetSummary := []
deriving DecidableEq

namespace Summary

def rowsExpanded (s : Summary) : Nat :=
  total (s.sheets.map fun sheet => sheet.expanded.length)

def rowsWritten (s : Summary) : Nat :=
  total (s.sheets.map SheetSummary.rowsWritten)

def rowsSkipped (s : Summary) : Nat :=
  total (s.sheets.map fun sheet => sheet.skipped.length)

end Summary

/-- Sheets filled in order; the first that fails makes all of them fail. -/
def expandSheets (data : Data) : List Sheet → Except Failure (List SheetSummary × List Sheet)
  | [] => .ok ([], [])
  | s :: rest => do
    let (summary, filled) ← s.expand data
    let (summaries, sheets) ← expandSheets data rest
    return (summary :: summaries, filled :: sheets)

def Workbook.expand (data : Data) (w : Workbook) : Except Failure (Summary × Workbook) :=
  (expandSheets data w.sheets).map fun (summaries, sheets) => (⟨summaries⟩, ⟨sheets⟩)

end SheetTemplate
