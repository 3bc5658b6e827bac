import SheetTemplate.Grid.Range
import SheetTemplate.Grid.Table
import SheetTemplate.Sheet.Cell
/-!
Sheets: cells by their place, merged regions in the order they were added, and widths of columns.
A place without a cell differs from one with an empty cell.
-/
namespace SheetTemplate

structure Sheet where
  name : String
  cells : Table CellRef Cell := Table.empty
  merges : List Range := []
  widths : Table Nat Binary64 := Table.empty

namespace Sheet

def named (name : String) : Sheet := { name }

def cell? (s : Sheet) (place : CellRef) : Option Cell :=
  s.cells.find? place

def cellOrEmpty (s : Sheet) (place : CellRef) : Cell :=
  (s.cell? place).getD {}

def valueAt? (s : Sheet) (reference : String) : Option CellValue :=
  ((CellRef.ofText? reference).bind s.cell?).map Cell.value

/-- The sheet with a cell changed, from an empty one if there was none. -/
def update (s : Sheet) (place : CellRef) (f : Cell → Cell) : Sheet :=
  { s with cells := s.cells.insert place (f (s.cellOrEmpty place)) }

def touch (s : Sheet) (place : CellRef) : Sheet :=
  s.update place id

/-- The sheet with another value at a place. The presentation there stays. -/
def setValue (s : Sheet) (place : CellRef) (value : CellValue) : Sheet :=
  s.update place fun cell => { cell with value }

def setPresentation (s : Sheet) (place : CellRef) (presentation : Presentation) : Sheet :=
  s.update place fun cell => { cell with presentation }

/-- The sheet with another value at the place that a text names. A text that names no place
changes nothing. -/
def set (s : Sheet) (reference : String) (value : CellValue) : Sheet :=
  match CellRef.ofText? reference with
  | some place => s.setValue place value
  | none => s

def setWidth (s : Sheet) (column : Nat) (width : Binary64) : Sheet :=
  { s with widths := s.widths.insert column width }

/-- Merged regions with one more, unless it is a single cell or there already. -/
def pushRange (merges : List Range) (range : Range) : List Range :=
  if range.isSingle || merges.contains range then merges else merges ++ [range]

def merge (s : Sheet) (range : Range) : Sheet :=
  { s with merges := pushRange s.merges range }

/-- The sheet with the merged region that a text names, if it names one. -/
def mergeText (s : Sheet) (text : String) : Sheet :=
  match Range.ofText? text with
  | some range => s.merge range
  | none => s

def mergeTexts (s : Sheet) : List String :=
  s.merges.map Range.text

def rowNumbers (s : Sheet) : List Nat :=
  (s.cells.keys.map CellRef.row).eraseReps

def rowCells (s : Sheet) (row : Nat) : List (Nat × Cell) :=
  (s.cells.entries.filter fun e => e.1.row = row).map fun e => (e.1.column, e.2)

/-- The texts of a row, ascending by column. Only text cells have one. -/
def rowTexts (s : Sheet) (row : Nat) : List String :=
  (s.rowCells row).filterMap fun e => e.2.value.text?

/-- The last row that holds a cell, 0 if there is none. -/
def lastRow (s : Sheet) : Nat :=
  (s.rowNumbers.getLast?).getD 0

def isEmpty (s : Sheet) : Bool :=
  s.cells.entries.isEmpty

end Sheet

/-- A workbook: its sheets in order. Two of them may have the same name. -/
structure Workbook where
  sheets : List Sheet := []

end SheetTemplate
