import SheetTemplate.Calendar.Serial
import SheetTemplate.Package.Format
import SheetTemplate.Package.StoredValidation
import SheetTemplate.Sheet.Basic
/-!
What is written for a sheet. Names, places, widths and texts have limits; a sheet that keeps them
becomes a `WrittenSheet`, which a package can hold. Merged regions that overlap an earlier one are
left out.
-/
namespace SheetTemplate

/-- What a package holds in a cell. -/
inductive WrittenValue where
  | blank
  | text (s : String)
  | number (x : Binary64)
  | bool (b : Bool)
  | formula (s : String)
deriving DecidableEq

/-- A value and a format. -/
structure WrittenCell where
  value : WrittenValue
  format : Format
deriving DecidableEq

/-- A sheet as a package holds it. -/
structure WrittenSheet where
  name : String
  widths : List (Nat × Binary64)
  merges : List Range
  cells : Table CellRef WrittenCell
  validations : List StoredValidation

namespace WrittenValue

/-- What is written for a value. Empty texts are blank, dates are numbers, numbers that are not
finite are texts, and a formula loses a closing brace at its end. -/
def ofValue : CellValue → WrittenValue
  | .empty => blank
  | .text s => if s.isEmpty then blank else text s
  | .number x =>
    if x.isNaN then text "NAN"
    else if x.isInfinite then text (if x.isNegative then "-INF" else "INF")
    else number x
  | .bool b => bool b
  | .date d => number (Serial.ofDateTime d)
  | .formula f => formula (StoredValidation.dropBrace f)

/-- The most characters that a text may have. -/
def longestText : Nat := 32767

def fits : WrittenValue → Bool
  | text s => s.length ≤ longestText
  | _ => true

end WrittenValue

namespace WrittenSheet

def lastRow : Nat := 1048576

def lastColumn : Nat := 16384

def nameFits (name : String) : Bool :=
  let cs := name.toList
  !cs.isEmpty && cs.length ≤ 31
    && !cs.any (['*', '?', ':', '[', ']', '\\', '/'].contains ·)
    && cs.head? ≠ some '\'' && cs.getLast? ≠ some '\''

def checkRow (row : Nat) : Except WriteFailure Unit :=
  if row = 0 then .error .rowZero else .ok ()

/-- Columns are numbered from 1, with numbers that fit 16 bits when counted from 0. -/
def checkColumn (column : Nat) : Except WriteFailure Unit :=
  if column = 0 ∨ twoTo 16 < column then .error (.column column) else .ok ()

/-- The stored width of a width in characters: a whole number of pixels with those of the margins,
as a fraction of seven pixels that is cut to 256ths. -/
def storedWidth (width : Binary64) : Binary64 :=
  let seven := Binary64.ofNat 7
  let scale := Binary64.ofNat 256
  let cut (pixels : Binary64) : Binary64 := ((pixels.div seven).mul scale).floor.div scale
  if !(Binary64.zero false).lt width then width
  else if width.lt (Binary64.ofNat 1) then cut (width.mul (Binary64.ofNat 12)).round
  else cut ((width.mul seven).round.add (Binary64.ofNat 5))

def largestWidth : Binary64 := Binary64.ofNat 255

def writeWidth (column : Nat) (width : Binary64) : Except WriteFailure (Nat × Binary64) := do
  checkColumn column
  if lastColumn < column then throw (.width column)
  return (column, storedWidth (if largestWidth.lt width then largestWidth else width))

/-- Ranges that overlap neither one of `before` nor an earlier one that was kept. -/
def withoutOverlaps (before : List Range) : List Range → List Range
  | [] => []
  | r :: rest =>
    if before.any (·.overlaps r) then withoutOverlaps before rest
    else r :: withoutOverlaps (r :: before) rest

def mergesOf (s : Sheet) : List Range :=
  withoutOverlaps [] s.merges

def checkMerge (r : Range) : Except WriteFailure Unit := do
  checkRow r.top
  checkColumn r.left
  checkRow r.bottom
  checkColumn r.right
  if lastRow < r.bottom ∨ lastColumn < r.right then throw (.merge r.text)

def blanks (s : Sheet) (r : Range) : List (CellRef × WrittenCell) :=
  let format := Format.ofCell (s.cellOrEmpty ⟨r.top, r.left⟩)
  if format = {} then [] else r.cells.map (·, ⟨.blank, format⟩)

/-- A cell without value and presentation is not written. -/
def isWritten (c : Cell) : Bool :=
  c.value ≠ .empty || !c.presentation.isDefault

def writtenCell (c : Cell) : WrittenCell :=
  ⟨.ofValue c.value, Format.ofCell c⟩

def checkCell (place : CellRef) (c : Cell) : Except WriteFailure Unit := do
  checkRow place.row
  checkColumn place.column
  if isWritten c then
    if lastRow < place.row ∨ lastColumn < place.column ∨ !(writtenCell c).value.fits then
      throw (.cell place.row place.column)

/-- The validations of cells, all of which have to be fit for writing. -/
def validationsOf : List (CellRef × Cell) → Except WriteFailure (List StoredValidation)
  | [] => .ok []
  | (place, c) :: rest => do
    checkCell place c
    match c.presentation.validation with
    | some v =>
      let stored ← StoredValidation.store v place
      return stored :: (← validationsOf rest)
    | none => validationsOf rest

/-- Everything written into cells: the blanks of merged regions, and over them the cells of the
sheet. -/
def cellsOf (s : Sheet) : Table CellRef WrittenCell :=
  (Table.ofList ((mergesOf s).flatMap (blanks s))).mergeWith (fun _ own => own)
    ((s.cells.filter fun _ c => isWritten c).mapValues fun _ c => writtenCell c)

def ofSheet (s : Sheet) : Except WriteFailure WrittenSheet := do
  if !nameFits s.name then throw (.sheetName s.name)
  let widths ← s.widths.entries.mapM fun (column, width) => writeWidth column width
  (mergesOf s).forM checkMerge
  let validations ← validationsOf s.cells.entries
  return { name := s.name, widths, merges := mergesOf s, cells := cellsOf s, validations }

end WrittenSheet

end SheetTemplate
