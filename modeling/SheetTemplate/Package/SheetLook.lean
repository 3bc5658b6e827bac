import SheetTemplate.Grid.Range
import SheetTemplate.Grid.Table
import SheetTemplate.Package.StoredValidation
import SheetTemplate.Package.StyleTable
/-!
How a worksheet part makes its cells look: widths of columns, formats of cells, and validations,
which are spread over all cells that they apply to.
-/
namespace SheetTemplate

/-- What a part says about a cell: a format replaces all that was said before, a validation only an
earlier validation. -/
structure LookEdit where
  format : Option Presentation := none
  validation : Option Validation := none

namespace LookEdit

def andThen (earlier later : LookEdit) : LookEdit :=
  match later.format with
  | some _ => later
  | none => { earlier with validation := later.validation.or earlier.validation }

def result (e : LookEdit) : Presentation :=
  let p := e.format.getD {}
  { p with validation := e.validation.or p.validation }

end LookEdit

/-- Presentations of cells and widths of columns. -/
structure SheetLook where
  cells : Table CellRef Presentation
  widths : Table Nat Binary64

namespace SheetLook

/-- The most cells that an area of a validation may have. -/
def largestArea : Nat := 10000

def lastColumn : Nat := 16384

/-- The width in characters of a stored width: seven pixels a character, of which five are for the
margins. Below one character and its margins, twelve pixels make a character. -/
def characters (stored : Binary64) : Binary64 :=
  let pixels := (stored.mul (Binary64.ofNat 7)).round
  if pixels.lt (Binary64.ofNat 12) || pixels.isNaN then pixels.div (Binary64.ofNat 12)
  else (pixels.add (Binary64.ofInt (-5))).div (Binary64.ofNat 7)

def columns (fields : Xml.Fields) : List (Nat × Binary64) :=
  match fields.natural? (twoTo 32) "min", fields.natural? (twoTo 32) "max",
      fields.number? "width" with
  | some first, some last, some width =>
    let first := max first 1
    let last := min last lastColumn
    (List.range' first (last + 1 - first)).map (·, characters width)
  | _, _, _ => []

/-- The format that an element gives to a cell. Formats that set nothing do not count. -/
def cellFormat (formats : Array Presentation) (fields : Xml.Fields) : List (CellRef × LookEdit) :=
  match (fields.get? "r").bind CellRef.ofText?,
      (fields.natural? (twoTo 64) "s").bind fun i => formats[i]? with
  | some place, some format => if format.isDefault then [] else [(place, { format })]
  | _, _ => []

/-- The range of a word, unless it is too large. -/
def area? (word : String) : Option Range :=
  let range? :=
    if word.toList.contains ':' then Range.ofText? word
    else (CellRef.ofText? word).map fun c => Range.ofCorners c c
  range?.filter fun range => range.size ≤ largestArea

def spread (v : StoredValidation) : List (CellRef × LookEdit) :=
  match v.validation? with
  | none => []
  | some validation =>
    let areas := (Text.words Text.isBlank ((v.fields.get? "sqref").getD "")).filterMap area?
    areas.flatMap fun range => range.cells.map (·, { validation := some validation })

/-- One of the two formulas of a validation. -/
inductive Slot where
  | first
  | second
deriving DecidableEq

/-- The look of a part while it is read. -/
structure Reading where
  /-- Edits and widths, the latest first. -/
  edits : List (CellRef × LookEdit) := []
  widths : List (Nat × Binary64) := []
  /-- The validation that the reader is in. -/
  validation : Option StoredValidation := none
  /-- The formula that the reader is in. -/
  slot : Option Slot := none

def fieldsOf (raw : List Char) : Except ReadFailure Xml.Fields :=
  match Xml.fields? raw with
  | some fields => .ok fields
  | none => .error .malformedAttribute

def readTag (formats : Array Presentation) (r : Reading) (opens : Bool) (name : String)
    (raw : List Char) : Except ReadFailure Reading :=
  match name with
  | "col" => (fieldsOf raw).map fun fields =>
      { r with widths := (columns fields).reverse ++ r.widths }
  | "c" => (fieldsOf raw).map fun fields =>
      { r with edits := (cellFormat formats fields) ++ r.edits }
  | name =>
    if !opens then .ok r
    else if name = "dataValidation" then
      (fieldsOf raw).map fun fields => { r with validation := some { fields } }
    else if r.validation.isSome then
      let slot := match name with
        | "formula1" => some .first
        | "formula2" => some .second
        | _ => none
      .ok { r with slot }
    else .ok r

def readText (r : Reading) (raw : List Char) : Except ReadFailure Reading :=
  match r.validation, r.slot with
  | some v, some slot =>
    match Xml.unescape? raw, slot with
    | some text, .first => .ok { r with validation := some { v with first := some text } }
    | some text, .second => .ok { r with validation := some { v with second := some text } }
    | none, _ => .error (.part "data validation")
  | _, _ => .ok r

def readClosing (r : Reading) (name : String) : Reading :=
  match name with
  | "formula1" => { r with slot := none }
  | "formula2" => { r with slot := none }
  | "dataValidation" =>
    match r.validation with
    | some v => { r with validation := none, edits := (spread v).reverse ++ r.edits }
    | none => r
  | _ => r

def readEvent (formats : Array Presentation) (r : Reading) (e : Xml.Event) :
    Except ReadFailure Reading :=
  match e with
  | .opening name raw => readTag formats r true (Xml.localName name) raw
  | .selfClosing name raw => readTag formats r false (Xml.localName name) raw
  | .text raw => readText r raw
  | .closing name => .ok (readClosing r (Xml.localName name))
  | .other => .ok r
  | .broken => .error (.part "worksheet")

def ofEdits (edits : List (CellRef × LookEdit)) (widths : List (Nat × Binary64)) : SheetLook where
  cells := (Table.ofListWith LookEdit.andThen edits).mapValues fun _ e => e.result
  widths := Table.ofList widths

def ofEvents (formats : Array Presentation) (events : List Xml.Event) :
    Except ReadFailure SheetLook :=
  (events.foldlM (readEvent formats) {}).map fun r => ofEdits r.edits.reverse r.widths.reverse

end SheetLook

end SheetTemplate
