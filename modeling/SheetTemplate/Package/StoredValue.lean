import SheetTemplate.Binary64.Decimal
import SheetTemplate.Calendar.Iso
import SheetTemplate.Calendar.Serial
import SheetTemplate.Package.CellStream
import SheetTemplate.Package.NumberKind
import SheetTemplate.Sheet.Cell
/-!
Values of cells as a worksheet part stores them: a text, and a type that says how to read it.
Cells without a type hold numbers or texts.
-/
namespace SheetTemplate

namespace NumberKind

/-- The value of a number of this kind. Durations stay numbers, and so do dates out of range. -/
def value (kind : NumberKind) (x : Binary64) : CellValue :=
  match kind with
  | number => .number x
  | duration => .number x
  | date =>
    match Serial.toDateTime? x with
    | some d => .date d
    | none => .number x

end NumberKind

/-- What stored values refer to: the texts that cells share, and the kinds of the cell formats. -/
structure Shelf where
  texts : Array String
  kinds : Array NumberKind

namespace Shelf

/-- An index, 0 if the characters do not spell one. -/
def index (cs : List Char) : Nat :=
  ((Text.natural? 10 cs).filter (· < twoTo 64)).getD 0

def kind (s : Shelf) (attributes : List Xml.Attribute) : NumberKind :=
  match Package.rawAttribute? "s" attributes with
  | some (some raw) => s.kinds.getD (index raw) .number
  | _ => .number

def calculationErrors : List String :=
  ["#DIV/0!", "#N/A", "#NAME?", "#NULL!", "#NUM!", "#REF!", "#VALUE!"]

def value? (s : Shelf) (attributes : List Xml.Attribute) (text : String) : Option CellValue :=
  match Package.rawAttribute? "t" attributes with
  | none => none
  | some none =>
    match Binary64.ofText? text with
    | some x => some ((s.kind attributes).value x)
    | none => some (.text text)
  | some (some type) =>
    match String.ofList type with
    | "s" => s.texts[index text.toList]?.map .text
    | "b" => some (.bool (text ≠ "0"))
    | "e" => if calculationErrors.contains text then some (.text text) else none
    | "d" =>
      match Iso.read? text with
      | some d => some (.date d)
      | none => some (.text text)
    | "str" => some (.text text)
    | "n" =>
      if text.isEmpty then some .empty
      else (Binary64.ofText? text).map (s.kind attributes).value
    | _ => none

def child? (name : String) : Option Child :=
  match Xml.localName name with
  | "v" => some (.plain name "")
  | "is" => some (.rich name (.between none false))
  | "f" => some (.skipped name 0)
  | _ => none

def ofContent? (s : Shelf) (tag : CellTag) : Content → Option CellValue
  | .plain text => s.value? tag.attributes text
  | .rich (some text) => some (.text text)
  | .rich none => some .empty
  | .skipped => some .empty

def reader (s : Shelf) : CellReader Unit CellValue where
  child? := child?
  take? := fun _ tag _ content _ => (s.ofContent? tag content).map ((), ·)

/-- The values of a worksheet part, without cells that are empty. -/
def values? (s : Shelf) (events : List Xml.Event) : Option (List (CellRef × CellValue)) :=
  (s.reader.read? () .empty events).map fun cells =>
    withinRows (cells.filter fun c => c.2 ≠ .empty)

end Shelf

end SheetTemplate
