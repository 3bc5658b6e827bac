import SheetTemplate.Binary64.Decimal
import SheetTemplate.Text.Blank
import SheetTemplate.Xml.Event
/-!
The attributes of a tag as named values, by their local names. Of two values with the same local
name the later one counts.
-/
namespace SheetTemplate.Xml

abbrev Fields := List (String × String)

def fieldsOf? : List Attribute → Option Fields
  | [] => some []
  | .malformed :: _ => none
  | .pair name raw :: rest =>
    match unescape? raw, fieldsOf? rest with
    | some value, some fields => some ((localName name, value) :: fields)
    | _, _ => none

def fields? (raw : List Char) : Option Fields :=
  fieldsOf? (attributes raw)

namespace Fields

/-- The last value with a name. -/
def get? (name : String) : Fields → Option String
  | [] => none
  | (n, value) :: rest =>
    match get? name rest with
    | some later => some later
    | none => if n = name then some value else none

def natural? (fields : Fields) (limit : Nat) (name : String) : Option Nat :=
  (fields.get? name).bind fun s => Text.unsigned? 10 limit (Text.trimChars s.toList)

def number? (fields : Fields) (name : String) : Option Binary64 :=
  (fields.get? name).bind fun s => Binary64.ofChars? (Text.trimChars s.toList)

/-- A value read as yes or no, with what a missing value means. -/
def flag (fields : Fields) (name : String) (missing : Bool) : Bool :=
  match fields.get? name with
  | some s => s = "1" || Text.lowerAscii s = "true"
  | none => missing

/-- A property that its mere mention turns on, unless it says otherwise. -/
def toggle (fields : Fields) : Bool :=
  match fields.get? "val" with
  | some s => s ≠ "0" && s ≠ "false" && s ≠ "none"
  | none => true

/-- A colour: the last six hexadecimal digits of its value. Colours of a theme or a palette do not
count. -/
def color? (fields : Fields) : Option Nat :=
  (fields.get? "rgb").bind fun s =>
    let digits := s.toList.drop (s.toList.length - 6)
    if digits.length = 6 then Text.unsigned? 16 (twoTo 32) digits else none

end Fields

end SheetTemplate.Xml
