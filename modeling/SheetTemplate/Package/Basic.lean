import SheetTemplate.Grid.CellRef
import SheetTemplate.Xml.Lexer
/-!
Packages: the named parts of a workbook file. Readers of values take parts by name in any case of
its letters; readers of presentations want the exact name, and text that is UTF-8.
-/
namespace SheetTemplate

/-- A part of a package. A byte that is not UTF-8 stands in its text as two ampersands, which no
reader of texts accepts. -/
structure Part where
  text : String
  isUtf8 : Bool := true

def Part.charsFrom (b : ByteArray) : Nat → Nat → List Char
  | 0, _ => []
  | fuel + 1, i =>
    if i < b.size then
      match b.utf8DecodeChar? i with
      | some c => c :: charsFrom b fuel (i + c.utf8Size)
      | none => '&' :: '&' :: charsFrom b fuel (i + 1)
    else []

def Part.ofBytes (b : ByteArray) : Part :=
  match String.fromUTF8? b with
  | some text => { text }
  | none => { text := String.ofList (charsFrom b b.size 0), isUtf8 := false }

structure Package where
  parts : List (String × Part)

namespace Package

def part? (p : Package) (name : String) : Option Part :=
  (p.parts.find? fun e => e.1 = name).map (·.2)

/-- A name as far as it matters for a tolerant look-up. -/
def foldName (name : String) : String :=
  String.ofList ((Text.lowerAscii name).toList.map fun c => if c = '\\' then '/' else c)

/-- The first part with this name, in any case of its letters and with either slash. -/
def similarPart? (p : Package) (name : String) : Option Part :=
  (p.parts.find? fun e => foldName e.1 = foldName name).map (·.2)

def tolerantEvents? (p : Package) (name : String) : Option (List Xml.Event) :=
  (p.similarPart? name).map fun part => Xml.tolerantEvents part.text

/-- The attribute with a name, as written: a failure if one in front of it is malformed, and
`some none` if there is no such attribute. -/
def rawAttribute? (name : String) : List Xml.Attribute → Option (Option (List Char))
  | [] => some none
  | .malformed :: _ => none
  | .pair n raw :: rest => if n = name then some (some raw) else rawAttribute? name rest

def vocabulary (path : String) : String :=
  "http://schemas.openxmlformats.org/" ++ path

def workbookVocabulary : String :=
  vocabulary "spreadsheetml/2006/main"

def capital (c : Char) : Char :=
  if 'a' ≤ c && c ≤ 'z' then Char.ofNat (c.toNat - 32) else c

/-- A row and, if there are letters in front of it, a column, by letters in any case. -/
def rowAndColumn? (raw : List Char) : Option (Nat × Option Nat) :=
  let cs := raw.map capital
  let letters := cs.takeWhile Text.isCapital
  match Text.natural? 10 (cs.dropWhile Text.isCapital) with
  | none => none
  | some row =>
    if row = 0 then none
    else some (row, if letters.isEmpty then none else Column.value? letters)

/-- A cell by its column and row, letters in any case and without dollar signs. -/
def cellRef? (raw : List Char) : Option CellRef :=
  match rowAndColumn? raw with
  | some (row, some column) => some ⟨row, column⟩
  | _ => none

def corners? (raw : List Char) : Option (CellRef × CellRef) :=
  match Text.parts ':' raw with
  | [a] => (cellRef? a).map fun c => (c, c)
  | [a, b] =>
    match cellRef? a, cellRef? b with
    | some a, some b => some (a, b)
    | _, _ => none
  | _ => none

end Package

end SheetTemplate
