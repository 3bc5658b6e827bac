import SheetTemplate.Binary64.Decimal
import SheetTemplate.Grid.Table
/-!
JSON trees and their two written forms: a compact one without white space, and one with a value
a line, indented by two spaces. Both are lists of characters, which the reader takes apart again.
-/
namespace SheetTemplate

/-- A JSON value. Whole numbers of 64 bits are told apart from all other numbers. -/
inductive Json where
  | null
  | bool (b : Bool)
  | int (i : Int64)
  | float (x : Binary64)
  | text (s : String)
  | list (items : List Json)
  | record (fields : List (String × Json))
deriving Inhabited

namespace Json

def hexDigit (d : Nat) : Char :=
  Char.ofNat (if d < 10 then 48 + d else 87 + d)

/-- A character inside quotes. Only the quote, the backslash and the characters below `U+0020`
are escaped. -/
def escape (c : Char) : List Char :=
  if c = '"' then ['\\', '"']
  else if c = '\\' then ['\\', '\\']
  else if c = '\x08' then ['\\', 'b']
  else if c = '\x0c' then ['\\', 'f']
  else if c = '\n' then ['\\', 'n']
  else if c = '\r' then ['\\', 'r']
  else if c = '\t' then ['\\', 't']
  else if c.toNat < 32 then
    ['\\', 'u', '0', '0', hexDigit (c.toNat / 16), hexDigit (c.toNat % 16)]
  else [c]

def quoted (s : String) : List Char :=
  '"' :: (s.toList.flatMap escape ++ ['"'])

/-- The form of numbers: positional from `1e-5` up to `1e16`, whole numbers with `.0`, and an
exponent with its sign. -/
def layout : Binary64.Layout where
  tie := .even
  positional := fun order => -5 ≤ order && order ≤ 15
  wholeMark := true
  exponentPlus := true

/-- Text of a number; what is not finite has none and becomes `null`. -/
def floatText (x : Binary64) : String :=
  if x.isFinite then Binary64.finiteText layout x else "null"

def scalarChars : Json → List Char
  | null => "null".toList
  | bool b => (if b then "true" else "false").toList
  | int i => (Text.decimalInt i.toInt).toList
  | float x => (floatText x).toList
  | text s => quoted s
  | list _ => []
  | record _ => []

mutual

def compact : Json → List Char
  | list items => '[' :: (compactItems items ++ [']'])
  | record fields => '{' :: (compactFields fields ++ ['}'])
  | v => scalarChars v

def compactItems : List Json → List Char
  | [] => []
  | [v] => compact v
  | v :: w :: rest => compact v ++ ',' :: compactItems (w :: rest)

def compactFields : List (String × Json) → List Char
  | [] => []
  | [(k, v)] => quoted k ++ ':' :: compact v
  | (k, v) :: e :: rest => quoted k ++ ':' :: (compact v ++ ',' :: compactFields (e :: rest))

end

def compactText (v : Json) : String :=
  String.ofList (compact v)

def newLine (depth : Nat) : List Char :=
  '\n' :: List.replicate (2 * depth) ' '

mutual

def pretty (depth : Nat) : Json → List Char
  | list [] => ['[', ']']
  | list (v :: rest) =>
    '[' :: (prettyItems (depth + 1) (v :: rest) ++ newLine depth ++ [']'])
  | record [] => ['{', '}']
  | record (e :: rest) =>
    '{' :: (prettyFields (depth + 1) (e :: rest) ++ newLine depth ++ ['}'])
  | v => scalarChars v

def prettyItems (depth : Nat) : List Json → List Char
  | [] => []
  | [v] => newLine depth ++ pretty depth v
  | v :: w :: rest => newLine depth ++ pretty depth v ++ ',' :: prettyItems depth (w :: rest)

def prettyFields (depth : Nat) : List (String × Json) → List Char
  | [] => []
  | [(k, v)] => newLine depth ++ quoted k ++ ':' :: ' ' :: pretty depth v
  | (k, v) :: e :: rest =>
    newLine depth ++ quoted k
      ++ ':' :: ' ' :: (pretty depth v ++ ',' :: prettyFields depth (e :: rest))

end

def prettyText (v : Json) : String :=
  String.ofList (pretty 0 v)

/-- The record of some fields, in ascending order of their keys; a later field replaces an
earlier one of its key. -/
def ofFields (fields : List (String × Json)) : Json :=
  record (Table.ofList fields).entries

end Json

end SheetTemplate
