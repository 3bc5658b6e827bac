import SheetTemplate.Data.Basic
import SheetTemplate.Json.Reader
/-!
Data trees as JSON trees and back, and the text that a value shows in a cell. Dates become texts,
and numbers that JSON cannot hold become `null`; all else comes back as it was.
-/
namespace SheetTemplate.Data

mutual

def toJson : Data → Json
  | null => .null
  | bool b => .bool b
  | int i => .int i
  | float x => if x.isFinite then .float x else .null
  | text s => .text s
  | date d => .text d.render
  | list items => .list (toJsonItems items)
  | record fields => .record (toJsonFields fields)

def toJsonItems : List Data → List Json
  | [] => []
  | v :: rest => toJson v :: toJsonItems rest

def toJsonFields : List (String × Data) → List (String × Json)
  | [] => []
  | (k, v) :: rest => (k, toJson v) :: toJsonFields rest

end

mutual

def ofJson : Json → Data
  | .null => null
  | .bool b => bool b
  | .int i => int i
  | .float x => float x
  | .text s => text s
  | .list items => list (ofJsonItems items)
  | .record fields => record (ofJsonFields fields)

def ofJsonItems : List Json → List Data
  | [] => []
  | v :: rest => ofJson v :: ofJsonItems rest

def ofJsonFields : List (String × Json) → List (String × Data)
  | [] => []
  | (k, v) :: rest => (k, ofJson v) :: ofJsonFields rest

end

def ofJsonText? (s : String) : Option Data :=
  (Json.ofText? s).map ofJson

/-- The text that a value shows: nothing for `null`, and compact JSON for a container. -/
def render : Data → String
  | null => ""
  | bool b => if b then "true" else "false"
  | int i => Text.decimalInt i.toInt
  | float x => x.text
  | text s => s
  | date d => d.render
  | list items => (toJson (list items)).compactText
  | record fields => (toJson (record fields)).compactText

end SheetTemplate.Data
