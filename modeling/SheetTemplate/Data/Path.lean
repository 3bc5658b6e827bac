import SheetTemplate.Data.Basic
import SheetTemplate.Text.Numeral
/-!
Paths into a data tree. A path is cut at its dots, and each segment is one step: a key of a
record, or an index of a list.
-/
namespace SheetTemplate.Data

def step? (segment : String) : Data → Option Data
  | record fields => Table.lookup segment fields
  | list items => (Text.unsigned64? segment).bind fun i => items[i]?
  | _ => none

def walk? : List String → Data → Option Data
  | [], v => some v
  | segment :: rest, v => (step? segment v).bind (walk? rest)

/-- What a path leads to. An empty text is one empty segment. -/
def resolve? (path : String) (v : Data) : Option Data :=
  walk? (Text.split '.' path) v

end SheetTemplate.Data
