import SheetTemplate.Binary64.Basic
import SheetTemplate.Calendar.DateTime
import SheetTemplate.Grid.Table
/-!
The data that markers are filled from: a tree of scalars, lists and records. The fields of a
record stand in ascending order of their keys, each key once (`Data.Ordered`); `Data.ofFields`
builds only such records, and every reader goes through it.
-/
namespace SheetTemplate

inductive Data where
  | null
  | bool (b : Bool)
  | int (i : Int64)
  | float (x : Binary64)
  | text (s : String)
  | date (d : DateTime)
  | list (items : List Data)
  | record (fields : List (String × Data))
deriving Inhabited

namespace Data

/-- The record of some fields, of which a later one replaces an earlier one of its key. -/
def ofFields (fields : List (String × Data)) : Data :=
  record (Table.ofList fields).entries

def field? (key : String) : Data → Option Data
  | record fields => Table.lookup key fields
  | _ => none

def kindName : Data → String
  | null => "null"
  | bool _ => "boolean"
  | int _ => "number"
  | float _ => "number"
  | text _ => "string"
  | date _ => "date"
  | list _ => "array"
  | record _ => "object"

def isContainer : Data → Bool
  | list _ => true
  | record _ => true
  | _ => false

/-- In every record of the tree the keys ascend. -/
inductive Ordered : Data → Prop
  | null : Ordered null
  | bool (b : Bool) : Ordered (bool b)
  | int (i : Int64) : Ordered (int i)
  | float (x : Binary64) : Ordered (float x)
  | text (s : String) : Ordered (text s)
  | date (d : DateTime) : Ordered (date d)
  | list {items : List Data} : (∀ v ∈ items, Ordered v) → Ordered (list items)
  | record {fields : List (String × Data)} :
      fields.Pairwise (fun a b => compare a.1 b.1 = .lt) → (∀ f ∈ fields, Ordered f.2) →
      Ordered (record fields)

end Data

end SheetTemplate
