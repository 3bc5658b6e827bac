import SheetTemplate.Yaml.Node
import SheetTemplate.Yaml.Scalar
/-!
The value of a YAML document: its node with aliases followed and scalars understood. Nesting is
bounded, and so is the number of aliases that are followed, in proportion to the document. A
mapping must not have two equal keys.
-/
namespace SheetTemplate.Yaml

/-- A YAML value. A local tag stays with its value. -/
inductive Value where
  | null
  | bool (b : Bool)
  | int (i : Int)
  | float (x : Binary64)
  | text (s : List Char)
  | list (items : List Value)
  | record (entries : List (Value × Value))
  | tagged (name : List Char) (v : Value)
deriving Inhabited

namespace Value

def sameFloat (x y : Binary64) : Bool :=
  (x.isNaN && y.isNaN) || x.equals y

mutual

/-- Two keys are equal. Mappings inside them are compared without regard to order. -/
def same : Value → Value → Bool
  | null, null => true
  | bool a, bool b => a = b
  | int a, int b => a = b
  | float a, float b => sameFloat a b
  | text a, text b => a = b
  | list a, list b => sameItems a b
  | record a, record b => a.length = b.length && within a b
  | tagged n a, tagged m b => n = m && same a b
  | _, _ => false

def sameItems : List Value → List Value → Bool
  | [], [] => true
  | a :: as, b :: bs => same a b && sameItems as bs
  | _, _ => false

def within : List (Value × Value) → List (Value × Value) → Bool
  | [], _ => true
  | (k, v) :: rest, entries =>
    (entries.any fun e => same k e.1 && same v e.2) && within rest entries

end

def ofScalar : Scalar → Value
  | .null => null
  | .bool b => bool b
  | .int i => int i
  | .float x => float x
  | .text s => text s

/-- The value of a scalar. Quoted scalars and those with a foreign tag are texts. If the scalar is
covered, by a local tag of its own or around it, only its form counts. -/
def ofWritten? (covered : Bool) (tag : Option Tag) (form : ScalarForm) (cs : List Char) :
    Option Value :=
  let bare := (Scalar.bare? cs).map ofScalar
  match if covered then none else tag with
  | none => if form = .plain then bare else some (text cs)
  | some t =>
    match Scalar.tagged? t cs with
    | some meaning => meaning.map ofScalar
    | none => some (text cs)

/-- What the aliases of a document lead to, and how many of them may be followed. -/
structure Anchors where
  nodes : List (Nat × Node)
  limit : Nat

abbrev Count := StateT Nat Option

def follow (a : Anchors) : Node → Count Node
  | .alias id => do
    let n ← get
    if a.limit ≤ n then failure
    set (n + 1)
    match a.nodes.find? fun e => e.1 = id with
    | some (_, node) => return node
    | none => failure
  | node => return node

def localName? (tag : Option Tag) : Option (List Char) :=
  match tag with
  | some ('!' :: name) => some name
  | _ => none

def wrap (name : Option (List Char)) (v : Value) : Count Value :=
  match name with
  | none => return v
  | some [] => failure
  | some cs => return tagged cs v

/-- Entries whose keys differ from each other, evaluated in order. -/
def entries (key value : Node → Count Value) (seen : List (Value × Value)) :
    List (Node × Node) → Count (List (Value × Value))
  | [] => return seen.reverse
  | (k, v) :: rest => do
    let k ← key k
    if seen.any fun e => same k e.1 then failure
    let v ← value v
    entries key value ((k, v) :: seen) rest

/-- The value of a node with at most `depth` collections inside each other. A node is covered if
it belongs to a key of a mapping with a local tag; its own tag then does not count. -/
def evaluate (a : Anchors) (depth : Nat) (covered : Bool) (node : Node) : Count Value := do
  let name (tag : Option Tag) : Option (List Char) := if covered then none else localName? tag
  match ← follow a node with
  | .alias _ => failure
  | .scalar _ tag form cs =>
    let v ← (ofWritten? (covered || (name tag).isSome) tag form cs : Option Value)
    wrap (name tag) v
  | .sequence _ tag items =>
    match depth with
    | 0 => failure
    | depth + 1 => wrap (name tag) (list (← items.mapM (evaluate a depth false)))
  | .mapping _ tag pairs =>
    match depth with
    | 0 => failure
    | depth + 1 =>
      let inside := covered || (name tag).isSome
      let read ← entries (evaluate a depth inside) (evaluate a depth false) [] pairs
      wrap (name tag) (record read)

def maxDepth : Nat := 128

def ofNode? (node : Node) : Option Value :=
  let all := node.all
  let anchors : Anchors := {
    nodes := all.reverse.filterMap fun n => n.anchor?.map (·, n)
    limit := 100 * total (all.map Node.events) }
  ((evaluate anchors maxDepth false node).run 0).map (·.1)

/-- The value of a text; a text without a document has the value `null`. -/
def ofText? (s : String) : Option Value :=
  match Node.ofText? s with
  | none => none
  | some none => some null
  | some (some node) => ofNode? node

end Value

end SheetTemplate.Yaml
