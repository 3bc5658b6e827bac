import SheetTemplate.Xml.Fields
import SheetTemplate.Xml.Node
/-!
The tree of elements and texts that a stream of events spells, and its elements in the order of the
document. Comments and declarations are no part of the tree.
-/
namespace SheetTemplate.Xml

/-- The events are those of the trees, one after the other: for a text its characters, for an
element its tags with its children between them, or one empty tag. Elements have their local
names. -/
inductive Reads : List Node → List Event → Prop
  | nil : Reads [] []
  | text {raw : List Char} {s : String} {nodes : List Node} {events : List Event}
      (hraw : unescape? raw = some s) (h : Reads nodes events) :
    Reads (.text s :: nodes) (.text raw :: events)
  | other {nodes : List Node} {events : List Event} (h : Reads nodes events) :
    Reads nodes (.other :: events)
  | empty {name : String} {raw : List Char} {fields : Fields} {nodes : List Node}
      {events : List Event} (hfields : fields? raw = some fields) (h : Reads nodes events) :
    Reads (.element (localName name) fields [] :: nodes) (.selfClosing name raw :: events)
  | element {name : String} {raw : List Char} {fields : Fields} {children nodes : List Node}
      {inner events : List Event} (hfields : fields? raw = some fields)
      (hchildren : Reads children inner) (h : Reads nodes events) :
    Reads (.element (localName name) fields children :: nodes)
      (.opening name raw :: (inner ++ .closing name :: events))

/-- An element with all that stands in it. -/
structure Branch where
  name : String
  fields : Fields
  children : List Node

mutual

def Node.branches : Node → List Branch
  | .text _ => []
  | .element name fields children => ⟨name, fields, children⟩ :: branchesOfAll children

def branchesOfAll : List Node → List Branch
  | [] => []
  | n :: rest => n.branches ++ branchesOfAll rest

end

def Node.text? : Node → Option String
  | .text s => some s
  | .element _ _ _ => none

/-- The texts that stand directly among the trees. -/
def textsOf (nodes : List Node) : List String :=
  nodes.filterMap Node.text?

def TextsFirst (nodes : List Node) : Prop :=
  nodes.Pairwise fun a b => b.text?.isSome → a.text?.isSome

instance (nodes : List Node) : Decidable (TextsFirst nodes) :=
  inferInstanceAs (Decidable (List.Pairwise _ _))

theorem textsOf_element {name : String} {fields : Fields} {children nodes : List Node}
    (h : TextsFirst (.element name fields children :: nodes)) :
    textsOf (.element name fields children :: nodes) = [] := by
  refine List.filterMap_eq_nil_iff.2 (List.forall_mem_cons.2 ⟨rfl, fun n hn => ?_⟩)
  have hfirst := (List.pairwise_cons.1 h).1 n hn
  cases n with
  | element name fields children => rfl
  | text s => exact absurd (hfirst rfl) Bool.false_ne_true

/-- One element between its tags. -/
theorem Reads.tagged {name own : String} {raw : List Char} {fields : Fields}
    {children : List Node} {inner : List Event} (hname : localName name = own)
    (hfields : fields? raw = some fields) (h : Reads children inner) :
    Reads [.element own fields children] (.opening name raw :: (inner ++ [.closing name])) :=
  hname ▸ .element hfields h .nil

theorem Reads.append {nodes nodes' : List Node} {events events' : List Event}
    (h : Reads nodes events) (h' : Reads nodes' events') :
    Reads (nodes ++ nodes') (events ++ events') := by
  induction h with
  | nil => exact h'
  | text hraw h ih => exact .text hraw ih
  | other h ih => exact .other ih
  | empty hfields h ih => exact .empty hfields ih
  | element hfields hchildren h _ ih =>
    rw [List.cons_append, List.cons_append, List.append_assoc, List.cons_append]
    exact .element hfields hchildren ih

end SheetTemplate.Xml
