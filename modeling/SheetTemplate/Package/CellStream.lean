import SheetTemplate.Package.RichText
/-!
The cells of a worksheet part, one after the other, with their places. A cell without a place of
its own stands to the right of the one before it. What the inside of a cell means is left to a
`CellReader`.
-/
namespace SheetTemplate

/-- The inside of a cell's child while it is read. -/
inductive Child where
  /-- Plain text, up to the first tag that closes the name. -/
  | plain (name : String) (sofar : String)
  | rich (name : String) (text : RichText)
  /-- Nothing of it counts; some tags of the name opened since. -/
  | skipped (name : String) (depth : Nat)

/-- The inside of a cell's child. -/
inductive Content where
  | plain (text : String)
  | rich (text : Option String)
  | skipped

def Child.readEvent? (child : Child) (e : Xml.Event) : Option (Child ⊕ Content) :=
  match child, e with
  | _, .broken => none
  | plain name sofar, .text raw =>
    (Xml.unescape? raw).map fun s => .inl (plain name (sofar ++ s))
  | plain name sofar, .closing n =>
    some (if n = name then .inr (.plain sofar) else .inl child)
  | rich name text, e =>
    (text.readEvent? name e).map fun
      | .inl text => .inl (rich name text)
      | .inr text => .inr (.rich text)
  | skipped name depth, .opening n _ =>
    some (.inl (skipped name (if n = name then depth + 1 else depth)))
  | skipped name depth, .closing n =>
    some (if n ≠ name then .inl child
      else if depth = 0 then .inr .skipped
      else .inl (skipped name (depth - 1)))
  | child, _ => some (.inl child)

/-- A cell as far as it says itself. -/
structure CellTag where
  place : CellRef
  attributes : List Xml.Attribute

/-- How the insides of cells become values of type `α`, of which the last in a cell counts. What
one cell leaves for the cells after it has type `σ`. -/
structure CellReader (σ α : Type) where
  /-- How a child is read, by its full name. -/
  child? : String → Option Child
  /-- What a child with these attributes makes of the value so far. -/
  take? : σ → CellTag → List Xml.Attribute → Content → α → Option (σ × α)

/-- Cells in rows between those of the first and of the last. The rows of a part ascend, and others
do not count. -/
def withinRows {α : Type} (cells : List (CellRef × α)) : List (CellRef × α) :=
  match cells.head?, cells.getLast? with
  | some first, some last =>
    cells.filter fun c => first.1.row ≤ c.1.row && c.1.row ≤ last.1.row
  | _, _ => []

namespace CellReader

variable {σ α : Type}

/-- Where in the part a reader is. -/
inductive Stage (α : Type) where
  /-- In front of the rows; whether some other element came. -/
  | front (other : Bool)
  | rows
  | cell (tag : CellTag) (value : α) (child : Option (List Xml.Attribute × Child))
  | done

/-- The cells of a part while they are read: where the next one stands, and those so far, the
latest first. -/
structure Reading (σ α : Type) where
  stage : Stage α := .front false
  row : Nat := 1
  column : Nat := 1
  kept : σ
  cells : List (CellRef × α) := []

def openFront? (r : Reading σ α) (name : String) (raw : List Char) :
    Option (Reading σ α) :=
  match Xml.localName name with
  | "dimension" =>
    match Package.rawAttribute? "ref" (Xml.attributes raw) with
    | some (some reference) => (Package.corners? reference).map fun _ => r
    | _ => none
  | "sheetData" => some { r with stage := .rows }
  | _ => some { r with stage := .front true }

def openRow? (blank : α) (r : Reading σ α) (name : String) (raw : List Char) :
    Option (Reading σ α) :=
  let attributes := Xml.attributes raw
  match Xml.localName name with
  | "row" =>
    match Package.rawAttribute? "r" attributes with
    | none => none
    | some none => some r
    | some (some reference) =>
      (Package.rowAndColumn? reference).map fun (row, _) => { r with row }
  | "c" =>
    match Package.rawAttribute? "r" attributes with
    | none => none
    | some none => some { r with stage := .cell ⟨⟨r.row, r.column⟩, attributes⟩ blank none }
    | some (some reference) =>
      (Package.cellRef? reference).map fun place =>
        { r with column := place.column, stage := .cell ⟨place, attributes⟩ blank none }
  | _ => some r

def readEvent? (reader : CellReader σ α) (blank : α) (r : Reading σ α) (e : Xml.Event) :
    Option (Reading σ α) :=
  match r.stage, e with
  | .done, _ => some r
  | _, .broken => none
  | .front _, .opening name raw => openFront? r name raw
  | .rows, .opening name raw => openRow? blank r name raw
  | .rows, .closing name =>
    match Xml.localName name with
    | "row" => some { r with row := r.row + 1, column := 1 }
    | "sheetData" => some { r with stage := .done }
    | _ => some r
  | .cell tag value none, .opening name raw =>
    (reader.child? name).map fun child =>
      { r with stage := .cell tag value (some (Xml.attributes raw, child)) }
  | .cell tag value none, .closing name =>
    some (if Xml.localName name = "c" then
      { r with stage := .rows, column := r.column + 1, cells := (tag.place, value) :: r.cells }
    else r)
  | .cell tag value (some (attributes, child)), e =>
    match child.readEvent? e with
    | none => none
    | some (.inl child) => some { r with stage := .cell tag value (some (attributes, child)) }
    | some (.inr content) =>
      (reader.take? r.kept tag attributes content value).map fun (kept, value) =>
        { r with kept, stage := .cell tag value none }
  | _, _ => some r

/-- The cells of a part in their order, `blank` being the value of a cell without a child. A part
without rows has none, but it has to hold some element. -/
def read? (reader : CellReader σ α) (kept : σ) (blank : α) (events : List Xml.Event) :
    Option (List (CellRef × α)) :=
  match events.foldlM (reader.readEvent? blank) { kept } with
  | none => none
  | some r =>
    match r.stage with
    | .done => some r.cells.reverse
    | .front true => some []
    | _ => none

end CellReader

end SheetTemplate
