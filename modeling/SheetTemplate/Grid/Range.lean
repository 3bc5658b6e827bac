import SheetTemplate.Grid.CellRef
import SheetTemplate.Text.Blank
/-!
Rectangles of cells, both corners included. A merged region of a sheet is such a range, and it
travels as the text `A1:B2`.
-/
namespace SheetTemplate

/-- A rectangle of rows `top` to `bottom` and columns `left` to `right`. -/
structure Range where
  top : Nat
  left : Nat
  bottom : Nat
  right : Nat
  top_le_bottom : top ≤ bottom
  left_le_right : left ≤ right
deriving DecidableEq

namespace Range

def ofCorners (a b : CellRef) : Range where
  top := min a.row b.row
  left := min a.column b.column
  bottom := max a.row b.row
  right := max a.column b.column
  top_le_bottom := by omega
  left_le_right := by omega

def Covers (r : Range) (c : CellRef) : Prop :=
  (r.top ≤ c.row ∧ c.row ≤ r.bottom) ∧ r.left ≤ c.column ∧ c.column ≤ r.right

instance (r : Range) (c : CellRef) : Decidable (r.Covers c) :=
  inferInstanceAs (Decidable (_ ∧ _))

def includesRow (r : Range) (row : Nat) : Bool :=
  r.top ≤ row && row ≤ r.bottom

def isSingle (r : Range) : Bool :=
  r.top = r.bottom && r.left = r.right

/-- Both the rows and the columns of two ranges meet. -/
def overlaps (r s : Range) : Bool :=
  r.top ≤ s.bottom && s.top ≤ r.bottom && r.left ≤ s.right && s.left ≤ r.right

def size (r : Range) : Nat :=
  (r.bottom - r.top + 1) * (r.right - r.left + 1)

def cells (r : Range) : List CellRef :=
  (List.range' r.top (r.bottom - r.top + 1)).flatMap fun row =>
    (List.range' r.left (r.right - r.left + 1)).map fun column => ⟨row, column⟩

def down (r : Range) (n : Nat) : Range where
  top := r.top + n
  left := r.left
  bottom := r.bottom + n
  right := r.right
  top_le_bottom := Nat.add_le_add_right r.top_le_bottom n
  left_le_right := r.left_le_right

/-- The range moved by a number of rows, down or up, if all its rows stay from 1 on and within
32 bits. -/
def shifted? (r : Range) (offset : Int) : Option Range :=
  let top := r.top + offset
  let bottom := r.bottom + offset
  if 0 < top ∧ bottom < twoTo 32 then
    some ⟨top.toNat, r.left, bottom.toNat, r.right,
      Int.toNat_le_toNat (Int.add_le_add_right (Int.ofNat_le.2 r.top_le_bottom) offset),
      r.left_le_right⟩
  else none

def text (r : Range) : String :=
  CellRef.text ⟨r.top, r.left⟩ ++ ":" ++ CellRef.text ⟨r.bottom, r.right⟩

/-- The range between the cells named on the two sides of the first colon. White space around the
text is ignored. -/
def ofText? (s : String) : Option Range :=
  let cs := Text.trimChars s.toList
  match cs.dropWhile (· ≠ ':') with
  | [] => none
  | _ :: rest =>
    match CellRef.ofChars? (cs.takeWhile (· ≠ ':')), CellRef.ofChars? rest with
    | some a, some b => some (ofCorners a b)
    | _, _ => none

/-- The text names a range with a cell in the row. -/
def textIncludesRow (s : String) (row : Nat) : Bool :=
  match ofText? s with
  | some r => r.includesRow row
  | none => false

end Range

end SheetTemplate
