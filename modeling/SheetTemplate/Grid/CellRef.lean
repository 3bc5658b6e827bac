import SheetTemplate.Text.Numeral
/-!
Columns and cells by name. Columns are numbered from 1 and named in bijective base 26; a cell is
named by its column and its row. Names are read only up to three letters.
-/
namespace SheetTemplate

namespace Column

def letter (d : Nat) : Char :=
  Char.ofNat (64 + d)

/-- Letters of a column; the first column's name also stands for the number 0. -/
def letters (column : Nat) : List Char :=
  if column ≤ 26 then [letter (max column 1)]
  else letters ((column - 1) / 26) ++ [letter ((column - 1) % 26 + 1)]
termination_by column
decreasing_by omega

def name (column : Nat) : String :=
  String.ofList (letters column)

def value? (cs : List Char) : Option Nat :=
  cs.foldlM (fun n c => if Text.isCapital c then some (n * 26 + (c.toNat - 64)) else none) 0

/-- Number of a column by its letters, of which there are one to three. -/
def ofLetters? (cs : List Char) : Option Nat :=
  if cs.isEmpty || 3 < cs.length then none else value? cs

def number? (name : String) : Option Nat :=
  ofLetters? name.toList

end Column

/-- A cell by its row and column, both numbered from 1. -/
structure CellRef where
  row : Nat
  column : Nat
deriving DecidableEq

namespace CellRef

/-- Row by row, and by column within a row. -/
instance : Ord CellRef where
  compare a b := (compare a.row b.row).then (compare a.column b.column)

theorem compare_def (a b : CellRef) :
    compare a b = (compare a.row b.row).then (compare a.column b.column) := rfl

theorem compare_eq_lt {a b : CellRef} :
    compare a b = .lt ↔ a.row < b.row ∨ a.row = b.row ∧ a.column < b.column := by
  simp [compare_def, Ordering.then_eq_lt, Nat.compare_eq_lt]

theorem compare_eq_eq {a b : CellRef} : compare a b = .eq ↔ a = b := by
  simp only [compare_def, Ordering.then_eq_eq, Nat.compare_eq_eq]
  constructor
  · rintro ⟨h, k⟩
    cases a; cases b; simp_all
  · rintro rfl
    exact ⟨rfl, rfl⟩

instance : Std.LawfulEqOrd CellRef where
  eq_of_compare h := compare_eq_eq.1 h
  compare_self := compare_eq_eq.2 rfl

instance : Std.TransOrd CellRef where
  eq_swap {a b} := by
    rw [compare_def, compare_def, Ordering.swap_then, ← Nat.compare_swap b.row a.row,
      ← Nat.compare_swap b.column a.column]
  isLE_trans {a b c} h k := by
    rw [Ordering.isLE_iff_eq_lt_or_eq_eq] at h k ⊢
    rw [compare_eq_lt, compare_eq_eq] at h k ⊢
    rcases h with h | rfl
    · rcases k with k | rfl
      · left
        omega
      · exact Or.inl h
    · exact k

def dropDollar : List Char → List Char
  | '$' :: cs => cs
  | cs => cs

/-- The cell that the characters name: letters and digits, each with an optional dollar sign in
front. The digits spell a row from 1 that fits 32 bits. -/
def ofChars? (cs : List Char) : Option CellRef :=
  let cs := dropDollar cs
  let digits := dropDollar (cs.dropWhile Text.isCapital)
  match Text.natural? 10 digits, Column.ofLetters? (cs.takeWhile Text.isCapital) with
  | some row, some column => if 0 < row ∧ row < twoTo 32 then some ⟨row, column⟩ else none
  | _, _ => none

def ofText? (s : String) : Option CellRef :=
  ofChars? s.toList

def chars (r : CellRef) : List Char :=
  Column.letters r.column ++ Text.digits r.row

def text (r : CellRef) : String :=
  String.ofList r.chars

end CellRef

end SheetTemplate
