import SheetTemplate.Grid.Range
/-!
Ranges by their four bounds, and what moving one as a whole does to them.
-/
namespace SheetTemplate.Range
variable {r x : Range}

theorem eq_of_bounds (htop : r.top = x.top) (hleft : r.left = x.left)
    (hbottom : r.bottom = x.bottom) (hright : r.right = x.right) : r = x := by
  cases r
  cases x
  simp_all

@[simp] theorem ofCorners_corners (r : Range) : ofCorners ⟨r.top, r.left⟩ ⟨r.bottom, r.right⟩ = r :=
  eq_of_bounds (Nat.min_eq_left r.top_le_bottom) (Nat.min_eq_left r.left_le_right)
    (Nat.max_eq_right r.top_le_bottom) (Nat.max_eq_right r.left_le_right)

@[simp] theorem includesRow_iff {row : Nat} :
    r.includesRow row = true ↔ r.top ≤ row ∧ row ≤ r.bottom := by
  simp [includesRow]

@[simp] theorem includesRow_eq_false_iff {row : Nat} :
    r.includesRow row = false ↔ row < r.top ∨ r.bottom < row := by
  simp only [includesRow, Bool.and_eq_false_iff, decide_eq_false_iff_not]
  omega

@[simp] theorem isSingle_iff : r.isSingle = true ↔ r.top = r.bottom ∧ r.left = r.right := by
  simp [isSingle]

@[simp] theorem isSingle_eq_false_iff :
    r.isSingle = false ↔ r.top ≠ r.bottom ∨ r.left ≠ r.right := by
  rw [isSingle, Bool.and_eq_false_iff, decide_eq_false_iff_not, decide_eq_false_iff_not]

@[simp] theorem mem_cells_iff {place : CellRef} : place ∈ r.cells ↔ r.Covers place := by
  have hrows := r.top_le_bottom
  have hcolumns := r.left_le_right
  simp only [cells, List.mem_flatMap, List.mem_map, List.mem_range'_1, Covers]
  constructor
  · rintro ⟨row, hrow, column, hcolumn, rfl⟩
    dsimp only
    omega
  · intro h
    exact ⟨place.row, by omega, place.column, by omega, rfl⟩

theorem overlaps_eq_false_iff : r.overlaps x = false ↔
    r.bottom < x.top ∨ x.bottom < r.top ∨ r.right < x.left ∨ x.right < r.left := by
  simp only [overlaps, Bool.and_eq_false_iff, decide_eq_false_iff_not]
  omega

instance : Std.Symm fun r x : Range => r.overlaps x = false where
  symm r x h := by
    rw [overlaps_eq_false_iff] at h ⊢
    omega

/-- The range with another first row; it keeps its height and its columns. -/
def movedTo (r : Range) (top : Nat) : Range where
  top := top
  left := r.left
  bottom := top + (r.bottom - r.top)
  right := r.right
  top_le_bottom := Nat.le_add_right _ _
  left_le_right := r.left_le_right

def inRow (r : Range) (row : Nat) : Range where
  top := row
  left := r.left
  bottom := row
  right := r.right
  top_le_bottom := Nat.le_refl row
  left_le_right := r.left_le_right

@[simp] theorem movedTo_top (r : Range) : r.movedTo r.top = r :=
  eq_of_bounds rfl rfl (by have := r.top_le_bottom; simp only [movedTo]; omega) rfl

@[simp] theorem movedTo_movedTo (r : Range) (top top' : Nat) :
    (r.movedTo top).movedTo top' = r.movedTo top' :=
  eq_of_bounds rfl rfl (by simp only [movedTo]; omega) rfl

@[simp] theorem movedTo_inRow (r : Range) (row row' : Nat) :
    (r.inRow row).movedTo row' = r.inRow row' :=
  eq_of_bounds rfl rfl (by simp only [movedTo, inRow]; omega) rfl

theorem shifted?_natCast_eq_some_iff {n : Nat} : r.shifted? (n : Int) = some x ↔
    (0 < r.top + n ∧ r.bottom + n < twoTo 32) ∧ r.down n = x := by
  have hcond : (0 < (r.top : Int) + n ∧ (r.bottom : Int) + n < twoTo 32) ↔
      0 < r.top + n ∧ r.bottom + n < twoTo 32 := by omega
  have hdown (h) : (⟨((r.top : Int) + n).toNat, r.left, ((r.bottom : Int) + n).toNat, r.right, h,
      r.left_le_right⟩ : Range) = r.down n :=
    eq_of_bounds (by simp only [down]; omega) rfl (by simp only [down]; omega) rfl
  simp only [shifted?, hcond, Option.ite_none_right_eq_some, Option.some.injEq, hdown]

theorem shifted?_neg_one (htop : 1 < r.top) (hbottom : r.bottom < twoTo 32) :
    r.shifted? (-1) = some (r.movedTo (r.top - 1)) := by
  have hle := r.top_le_bottom
  have hcond : 0 < (r.top : Int) + -1 ∧ (r.bottom : Int) + -1 < twoTo 32 := by omega
  simp only [shifted?, hcond, and_self, if_true, Option.some.injEq]
  exact eq_of_bounds (by simp only [movedTo]; omega) rfl (by simp only [movedTo]; omega) rfl

end SheetTemplate.Range
