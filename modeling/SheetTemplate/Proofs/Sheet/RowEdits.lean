import Mathlib.Data.List.Forall2
import SheetTemplate.Proofs.Sheet.Edits
/-!
Merged regions and the cells that they cover. Opening or removing a row moves the regions and the
cells by different rules; the two agree, and removing a row that was opened restores the sheet.
-/
namespace SheetTemplate

namespace Range

/-- A row is opened in the region if it covers the cells on both sides; every other cell that it
covers keeps its place or moves down by one. -/
def OpenedAt (row : Nat) (m x : Range) : Prop :=
  ∀ c : CellRef, x.Covers c ↔
    if c.row < row then m.Covers c
    else if row < c.row then m.Covers ⟨c.row - 1, c.column⟩
    else m.Covers ⟨row - 1, c.column⟩ ∧ m.Covers ⟨row, c.column⟩

/-- The region covers where its cells are once a row is removed. -/
def ClosedAt (row : Nat) (m x : Range) : Prop :=
  ∀ c : CellRef, x.Covers c ↔ ∃ d, m.Covers d ∧ d.closed? row = some c

def cellsOutside (r : Range) (row : Nat) : List CellRef :=
  r.cells.filter fun c => c.row ≠ row

end Range

/-- What opening and removing a row does to the merged regions of a sheet. -/
structure Sheet.MovesMerges (s : Sheet) (row : Nat) : Prop where
  opened : List.Forall₂ (Range.OpenedAt row) s.merges (s.insertRow row).merges
  closed : List.Forall₂ (Range.ClosedAt row)
    (s.merges.filter fun m => 1 < (m.cellsOutside row).length) (s.deleteRow row).merges
  disjoint : (s.merges.Pairwise fun m m' => m.overlaps m' = false) →
    ((s.insertRow row).merges.Pairwise fun m m' => m.overlaps m' = false) ∧
      (s.deleteRow row).merges.Pairwise fun m m' => m.overlaps m' = false
  restored : (s.insertRow row).deleteRow row = s

namespace Range
variable {r x y : Range} {row : Nat}

theorem covers_iff {c : CellRef} : r.Covers c ↔
    (r.top ≤ c.row ∧ c.row ≤ r.bottom) ∧ r.left ≤ c.column ∧ c.column ≤ r.right := Iff.rfl

theorem overlaps_eq_false_iff_covers :
    r.overlaps x = false ↔ ∀ c, r.Covers c → ¬ x.Covers c := by
  have hr := r.top_le_bottom
  have hx := x.top_le_bottom
  have hr' := r.left_le_right
  have hx' := x.left_le_right
  simp only [overlaps_eq_false_iff, covers_iff]
  constructor
  · intro h c hc
    omega
  · intro h
    have hcorner := h ⟨max r.top x.top, max r.left x.left⟩
    dsimp only at hcorner
    omega

/-! ### Opening a row -/

theorem opened_openedAt (hrow : 0 < row) (r : Range) : OpenedAt row r (r.opened row) := by
  have hle := r.top_le_bottom
  intro c
  unfold opened
  simp only [covers_iff]
  split
  · simp only [down]
    split
    · omega
    · split <;> omega
  · split
    · dsimp only
      split
      · omega
      · split <;> omega
    · split
      · omega
      · split <;> omega

theorem OpenedAt.overlaps {m m' : Range} (hx : OpenedAt row m x) (hy : OpenedAt row m' y)
    (h : m.overlaps m' = false) : x.overlaps y = false := by
  rw [overlaps_eq_false_iff_covers] at h ⊢
  intro c hxc hyc
  rw [hx c] at hxc
  rw [hy c] at hyc
  split at hxc
  · rw [if_pos ‹_›] at hyc
    exact h c hxc hyc
  · rw [if_neg ‹_›] at hyc
    split at hxc
    · rw [if_pos ‹_›] at hyc
      exact h _ hxc hyc
    · rw [if_neg ‹_›] at hyc
      exact h _ hxc.2 hyc.2

/-! ### Removing a row -/

private theorem length_filter_rows (rows columns : List Nat) (row : Nat) :
    ((rows.flatMap fun r => columns.map fun k => (⟨r, k⟩ : CellRef)).filter
      fun c => c.row ≠ row).length = rows.countP (· ≠ row) * columns.length := by
  induction rows with
  | nil => simp
  | cons r rows ih =>
    rw [List.flatMap_cons, List.filter_append, List.length_append, ih, List.countP_cons]
    by_cases hr : r = row
    · simp [hr, List.filter_map, Function.comp_def]
    · simp [hr, List.filter_map, Function.comp_def, Nat.add_mul, Nat.add_comm]

private theorem countP_range' (first n row : Nat) : (List.range' first n).countP (· ≠ row) =
    n - if first ≤ row ∧ row < first + n then 1 else 0 := by
  have hsplit := (List.range' first n).length_eq_countP_add_countP (· == row)
  rw [List.length_range', ← List.count, List.count_range_1'] at hsplit
  simp only [beq_iff_eq] at hsplit
  simp only [ne_eq]
  omega

private theorem length_cellsOutside (r : Range) (row : Nat) : (r.cellsOutside row).length =
    (r.bottom - r.top + 1 - if r.top ≤ row ∧ row ≤ r.bottom then 1 else 0) *
      (r.right - r.left + 1) := by
  have hle := r.top_le_bottom
  have hin : r.top ≤ row ∧ row < r.top + (r.bottom - r.top + 1) ↔
      r.top ≤ row ∧ row ≤ r.bottom := by omega
  rw [cellsOutside, cells, length_filter_rows, countP_range', List.length_range']
  simp only [hin]

/-- A region of at least two cells is given up when at most one cell of it is left. -/
theorem isSome_closed?_iff (hrow : 0 < row) (hbottom : r.bottom < twoTo 32) (hsize : 2 ≤ r.size) :
    (r.closed? row).isSome ↔ 1 < (r.cellsOutside row).length := by
  have hle := r.top_le_bottom
  have hleft := r.left_le_right
  rw [length_cellsOutside]
  unfold closed?
  by_cases habove : r.bottom < row
  · have hout : ¬ (r.top ≤ row ∧ row ≤ r.bottom) := by omega
    rw [if_pos habove, if_neg hout]
    exact iff_of_true rfl hsize
  · rw [if_neg habove]
    by_cases hbelow : row < r.top
    · have hout : ¬ (r.top ≤ row ∧ row ≤ r.bottom) := by omega
      rw [if_pos hbelow, if_neg hout, shifted?_neg_one (by omega) hbottom]
      exact iff_of_true rfl hsize
    · rw [if_neg hbelow, if_pos (by omega)]
      by_cases htall : r.top < r.bottom
      · have hrows : r.bottom - r.top + 1 - 1 = r.bottom - r.top := by omega
        rw [dif_pos htall, hrows, Nat.one_lt_mul_iff]
        dsimp only
        split
        · rename_i hsingle
          rw [isSingle_iff] at hsingle
          dsimp only at hsingle
          exact iff_of_false Bool.false_ne_true (by omega)
        · rename_i hsingle
          rw [isSingle_iff] at hsingle
          dsimp only at hsingle
          exact iff_of_true rfl (by omega)
      · rw [dif_neg htall]
        have hzero : r.bottom - r.top + 1 - 1 = 0 := by omega
        rw [hzero, Nat.zero_mul]
        exact iff_of_false Bool.false_ne_true (Nat.not_lt_zero 1)

theorem closedAt_of_closed? (hrow : 0 < row) (hbottom : r.bottom < twoTo 32)
    (hx : r.closed? row = some x) : ClosedAt row r x := by
  have hle := r.top_le_bottom
  rintro ⟨p, column⟩
  simp only [CellRef.closed?_eq_some_iff, exists_eq_right]
  unfold closed? at hx
  split at hx
  · obtain rfl := Option.some.inj hx
    split
    · rfl
    · simp only [covers_iff]
      omega
  · split at hx
    · rw [shifted?_neg_one (by omega) hbottom] at hx
      obtain rfl := Option.some.inj hx
      split <;> simp only [covers_iff, movedTo] <;> omega
    · split at hx
      · obtain ⟨-, hx⟩ := Option.ite_none_left_eq_some.1 hx
        obtain rfl := Option.some.inj hx
        split <;> simp only [covers_iff] <;> omega
      · cases hx

theorem ClosedAt.overlaps {m m' : Range} (hx : ClosedAt row m x) (hy : ClosedAt row m' y)
    (h : m.overlaps m' = false) : x.overlaps y = false := by
  rw [overlaps_eq_false_iff_covers] at h ⊢
  rintro ⟨p, column⟩ hxc hyc
  obtain ⟨d, hd, hdc⟩ := (hx _).1 hxc
  obtain ⟨d', hd', hdc'⟩ := (hy _).1 hyc
  rw [CellRef.closed?_eq_some_iff] at hdc hdc'
  obtain rfl := hdc.trans hdc'.symm
  exact h d hd hd'

private theorem shifted?_down_one (htop : 0 < r.top) (hbottom : r.bottom < twoTo 32) :
    (r.down 1).shifted? (-1) = some r := by
  have hcond : 0 < ((r.top + 1 : Nat) : Int) + -1 ∧
      ((r.bottom + 1 : Nat) : Int) + -1 < twoTo 32 := by
    omega
  simp only [shifted?, down, hcond, and_self, if_true, Option.some.injEq]
  exact eq_of_bounds (by simp only; omega) rfl (by simp only; omega) rfl

theorem closed?_opened (htop : 0 < r.top) (hbottom : r.bottom < twoTo 32) (hsize : 2 ≤ r.size) :
    (r.opened row).closed? row = some r := by
  have hle := r.top_le_bottom
  have hsingle := two_le_size_iff.1 hsize
  unfold opened
  split
  · rw [closed?, if_neg (by simp only [down]; omega), if_pos (by simp only [down]; omega),
      shifted?_down_one htop hbottom]
  · split
    · rw [closed?, if_neg (by dsimp only; omega), if_neg (by dsimp only; omega),
        dif_pos (by dsimp only; omega)]
      simp only [Nat.add_sub_cancel, hsingle, Bool.false_eq_true, if_false]
    · rw [closed?, if_pos (by omega)]

end Range

namespace Sheet
variable {s : Sheet} {row : Nat}

private theorem cells_deleteRow_insertRow (s : Sheet) (row : Nat) :
    ((s.insertRow row).deleteRow row).cells = s.cells := by
  apply Table.ext
  rintro ⟨p, column⟩
  change ((s.insertRow row).deleteRow row).cell? ⟨p, column⟩ = s.cell? ⟨p, column⟩
  simp only [cell?_deleteRow, cell?_insertRow]
  split
  · rfl
  · rw [if_neg (by omega), if_neg (by omega), Nat.add_sub_cancel]

theorem forall₂_opened (hrow : 0 < row) (s : Sheet) :
    List.Forall₂ (Range.OpenedAt row) s.merges (s.insertRow row).merges :=
  List.forall₂_map_right_iff.2 (List.forall₂_same.2 fun m _ => Range.opened_openedAt hrow m)

theorem forall₂_closed (hrow : 0 < row)
    (hms : ∀ m ∈ s.merges, 0 < m.top ∧ m.bottom < twoTo 32 ∧ 2 ≤ m.size) :
    List.Forall₂ (Range.ClosedAt row)
      (s.merges.filter fun m => 1 < (m.cellsOutside row).length) (s.deleteRow row).merges := by
  simp only [deleteRow]
  generalize s.merges = ms at hms
  induction ms with
  | nil => exact .nil
  | cons m ms ih =>
    obtain ⟨⟨-, hbottom, hsize⟩, hms⟩ := List.forall_mem_cons.1 hms
    have hkept := Range.isSome_closed?_iff hrow hbottom hsize
    cases hm : m.closed? row with
    | none =>
      rw [hm] at hkept
      rw [List.filterMap_cons_none hm, List.filter_cons_of_neg (by simpa using hkept)]
      exact ih hms
    | some x =>
      rw [hm] at hkept
      rw [List.filterMap_cons_some hm, List.filter_cons_of_pos (by simpa using hkept)]
      exact .cons (Range.closedAt_of_closed? hrow hbottom hm) (ih hms)

theorem disjoint_insertRow (hrow : 0 < row)
    (h : s.merges.Pairwise fun m m' => m.overlaps m' = false) :
    (s.insertRow row).merges.Pairwise fun m m' => m.overlaps m' = false := by
  apply List.pairwise_map.2
  refine h.imp fun {m m'} hmm' => ?_
  exact (Range.opened_openedAt hrow m).overlaps (Range.opened_openedAt hrow m') hmm'

theorem disjoint_deleteRow (hrow : 0 < row) (hbottom : ∀ m ∈ s.merges, m.bottom < twoTo 32)
    (h : s.merges.Pairwise fun m m' => m.overlaps m' = false) :
    (s.deleteRow row).merges.Pairwise fun m m' => m.overlaps m' = false := by
  apply List.pairwise_filterMap.2
  refine h.imp_of_mem fun {m m'} hm hm' hmm' x hx y hy => ?_
  exact (Range.closedAt_of_closed? hrow (hbottom m hm) hx).overlaps
    (Range.closedAt_of_closed? hrow (hbottom m' hm') hy) hmm'

theorem deleteRow_insertRow
    (hms : ∀ m ∈ s.merges, 0 < m.top ∧ m.bottom < twoTo 32 ∧ 2 ≤ m.size) :
    (s.insertRow row).deleteRow row = s := by
  have hmerges : ((s.insertRow row).deleteRow row).merges = s.merges := by
    simp only [deleteRow, insertRow, List.filterMap_map]
    rw [List.filterMap_congr fun m hm => ?_, List.filterMap_some]
    obtain ⟨htop, hbottom, hsize⟩ := hms m hm
    exact Range.closed?_opened htop hbottom hsize
  calc (s.insertRow row).deleteRow row
      = { s with
          cells := ((s.insertRow row).deleteRow row).cells
          merges := ((s.insertRow row).deleteRow row).merges } := rfl
    _ = s := by rw [cells_deleteRow_insertRow, hmerges]

/-- Opening and removing a row moves every merged region as it moves the cells of the region. -/
theorem rowEdits_moveMerges (s : Sheet) (row : Nat) (hrow : 0 < row)
    (hms : ∀ m ∈ s.merges, 0 < m.top ∧ m.bottom < twoTo 32 ∧ 2 ≤ m.size) : s.MovesMerges row where
  opened := forall₂_opened hrow s
  closed := forall₂_closed hrow hms
  disjoint := fun h =>
    ⟨disjoint_insertRow hrow h, disjoint_deleteRow hrow (fun m hm => (hms m hm).2.1) h⟩
  restored := deleteRow_insertRow hms

/-- Regions that end at the third row, begin at it, lie in it, span it and follow it. -/
def boxes : Sheet :=
  { named "S" with
    merges := [(1, 1, 3, 1), (3, 2, 4, 2), (3, 3, 3, 4), (2, 5, 5, 6), (4, 3, 4, 4)].map
      fun (top, left, bottom, right) => Range.ofCorners ⟨top, left⟩ ⟨bottom, right⟩ }

theorem boxes_moveMerges :
    (∀ m ∈ boxes.merges, 0 < m.top ∧ m.bottom < twoTo 32 ∧ 2 ≤ m.size) ∧ boxes.MovesMerges 3 := by
  have hms : ∀ m ∈ boxes.merges, 0 < m.top ∧ m.bottom < twoTo 32 ∧ 2 ≤ m.size := by decide
  exact ⟨hms, rowEdits_moveMerges boxes 3 (by decide) hms⟩

example : (boxes.deleteRow 3).mergeTexts = ["A1:A2", "E2:F4", "C3:D3"] := by
  decide +kernel

end Sheet

end SheetTemplate
