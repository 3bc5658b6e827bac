import SheetTemplate.Proofs.Grid.Table
import SheetTemplate.Sheet.RowEdit
/-!
Sheets row by row: which rows hold cells, what the cells of a row are, and where cells go when a
row is opened or removed.
-/
namespace SheetTemplate

private theorem eraseRepsBy_loop (a : Nat) (l done : List Nat) :
    List.eraseRepsBy.loop (· == ·) a l done =
      done.reverse ++ List.eraseRepsBy.loop (· == ·) a l [] := by
  induction l generalizing a done with
  | nil => simp [List.eraseRepsBy.loop]
  | cons b l ih =>
    simp only [List.eraseRepsBy.loop]
    split
    · exact ih a done
    · rw [ih b (a :: done), ih b [a]]
      simp

private theorem eraseReps_cons_cons (a b : Nat) (l : List Nat) :
    (a :: b :: l).eraseReps = if a = b then (a :: l).eraseReps else a :: (b :: l).eraseReps := by
  simp only [List.eraseReps, List.eraseRepsBy, List.eraseRepsBy.loop]
  by_cases h : a = b
  · simp [h]
  · rw [if_neg h, beq_eq_false_iff_ne.2 h]
    exact eraseRepsBy_loop b l [a]

private theorem mem_eraseReps (l : List Nat) (n : Nat) : n ∈ l.eraseReps ↔ n ∈ l := by
  match l with
  | [] => exact Iff.rfl
  | [a] => exact Iff.rfl
  | a :: b :: l =>
    rw [eraseReps_cons_cons]
    by_cases h : a = b
    · rw [if_pos h, mem_eraseReps (a :: l)]
      simp [h]
    · rw [if_neg h, List.mem_cons, List.mem_cons, mem_eraseReps (b :: l)]
termination_by l.length

private theorem eraseReps_ascending (l : List Nat) (h : l.Pairwise (· ≤ ·)) :
    l.eraseReps.Pairwise (· < ·) := by
  match l with
  | [] => exact .nil
  | [a] => exact List.pairwise_singleton _ _
  | a :: b :: l =>
    rw [eraseReps_cons_cons]
    have ha := List.pairwise_cons.1 h
    by_cases hab : a = b
    · subst hab
      rw [if_pos rfl]
      exact eraseReps_ascending (a :: l) ha.2
    · rw [if_neg hab]
      refine List.pairwise_cons.2 ⟨fun n hn => ?_, eraseReps_ascending (b :: l) ha.2⟩
      have hb := (List.pairwise_cons.1 ha.2).1
      have hle := ha.1 b List.mem_cons_self
      rcases List.mem_cons.1 ((mem_eraseReps _ _).1 hn) with rfl | hn
      · omega
      · have := hb n hn
        omega
termination_by l.length

namespace CellRef

theorem opened_eq_iff {row p column : Nat} {c : CellRef} :
    c.opened row = ⟨p, column⟩ ↔
      p < row ∧ c = ⟨p, column⟩ ∨ row < p ∧ c = ⟨p - 1, column⟩ := by
  obtain ⟨r, k⟩ := c
  simp only [opened]
  split <;> simp only [mk.injEq] <;> omega

theorem closed?_eq_some_iff {row p column : Nat} {c : CellRef} :
    c.closed? row = some ⟨p, column⟩ ↔
      c = if p < row then ⟨p, column⟩ else ⟨p + 1, column⟩ := by
  obtain ⟨r, k⟩ := c
  simp only [closed?]
  split
  · split <;> simp only [mk.injEq, reduceCtorEq, false_iff] <;> omega
  · split <;> split <;> simp only [mk.injEq, Option.some.injEq] <;> omega

end CellRef

namespace Sheet

theorem mem_rowNumbers {s : Sheet} {row : Nat} :
    row ∈ s.rowNumbers ↔ ∃ column cell, s.cell? ⟨row, column⟩ = some cell := by
  rw [rowNumbers, mem_eraseReps, List.mem_map]
  constructor
  · rintro ⟨⟨r, column⟩, hm, rfl⟩
    obtain ⟨cell, hc⟩ := Table.mem_keys_iff.1 hm
    exact ⟨column, cell, hc⟩
  · rintro ⟨column, cell, hc⟩
    exact ⟨⟨row, column⟩, Table.mem_keys_iff.2 ⟨cell, hc⟩, rfl⟩

theorem rowNumbers_ascending (s : Sheet) : s.rowNumbers.Pairwise (· < ·) := by
  refine eraseReps_ascending _ (List.pairwise_map.2 (s.cells.keys_sorted.imp ?_))
  intro a b h
  rcases CellRef.compare_eq_lt.1 h with h | h <;> omega

/-- Sheets with the same cells have the same rows. -/
theorem rowNumbers_congr {s t : Sheet}
    (h : ∀ place, (s.cell? place).isSome = (t.cell? place).isSome) :
    s.rowNumbers = t.rowNumbers := by
  have hmem (row : Nat) : row ∈ s.rowNumbers ↔ row ∈ t.rowNumbers := by
    simp only [mem_rowNumbers, ← Option.isSome_iff_exists, h]
  refine List.Perm.eq_of_pairwise (fun a b _ _ (hab : a < b) (hba : b < a) => ?_)
    s.rowNumbers_ascending t.rowNumbers_ascending
    ((List.perm_ext_iff_of_nodup ?_ ?_).2 hmem)
  · omega
  · exact s.rowNumbers_ascending.imp fun h => Nat.ne_of_lt h
  · exact t.rowNumbers_ascending.imp fun h => Nat.ne_of_lt h

@[simp] theorem mem_rowCells {s : Sheet} {row column : Nat} {cell : Cell} :
    (column, cell) ∈ s.rowCells row ↔ s.cell? ⟨row, column⟩ = some cell := by
  simp only [rowCells, List.mem_map, List.mem_filter, decide_eq_true_eq, cell?,
    Table.find?_eq_some_iff]
  constructor
  · rintro ⟨⟨⟨r, k⟩, v⟩, ⟨hm, rfl⟩, h⟩
    obtain ⟨rfl, rfl⟩ := Prod.mk.inj h
    exact hm
  · intro hm
    exact ⟨(⟨row, column⟩, cell), ⟨hm, rfl⟩, rfl⟩

theorem rowCells_ascending (s : Sheet) (row : Nat) :
    (s.rowCells row).Pairwise fun a b => compare a.1 b.1 = .lt := by
  refine List.pairwise_map.2 ((s.cells.sorted.filter _).imp_of_mem ?_)
  intro a b ha hb h
  have ha' : a.1.row = row := of_decide_eq_true (List.mem_filter.1 ha).2
  have hb' : b.1.row = row := of_decide_eq_true (List.mem_filter.1 hb).2
  rcases CellRef.compare_eq_lt.1 h with h | h
  · omega
  · exact Nat.compare_eq_lt.2 h.2

@[simp] theorem lookup_rowCells (s : Sheet) (row column : Nat) :
    Table.lookup column (s.rowCells row) = s.cell? ⟨row, column⟩ := by
  apply Option.ext
  intro cell
  rw [Table.lookup_eq_some_iff (s.rowCells_ascending row), mem_rowCells]

@[simp] theorem cell?_update (s : Sheet) (place p : CellRef) (change : Cell → Cell) :
    (s.update place change).cell? p =
      if p = place then some (change (s.cellOrEmpty place)) else s.cell? p := by
  simp [cell?, update]

@[simp] theorem cell?_insertRow (s : Sheet) (row p column : Nat) :
    (s.insertRow row).cell? ⟨p, column⟩ =
      if p < row then s.cell? ⟨p, column⟩
      else if p = row then none else s.cell? ⟨p - 1, column⟩ := by
  apply Option.ext
  intro cell
  simp only [cell?, insertRow, Table.find?_mapKeys?_eq_some_iff, Option.some.injEq,
    CellRef.opened_eq_iff]
  constructor
  · rintro ⟨k, ⟨hp, rfl⟩ | ⟨hp, rfl⟩, hc⟩
    · rw [if_pos hp]
      exact hc
    · rw [if_neg (by omega), if_neg (by omega)]
      exact hc
  · intro hc
    split at hc
    · rename_i hp
      exact ⟨_, Or.inl ⟨hp, rfl⟩, hc⟩
    · split at hc
      · cases hc
      · exact ⟨_, Or.inr ⟨by omega, rfl⟩, hc⟩

@[simp] theorem cell?_deleteRow (s : Sheet) (row p column : Nat) :
    (s.deleteRow row).cell? ⟨p, column⟩ =
      if p < row then s.cell? ⟨p, column⟩ else s.cell? ⟨p + 1, column⟩ := by
  apply Option.ext
  intro cell
  simp only [cell?, deleteRow, Table.find?_mapKeys?_eq_some_iff, CellRef.closed?_eq_some_iff]
  split <;> simp

end Sheet

end SheetTemplate
