import SheetTemplate.Proofs.Sheet.Merges
import SheetTemplate.Proofs.Sheet.Rows
/-!
Sheets after any edits. A sheet is a partial function from places to cells: each edit changes that
function in a way that does not depend on how the cells are kept, and everything that is read from
the sheet is read from that function.
-/
namespace SheetTemplate

/-- An edit of a sheet. -/
inductive Edit where
  | set (reference : String) (value : CellValue)
  | setValue (place : CellRef) (value : CellValue)
  | setPresentation (place : CellRef) (presentation : Presentation)
  | setWidth (column : Nat) (width : Binary64)
  | merge (text : String)
  | insertRow (row : Nat)
  | deleteRow (row : Nat)

def Edit.apply (s : Sheet) : Edit → Sheet
  | set reference value => s.set reference value
  | setValue place value => s.setValue place value
  | setPresentation place presentation => s.setPresentation place presentation
  | setWidth column width => s.setWidth column width
  | merge text => s.mergeText text
  | insertRow row => s.insertRow row
  | deleteRow row => s.deleteRow row

abbrev Cells := CellRef → Option Cell

namespace Cells

def update (F : Cells) (place : CellRef) (f : Cell → Cell) : Cells := fun p =>
  if p = place then some (f ((F place).getD {})) else F p

def insertRow (F : Cells) (row : Nat) : Cells := fun p =>
  if p.row < row then F p else if p.row = row then none else F ⟨p.row - 1, p.column⟩

def deleteRow (F : Cells) (row : Nat) : Cells := fun p =>
  if p.row < row then F p else F ⟨p.row + 1, p.column⟩

/-- The cells after an edit. Widths and merged regions are not among them. -/
def edit (F : Cells) : Edit → Cells
  | .set reference value =>
    match CellRef.ofText? reference with
    | some place => F.update place fun cell => { cell with value }
    | none => F
  | .setValue place value => F.update place fun cell => { cell with value }
  | .setPresentation place presentation => F.update place fun cell => { cell with presentation }
  | .setWidth _ _ => F
  | .merge _ => F
  | .insertRow row => F.insertRow row
  | .deleteRow row => F.deleteRow row

def HasRow (F : Cells) (row : Nat) : Prop :=
  ∃ column, (F ⟨row, column⟩).isSome = true

end Cells

/-- A range as sheets keep it merged: it can be named, as far as columns go, and has two cells. -/
structure Range.Joined (r : Range) : Prop where
  top_pos : 0 < r.top
  top_le_bottom : r.top ≤ r.bottom
  left_pos : 0 < r.left
  left_le_right : r.left ≤ r.right
  right_le : r.right ≤ 18278
  two_le_size : 2 ≤ r.size

/-- What is read from a sheet whose cells are `F`. -/
structure Sheet.Represents (s : Sheet) (F : Cells) : Prop where
  cell?_eq : ∀ place, s.cell? place = F place
  mem_entries : ∀ place cell, (place, cell) ∈ s.cells.entries ↔ F place = some cell
  entries_ascending : s.cells.entries.Pairwise fun e e' =>
    e.1.row < e'.1.row ∨ e.1.row = e'.1.row ∧ e.1.column < e'.1.column
  mem_rowNumbers : ∀ row, row ∈ s.rowNumbers ↔ F.HasRow row
  rowNumbers_ascending : s.rowNumbers.Pairwise (· < ·)
  mem_rowCells : ∀ row column cell, (column, cell) ∈ s.rowCells row ↔ F ⟨row, column⟩ = some cell
  rowCells_ascending : ∀ row, (s.rowCells row).Pairwise fun e e' => e.1 < e'.1
  lastRow_eq : s.lastRow = 0 ∧ (∀ row, ¬ F.HasRow row) ∨
    F.HasRow s.lastRow ∧ ∀ row, F.HasRow row → row ≤ s.lastRow
  joined : ∀ r ∈ s.merges, r.Joined

namespace Sheet

/-! ### Cells -/

/-- Each edit changes the cells as it changes the function that they are. -/
theorem cell?_apply {s : Sheet} {F : Cells} (h : s.cell? = F) (e : Edit) :
    (e.apply s).cell? = F.edit e := by
  have hupdate (place : CellRef) (f : Cell → Cell) :
      (s.update place f).cell? = F.update place f := by
    funext p
    simp [Cells.update, cellOrEmpty, ← h]
  cases e with
  | set reference value =>
    rw [Edit.apply, set, Cells.edit]
    cases CellRef.ofText? reference with
    | none => exact h
    | some place => exact hupdate _ _
  | setValue place value => exact hupdate _ _
  | setPresentation place presentation => exact hupdate _ _
  | setWidth column width => exact h
  | merge text =>
    rw [Edit.apply, mergeText, Cells.edit]
    cases Range.ofText? text <;> exact h
  | insertRow row =>
    funext p
    obtain ⟨r, column⟩ := p
    simp [Edit.apply, Cells.edit, Cells.insertRow, ← h]
  | deleteRow row =>
    funext p
    obtain ⟨r, column⟩ := p
    simp [Edit.apply, Cells.edit, Cells.deleteRow, ← h]

end Sheet

/-! ### Merged regions -/

namespace Range
variable {r x : Range}

theorem two_le_size_iff : 2 ≤ r.size ↔ r.isSingle = false := by
  have htop := r.top_le_bottom
  have hleft := r.left_le_right
  rw [← Bool.not_eq_true, isSingle_iff, size]
  constructor
  · rintro hsize ⟨htop, hleft⟩
    rw [htop, hleft, Nat.sub_self, Nat.sub_self] at hsize
    omega
  · intro h
    by_cases hrows : r.top = r.bottom
    · have hcolumns : 2 ≤ r.right - r.left + 1 := by omega
      exact Nat.le_trans hcolumns (Nat.le_mul_of_pos_left _ (Nat.succ_pos _))
    · have hheight : 2 ≤ r.bottom - r.top + 1 := by omega
      exact Nat.le_trans hheight (Nat.le_mul_of_pos_right _ (Nat.succ_pos _))

theorem joined_of_bounds (htop : 0 < r.top) (hleft : 0 < r.left) (hright : r.right ≤ 18278)
    (hsingle : r.isSingle = false) : r.Joined :=
  ⟨htop, r.top_le_bottom, hleft, r.left_le_right, hright, two_le_size_iff.2 hsingle⟩

theorem Joined.not_single (h : r.Joined) : ¬ (r.top = r.bottom ∧ r.left = r.right) := by
  rw [← isSingle_iff, Bool.not_eq_true]
  exact two_le_size_iff.1 h.two_le_size

theorem Joined.opened (h : r.Joined) (row : Nat) : (r.opened row).Joined := by
  have hle := h.top_le_bottom
  have hsingle := h.not_single
  unfold Range.opened
  split
  · refine joined_of_bounds (Nat.succ_pos _) h.left_pos h.right_le (isSingle_eq_false_iff.2 ?_)
    simp only [down]
    omega
  · split
    · refine joined_of_bounds h.top_pos h.left_pos h.right_le (isSingle_eq_false_iff.2 ?_)
      simp only
      omega
    · exact h

/-- What is left of a merged region after a row is removed is one again. -/
theorem Joined.of_closed? (h : r.Joined) {row : Nat} (hx : r.closed? row = some x) :
    x.Joined := by
  have hsingle := h.not_single
  unfold closed? at hx
  split at hx
  · exact Option.some.inj hx ▸ h
  · split at hx
    · simp only [shifted?, Option.ite_none_right_eq_some] at hx
      obtain ⟨hbounds, hx⟩ := hx
      obtain rfl := Option.some.inj hx
      refine joined_of_bounds ?_ h.left_pos h.right_le (isSingle_eq_false_iff.2 ?_)
      · simp only
        omega
      · simp only
        omega
    · split at hx
      · simp only [Option.ite_none_left_eq_some] at hx
        obtain ⟨hshrunk, hx⟩ := hx
        obtain rfl := Option.some.inj hx
        exact joined_of_bounds h.top_pos h.left_pos h.right_le (Bool.not_eq_true _ ▸ hshrunk)
      · cases hx

end Range

namespace Sheet

/-- Each edit keeps the merged regions as they should be, and adds only such. -/
theorem joined_apply {s : Sheet} (h : ∀ r ∈ s.merges, r.Joined) (e : Edit) :
    ∀ r ∈ (e.apply s).merges, r.Joined := by
  cases e with
  | set reference value =>
    rw [Edit.apply, set]
    cases CellRef.ofText? reference <;> exact h
  | setValue place value => exact h
  | setPresentation place presentation => exact h
  | setWidth column width => exact h
  | merge text =>
    rw [Edit.apply, mergeText]
    cases hrange : Range.ofText? text with
    | none => exact h
    | some range =>
      intro r hr
      rcases mem_pushRange.1 hr with hr | ⟨rfl, hsingle⟩
      · exact h r hr
      · obtain ⟨hplaced, hright⟩ := Range.nameable_of_ofText? hrange
        exact Range.joined_of_bounds hplaced.top_pos hplaced.left_pos hright hsingle
  | insertRow row =>
    intro x hx
    obtain ⟨r, hr, rfl⟩ := List.mem_map.1 hx
    exact (h r hr).opened row
  | deleteRow row =>
    intro x hx
    obtain ⟨r, hr, hclosed⟩ := List.mem_filterMap.1 hx
    exact (h r hr).of_closed? hclosed

/-! ### Runs of edits -/

private theorem cell?_foldl_apply {s : Sheet} {F : Cells} (h : s.cell? = F) (edits : List Edit) :
    (edits.foldl Edit.apply s).cell? = edits.foldl Cells.edit F := by
  induction edits generalizing s F with
  | nil => exact h
  | cons e edits ih => exact ih (cell?_apply h e)

private theorem joined_foldl_apply {s : Sheet} (h : ∀ r ∈ s.merges, r.Joined) (edits : List Edit) :
    ∀ r ∈ (edits.foldl Edit.apply s).merges, r.Joined := by
  induction edits generalizing s with
  | nil => exact h
  | cons e edits ih => exact ih (joined_apply h e)

theorem mem_rowNumbers_iff_hasRow (s : Sheet) (row : Nat) :
    row ∈ s.rowNumbers ↔ Cells.HasRow s.cell? row := by
  simp only [mem_rowNumbers, Cells.HasRow, Option.isSome_iff_exists]

/-- The last row is the greatest one that has a cell. -/
theorem lastRow_eq_zero_or (s : Sheet) :
    s.lastRow = 0 ∧ (∀ row, ¬ Cells.HasRow s.cell? row) ∨
      Cells.HasRow s.cell? s.lastRow ∧ ∀ row, Cells.HasRow s.cell? row → row ≤ s.lastRow := by
  simp only [← mem_rowNumbers_iff_hasRow]
  rcases List.eq_nil_or_concat s.rowNumbers with hnil | ⟨rows, last, hrows⟩
  · left
    simp [lastRow, hnil]
  · right
    have hlast : s.lastRow = last := by simp [lastRow, hrows]
    have hascending := s.rowNumbers_ascending
    rw [hrows, List.concat_eq_append, List.pairwise_append] at hascending
    simp only [hlast, hrows, List.concat_eq_append, List.mem_append, List.mem_singleton]
    refine ⟨Or.inr trivial, ?_⟩
    rintro row (hrow | rfl)
    · exact Nat.le_of_lt (hascending.2.2 row hrow last (List.mem_singleton_self last))
    · exact Nat.le_refl _

/-- A sheet represents its own cells. -/
theorem represents_cell? {s : Sheet} (h : ∀ r ∈ s.merges, r.Joined) : s.Represents s.cell? where
  cell?_eq := fun _ => rfl
  mem_entries := fun _ _ => Table.find?_eq_some_iff.symm
  entries_ascending := s.cells.sorted.imp CellRef.compare_eq_lt.1
  mem_rowNumbers := s.mem_rowNumbers_iff_hasRow
  rowNumbers_ascending := s.rowNumbers_ascending
  mem_rowCells := fun _ _ _ => mem_rowCells
  rowCells_ascending := fun row => (s.rowCells_ascending row).imp Nat.compare_eq_lt.1
  lastRow_eq := s.lastRow_eq_zero_or
  joined := h

/-- After any edits of an empty sheet, it represents the cells that the edits make of none. -/
theorem edited_represents (name : String) (edits : List Edit) :
    (edits.foldl Edit.apply (named name)).Represents (edits.foldl Cells.edit fun _ => none) := by
  have hmerges := joined_foldl_apply (s := named name) (by intro r hr; cases hr) edits
  have hcells : (edits.foldl Edit.apply (named name)).cell? =
      edits.foldl Cells.edit fun _ => none := cell?_foldl_apply rfl edits
  rw [← hcells]
  exact represents_cell? hmerges

end Sheet

end SheetTemplate
