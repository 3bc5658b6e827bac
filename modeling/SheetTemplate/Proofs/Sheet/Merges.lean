import SheetTemplate.Fill.Expansion
import SheetTemplate.Proofs.Grid.Naming
import SheetTemplate.Proofs.Grid.Range
/-!
The merged regions of a sheet while a row is replaced: what becomes of each of them as the row is
removed and others are opened in its place, and which of them are added.
-/
namespace SheetTemplate

namespace Range

def stretched (row n : Nat) (r : Range) : Range :=
  if row ≤ r.top then r.down n
  else if row ≤ r.bottom then
    { r with bottom := r.bottom + n, top_le_bottom := Nat.le_add_right_of_le r.top_le_bottom }
  else r

private theorem stretched_zero (row : Nat) (r : Range) : r.stretched row 0 = r := by
  unfold stretched
  split
  · rfl
  · split <;> rfl

private theorem stretched_opened (row n : Nat) (r : Range) :
    (r.opened row).stretched (row + 1) n = r.stretched row (n + 1) := by
  unfold opened stretched
  by_cases htop : row ≤ r.top
  · simp only [htop, if_true, down, Nat.add_le_add_iff_right]
    exact eq_of_bounds (by simp only; omega) rfl (by simp only; omega) rfl
  · have htop' : ¬ row + 1 ≤ r.top := by omega
    by_cases hbottom : row ≤ r.bottom
    · simp only [htop, htop', hbottom, if_false, if_true, Nat.add_le_add_iff_right]
      exact eq_of_bounds rfl rfl (by simp only; omega) rfl
    · have hbottom' : ¬ row + 1 ≤ r.bottom := by omega
      simp only [htop, htop', hbottom, hbottom', if_false]

/-- The range after a row was removed and `n` rows were opened in its place. -/
def replaced? (row n : Nat) (r : Range) : Option Range :=
  (r.closed? row).map (stretched row n)

variable {r : Range} {row : Nat}

theorem replaced?_of_above (h : r.bottom < row) (n : Nat) : r.replaced? row n = some r := by
  have hle := r.top_le_bottom
  rw [replaced?, closed?, if_pos h, Option.map_some, stretched, if_neg (by omega),
    if_neg (by omega)]

/-- A range below moves as a whole. -/
theorem replaced?_of_below (hrow : 0 < row) (h : row < r.top) (hfit : r.bottom < twoTo 32)
    (n : Nat) : r.replaced? row n = some (r.movedTo (r.top - 1 + n)) := by
  have hle := r.top_le_bottom
  have hdown : (r.movedTo (r.top - 1)).down n = r.movedTo (r.top - 1 + n) :=
    eq_of_bounds rfl rfl (by simp only [movedTo, down]; omega) rfl
  rw [replaced?, closed?, if_neg (by omega), if_pos h, shifted?_neg_one (by omega) hfit,
    Option.map_some, stretched, if_pos (by simp only [movedTo]; omega), hdown]

/-- A range in the row alone goes with it. -/
theorem replaced?_of_height_one (h : r.includesRow row = true) (hone : r.top = r.bottom) (n : Nat) :
    r.replaced? row n = none := by
  have hrow := includesRow_iff.1 h
  rw [replaced?, closed?, if_neg (by omega), if_neg (by omega), dif_neg (by omega),
    Option.map_none]

end Range

namespace Sheet

theorem merges_insertRows (s : Sheet) (row n : Nat) :
    (s.insertRows row n).merges = s.merges.map (Range.stretched row n) := by
  induction n generalizing s row with
  | zero =>
    have hid : Range.stretched row 0 = id := funext (Range.stretched_zero row)
    rw [insertRows, hid, List.map_id]
  | succ n ih =>
    have hcomp : Range.stretched (row + 1) n ∘ Range.opened row = Range.stretched row (n + 1) :=
      funext (Range.stretched_opened row n)
    rw [insertRows, ih, insertRow, List.map_map, hcomp]

section pushRange
variable {ms rs : List Range} {x : Range}

theorem mem_pushRange {r : Range} :
    x ∈ pushRange ms r ↔ x ∈ ms ∨ x = r ∧ r.isSingle = false := by
  unfold pushRange
  split
  · rename_i h
    rcases Bool.or_eq_true _ _ ▸ h with hsingle | hmem
    · simp [hsingle]
    · have : r ∈ ms := List.contains_iff_mem.1 hmem
      constructor
      · exact Or.inl
      · rintro (hx | ⟨rfl, -⟩) <;> assumption
  · rename_i h
    simp only [Bool.or_eq_true, not_or, Bool.not_eq_true] at h
    simp [h.1]

theorem mem_foldl_pushRange :
    x ∈ rs.foldl pushRange ms ↔ x ∈ ms ∨ x ∈ rs ∧ x.isSingle = false := by
  induction rs generalizing ms with
  | nil => simp
  | cons r rest ih =>
    rw [List.foldl_cons, ih, mem_pushRange, List.mem_cons, or_assoc]
    refine or_congr_right ?_
    constructor
    · rintro (⟨rfl, hx⟩ | ⟨hx, hsingle⟩)
      · exact ⟨Or.inl rfl, hx⟩
      · exact ⟨Or.inr hx, hsingle⟩
    · rintro ⟨rfl | hx, hsingle⟩
      · exact Or.inl ⟨rfl, hsingle⟩
      · exact Or.inr ⟨hx, hsingle⟩

theorem nodup_foldl_pushRange (h : ms.Nodup) : (rs.foldl pushRange ms).Nodup := by
  induction rs generalizing ms with
  | nil => exact h
  | cons r rest ih =>
    refine ih ?_
    unfold pushRange
    split
    · exact h
    · rename_i hnew
      simp only [Bool.or_eq_true, List.contains_iff_mem, not_or] at hnew
      exact List.nodup_append.2 ⟨h, List.pairwise_singleton _ r, fun a ha b hb => by
        rw [List.mem_singleton.1 hb]
        rintro rfl
        exact hnew.2 ha⟩

end pushRange

theorem merges_mergeText {r : Range} (h : r.Nameable) (s : Sheet) :
    (s.mergeText r.text).merges = pushRange s.merges r := by
  rw [mergeText, h.ofText?_text]
  rfl

theorem merges_foldl_mergeText {rs : List Range} (h : ∀ r ∈ rs, r.Nameable) (s : Sheet) :
    (rs.foldl (fun s r => s.mergeText r.text) s).merges = rs.foldl pushRange s.merges := by
  induction rs generalizing s with
  | nil => rfl
  | cons r rest ih =>
    rw [List.foldl_cons, List.foldl_cons, ih fun r hr => h r (List.mem_cons_of_mem _ hr),
      merges_mergeText (h r List.mem_cons_self)]

end Sheet

end SheetTemplate
