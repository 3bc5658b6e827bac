import SheetTemplate.Proofs.Fill.Plan
import SheetTemplate.Proofs.Sheet.Merges
/-!
The merged regions after one row is replaced: those that were there, as the removal and the opening
of rows leave them, and a copy in each new row of those that cover the row in the sheet as it was
first.
-/
namespace SheetTemplate

/-- A range that can be a region of a sheet: it is no single cell. -/
structure Range.Region (r : Range) : Prop extends r.Placed where
  isSingle_eq_false : r.isSingle = false

/-- A region that its name adds to a sheet. -/
structure Range.Mergeable (r : Range) : Prop extends r.Region where
  right_le : r.right ≤ 18278

namespace Range
variable {r x : Range}

instance (r : Range) : Decidable r.Region :=
  decidable_of_iff (0 < r.top ∧ 0 < r.left ∧ r.bottom < twoTo 32 ∧ r.isSingle = false)
    ⟨fun ⟨htop, hleft, hbottom, hsingle⟩ => ⟨⟨htop, hleft, hbottom⟩, hsingle⟩, fun h =>
      ⟨h.top_pos, h.left_pos, h.bottom_lt, h.isSingle_eq_false⟩⟩

instance (r : Range) : Decidable r.Mergeable :=
  decidable_of_iff (r.Region ∧ r.right ≤ 18278)
    ⟨fun h => ⟨h.1, h.2⟩, fun h => ⟨h.toRegion, h.right_le⟩⟩

theorem Mergeable.nameable (h : r.Mergeable) : r.Nameable :=
  ⟨h.toPlaced, h.right_le⟩

private theorem Nameable.of_shifted? (h : r.Nameable) {n : Nat}
    (hx : r.shifted? (n : Int) = some x) :
    x.Nameable := by
  obtain ⟨⟨_, hfit⟩, rfl⟩ := shifted?_natCast_eq_some_iff.1 hx
  exact ⟨⟨Nat.add_pos_left h.top_pos n, h.left_pos, hfit⟩, h.right_le⟩

theorem isSingle_down (r : Range) (n : Nat) : (r.down n).isSingle = r.isSingle := by
  rw [Bool.eq_iff_iff, isSingle_iff, isSingle_iff]
  simp only [down, Nat.add_right_cancel_iff]

def copiedFrom (row : Nat) (r : Range) : Bool :=
  r.includesRow row && r.right ≤ 18278

end Range

namespace Sheet
variable {ms : List Range}

/-- Regions whose names are not read back have no copies. -/
theorem mergesOver_text (hms : ∀ m ∈ ms, m.Placed) (row : Nat) :
    mergesOver row (ms.map Range.text) = ms.filter (Range.copiedFrom row) := by
  induction ms with
  | nil => rfl
  | cons m rest ih =>
    obtain ⟨hm, hms'⟩ := List.forall_mem_cons.1 hms
    have hrest := ih hms'
    have hself := Range.ofText?_text hm
    rw [mergesOver] at hrest ⊢
    rw [List.map_cons, List.filter_cons, List.filter_cons]
    simp only [Range.textIncludesRow, Range.copiedFrom, hself]
    by_cases hright : m.right ≤ 18278
    · simp only [hright, if_true, decide_true, Bool.and_true]
      split
      · rw [List.filterMap_cons_some (by rw [hself, if_pos hright])]
        exact congrArg (m :: ·) hrest
      · exact hrest
    · simp only [hright, if_false, decide_false, Bool.and_false]
      exact hrest

section copies
variable (hms : ∀ m ∈ ms, m.Mergeable)
include hms

theorem merges_mergeCopies (s : Sheet) (i : Nat) : (s.mergeCopies ms i).merges =
    (ms.filterMap (·.shifted? i)).foldl pushRange s.merges :=
  merges_foldl_mergeText (fun r hr => by
    obtain ⟨m, hm, hshift⟩ := List.mem_filterMap.1 hr
    exact (hms m hm).nameable.of_shifted? hshift) s

theorem mem_merges_foldl_mergeCopies {x : Range} (s : Sheet) (offsets : List Nat) :
    x ∈ (offsets.foldl (fun s offset => s.mergeCopies ms offset) s).merges ↔
      x ∈ s.merges ∨ ∃ m ∈ ms, ∃ i ∈ offsets, x = m.down i ∧ x.bottom < twoTo 32 := by
  induction offsets generalizing s with
  | nil => simp
  | cons i rest ih =>
    refine (ih (s.mergeCopies ms i)).trans ?_
    rw [merges_mergeCopies hms, mem_foldl_pushRange, or_assoc]
    refine or_congr_right ?_
    simp only [List.mem_filterMap, Range.shifted?_natCast_eq_some_iff, List.mem_cons]
    constructor
    · rintro (⟨⟨m, hm, ⟨_, hfit⟩, rfl⟩, _⟩ | ⟨m, hm, j, hj, hx⟩)
      · exact ⟨m, hm, i, Or.inl rfl, rfl, hfit⟩
      · exact ⟨m, hm, j, Or.inr hj, hx⟩
    · rintro ⟨m, hm, j, rfl | hj, rfl, hfit⟩
      · have hpos := (hms m hm).top_pos
        refine Or.inl ⟨⟨m, hm, ⟨by omega, hfit⟩, rfl⟩, ?_⟩
        rw [Range.isSingle_down, (hms m hm).isSingle_eq_false]
      · exact Or.inr ⟨m, hm, j, hj, rfl, hfit⟩

theorem nodup_merges_foldl_mergeCopies {s : Sheet} (h : s.merges.Nodup) (offsets : List Nat) :
    (offsets.foldl (fun s offset => s.mergeCopies ms offset) s).merges.Nodup := by
  induction offsets generalizing s with
  | nil => exact h
  | cons i rest ih =>
    refine ih ?_
    rw [merges_mergeCopies hms]
    exact nodup_foldl_pushRange h

end copies

section expandRow
variable (hms : ∀ m ∈ ms, m.Region) {data : Data} {s : Sheet} {b : BoundRow} {x : Range}
include hms

private theorem mergeable_of_copiedFrom (row : Nat) :
    ∀ m ∈ ms.filter (Range.copiedFrom row), m.Mergeable := by
  intro m hm
  obtain ⟨hm, hcopied⟩ := List.mem_filter.1 hm
  exact ⟨hms m hm, of_decide_eq_true (Bool.and_eq_true_iff.1 hcopied).2⟩

theorem mem_merges_expandRow : x ∈ (expandRow data (ms.map Range.text) s b).merges ↔
    (∃ m ∈ s.merges, m.replaced? b.directive.row b.items.length = some x) ∨
      ∃ m ∈ ms, (m.includesRow b.directive.row = true ∧ m.right ≤ 18278) ∧
        ∃ i < b.items.length, x = m.down i ∧ x.bottom < twoTo 32 := by
  simp only [expandRow]
  rw [mergesOver_text fun m hm => (hms m hm).toPlaced,
    mem_merges_foldl_mergeCopies (mergeable_of_copiedFrom hms _)]
  simp only [merges_insertRows, deleteRow, List.map_filterMap, List.mem_filterMap,
    List.mem_filter, List.mem_range, Range.copiedFrom, Bool.and_eq_true, decide_eq_true_eq,
    and_assoc]
  rfl

theorem nodup_merges_expandRow
    (h : (s.merges.filterMap (Range.replaced? b.directive.row b.items.length)).Nodup) :
    (expandRow data (ms.map Range.text) s b).merges.Nodup := by
  simp only [expandRow]
  rw [mergesOver_text fun m hm => (hms m hm).toPlaced]
  refine nodup_merges_foldl_mergeCopies (mergeable_of_copiedFrom hms _) ?_ _
  rw [merges_insertRows, deleteRow, List.map_filterMap]
  exact h

end expandRow

end Sheet

end SheetTemplate
