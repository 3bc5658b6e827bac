import SheetTemplate.Proofs.Fill.MergeLayout
import SheetTemplate.Proofs.Fill.StagedPlan
/-!
The merged regions of a sheet that is filled in stages, if each of them lies in one row: they are
those of one run.
-/
namespace SheetTemplate

namespace Plan
variable {plan next whole : Plan} {row : Nat} {m x : Range}

theorem landing_pos (hzero : plan 0 = none) (hrow : 0 < row) : 0 < plan.landing row := by
  have hle : plan.landing 0 + plan.height 0 ≤ plan.landing row := landing_add_height_le hrow
  simp only [hzero, height_of_none] at hle
  omega

/-- What a plan makes of a region in one row: a region in each row that its row becomes. A region
whose name is not read back is lost with a row that is replaced. -/
def Places (plan : Plan) (m x : Range) : Prop :=
  (plan m.top = none ∨ m.right ≤ 18278) ∧
    ∃ i < plan.height m.top, x = m.inRow (plan.landing m.top + i)

theorem places_iff (hone : m.top = m.bottom) :
    plan.Places m x ↔ plan.Moves m x ∨ m.right ≤ 18278 ∧ plan.Copies m x := by
  have hself : m.includesRow m.top = true := by simp [hone]
  have hrow {row : Nat} (h : m.includesRow row = true) : row = m.top := by
    have := Range.includesRow_iff.1 h
    omega
  have hmoved (top : Nat) : m.movedTo top = m.inRow top :=
    Range.eq_of_bounds rfl rfl (by simp only [Range.movedTo, Range.inRow]; omega) rfl
  cases hplan : plan m.top with
  | none =>
    have hfree : plan.Free m := by
      intro row b hb
      rw [← Bool.not_eq_true]
      intro hcovers
      rw [hrow hcovers, hplan] at hb
      cases hb
    have hcopies : ¬ plan.Copies m x := by
      rintro ⟨row, b, hb, hcovers, -⟩
      rw [hrow hcovers, hplan] at hb
      cases hb
    simp [Places, Moves, hplan, hfree, hcopies, hmoved]
  | some b =>
    have hmoves : ¬ plan.Moves m x := by
      rintro ⟨hfree, -⟩
      rw [hfree m.top b hplan] at hself
      cases hself
    have hcopies : plan.Copies m x ↔
        ∃ i < b.items.length, x = m.inRow (plan.landing m.top + i) := by
      constructor
      · rintro ⟨row, c, hc, hcovers, hx⟩
        obtain rfl := hrow hcovers
        rw [hplan] at hc
        obtain rfl := Option.some.inj hc
        exact hx
      · intro hx
        exact ⟨m.top, b, hplan, hself, hx⟩
    simp [Places, hplan, hmoves, hcopies, height_of_some hplan]

/-- Regions are placed in two steps where they are placed in one. -/
theorem InStages.places_iff (h : InStages plan next whole) :
    (∃ y, plan.Places m y ∧ next.Places y x) ↔ whole.Places m x := by
  have hland := h.landing_landing m.top
  cases hplan : plan m.top with
  | none =>
    have hheight := h.height_of_none hplan
    have hnext : next (plan.landing m.top) = none ↔ whole m.top = none := by
      rw [h.next_of_none m.top hplan, Option.map_eq_none_iff]
    have hzero (i : Nat) : i < plan.height m.top ↔ i = 0 := by
      simp [hplan]
    simp only [Places, hplan, hzero, true_or, true_and]
    constructor
    · rintro ⟨y, ⟨_, rfl, rfl⟩, hkept, i, hi, rfl⟩
      simp only [Range.inRow, Nat.add_zero, hnext, hheight, hland] at hkept hi ⊢
      exact ⟨hkept, i, hi, rfl⟩
    · rintro ⟨hkept, i, hi, rfl⟩
      refine ⟨_, ⟨0, rfl, rfl⟩, ?_⟩
      simp only [Range.inRow, Nat.add_zero, hnext, hheight, hland]
      exact ⟨hkept, i, hi, rfl⟩
  | some b =>
    have hwhole := h.whole_of_some m.top b hplan
    have hcopy {i : Nat} (hi : i < b.items.length) :
        next (plan.landing m.top + i) = none ∧
          next.landing (plan.landing m.top + i) = whole.landing m.top + i :=
      ⟨h.next_of_some m.top b hplan i hi, by rw [h.landing_copy hplan (Nat.le_of_lt hi), hland]⟩
    simp only [Places, hplan, hwhole, height_of_some hplan, height_of_some hwhole]
    constructor
    · rintro ⟨y, ⟨hkept, i, hi, rfl⟩, -, j, hj, rfl⟩
      obtain ⟨hnone, hlanding⟩ := hcopy hi
      simp only [Range.inRow, hlanding, Plan.height_of_none hnone] at hj ⊢
      obtain rfl : j = 0 := by omega
      exact ⟨hkept, i, hi, rfl⟩
    · rintro ⟨hkept, i, hi, rfl⟩
      obtain ⟨hnone, hlanding⟩ := hcopy hi
      refine ⟨_, ⟨hkept, i, hi, rfl⟩, Or.inl hnone, 0, ?_, ?_⟩
      · simp [Range.inRow, hnone]
      · simp only [Range.inRow, hlanding, Nat.add_zero]

end Plan

namespace Sheet
variable {data first second union : Data} {s filled staged : Sheet} {summary : SheetSummary}

/-- Each region is one of several cells in one row. -/
def MergesInRows (s : Sheet) : Prop :=
  ∀ m ∈ s.merges, m.Region ∧ m.top = m.bottom

instance (s : Sheet) : Decidable s.MergesInRows :=
  inferInstanceAs (Decidable (∀ m ∈ s.merges, m.Region ∧ m.top = m.bottom))

def FitsWith (data : Data) (s : Sheet) : Prop :=
  StaysInRange data s.mergeTexts s (s.boundRows data)

instance (data : Data) (s : Sheet) : Decidable (s.FitsWith data) :=
  decidable_of_iff ((∀ b ∈ s.boundRows data, b.directive.row + b.items.length ≤ twoTo 32) ∧
      ∀ done ∈ (s.boundRows data).inits,
        ∀ m ∈ (done.foldl (expandRow data s.mergeTexts) s).merges, m.bottom < twoTo 32)
    (and_congr_right fun _ => forall_congr' fun _ => by rw [List.mem_inits])

theorem mem_merges_expand_iff (h : s.expand data = .ok (summary, filled))
    (hrows : 0 ∉ s.rowNumbers) (hms : s.MergesInRows) (hfit : s.FitsWith data) {x : Range} :
    x ∈ filled.merges ↔ ∃ m ∈ s.merges, (s.plan data).Places m x := by
  have hflat : ∀ m ∈ s.merges, (Plan.ofList (s.boundRows data)).Flat m :=
    fun m hm _ _ _ _ => (hms m hm).2
  have hmem := (merges_foldl_expandRow_of_region (fun m hm => (hms m hm).1)
    (boundRows_descending data s) (boundRows_pos hrows) hflat hflat hfit).1 x
  rw [← merges_expand h, ofList_boundRows] at hmem
  simp only [hmem, Plan.Yields, List.mem_filter, decide_eq_true_eq]
  constructor
  · rintro (⟨m, hm, hx⟩ | ⟨m, ⟨hm, hright⟩, hx⟩)
    · exact ⟨m, hm, (Plan.places_iff (hms m hm).2).2 (Or.inl hx)⟩
    · exact ⟨m, hm, (Plan.places_iff (hms m hm).2).2 (Or.inr ⟨hright, hx⟩)⟩
  · rintro ⟨m, hm, hx⟩
    rcases (Plan.places_iff (hms m hm).2).1 hx with hx | ⟨hright, hx⟩
    · exact Or.inl ⟨m, hm, hx⟩
    · exact Or.inr ⟨m, ⟨hm, hright⟩, hx⟩

theorem landing_pos (data : Data) (hrows : 0 ∉ s.rowNumbers) {row : Nat} (hrow : 0 < row) :
    0 < (s.plan data).landing row := by
  refine Plan.landing_pos ?_ hrow
  by_contra hzero
  obtain ⟨b, hb⟩ := Option.ne_none_iff_exists'.1 hzero
  exact hrows (mem_rowNumbers_of_plan hb)

private theorem zero_not_mem_rowNumbers_expand (h : s.expand data = .ok (summary, filled))
    (hrows : 0 ∉ s.rowNumbers) : 0 ∉ filled.rowNumbers := by
  intro hzero
  obtain ⟨row, hrow, i, -, hp⟩ := (mem_rowNumbers_expand h 0).1 hzero
  have hne : row ≠ 0 := fun heq => hrows (heq ▸ hrow)
  have := landing_pos data hrows (Nat.pos_of_ne_zero hne)
  omega

private theorem mergesInRows_expand (h : s.expand data = .ok (summary, filled))
    (hrows : 0 ∉ s.rowNumbers) (hms : s.MergesInRows) (hfit : s.FitsWith data) :
    filled.MergesInRows := by
  intro x hx
  have hbottom : x.bottom < twoTo 32 := by
    rw [merges_expand h] at hx
    exact hfit.2 (s.boundRows data) (List.prefix_refl _) x hx
  obtain ⟨m, hm, -, i, -, rfl⟩ := (mem_merges_expand_iff h hrows hms hfit).1 hx
  obtain ⟨⟨⟨htop, hleft, -⟩, hsingle⟩, hone⟩ := hms m hm
  refine ⟨⟨⟨?_, hleft, hbottom⟩, ?_⟩, rfl⟩
  · exact Nat.add_pos_left (landing_pos data hrows htop) i
  · rw [← Bool.not_eq_true, Range.isSingle_iff] at hsingle ⊢
    exact fun hcolumns => hsingle ⟨hone, hcolumns.2⟩

/-- The regions after two stages are those after one run. -/
theorem mem_merges_stages_iff {refilled : Sheet} {summary' summary'' : SheetSummary}
    (hstages : Plan.InStages (s.plan first) (staged.plan second) (s.plan union))
    (hwhole : s.expand union = .ok (summary, filled))
    (hfirst : s.expand first = .ok (summary', staged))
    (hsecond : staged.expand second = .ok (summary'', refilled))
    (hrows : 0 ∉ s.rowNumbers) (hms : s.MergesInRows) (hfitWhole : s.FitsWith union)
    (hfitFirst : s.FitsWith first) (hfitSecond : staged.FitsWith second) {x : Range} :
    x ∈ refilled.merges ↔ x ∈ filled.merges := by
  rw [mem_merges_expand_iff hsecond (zero_not_mem_rowNumbers_expand hfirst hrows)
    (mergesInRows_expand hfirst hrows hms hfitFirst) hfitSecond,
    mem_merges_expand_iff hwhole hrows hms hfitWhole]
  simp only [mem_merges_expand_iff hfirst hrows hms hfitFirst, ← hstages.places_iff]
  constructor
  · rintro ⟨y, ⟨m, hm, hy⟩, hx⟩
    exact ⟨m, hm, y, hy, hx⟩
  · rintro ⟨m, hm, y, hy, hx⟩
    exact ⟨y, ⟨m, hm, hy⟩, hx⟩

end Sheet

end SheetTemplate
