import SheetTemplate.Proofs.Fill.InPlace
import SheetTemplate.Proofs.Fill.Layout
/-!
Sheets of which every replaced row becomes one row. Cells keep their places and presentations;
merged regions stay the same exactly if none that begins or ends in a replaced row leaves a smaller
one beside it, or has a name that is not read back.
-/
namespace SheetTemplate

/-- Two sheets have the same rows, cells in the same places with the same presentations, and the
same merged regions. -/
structure SameGeometry (s filled : Sheet) : Prop where
  rows : filled.rowNumbers = s.rowNumbers
  cells : ∀ place, (filled.cell? place).map Cell.presentation =
    (s.cell? place).map Cell.presentation
  regions : ∀ x, x ∈ filled.merges ↔ x ∈ s.merges

namespace Plan

private theorem landing_of_height_one {plan : Plan} (h : ∀ row, plan.height row = 1) (row : Nat) :
    plan.landing row = row := by
  induction row with
  | zero => rfl
  | succ row ih => simp [ih, h]

private theorem presentation_copyCell (plan : Plan) (data : Data) (row i : Nat) (cell : Cell) :
    (plan.copyCell data row i cell).presentation = cell.presentation := by
  unfold copyCell
  split
  · rfl
  · split <;> rfl

end Plan

namespace Sheet
variable {data : Data} {ms : List Range} {b : BoundRow} {bound rest : List BoundRow} {m x : Range}

section run
variable (hms : ∀ m ∈ ms, m.Region)
include hms

theorem mem_merges_expandRow_one {s : Sheet} (hone : b.items.length = 1) :
    x ∈ (expandRow data (ms.map Range.text) s b).merges ↔
      (∃ m ∈ s.merges, m.replaced? b.directive.row 1 = some x) ∨
        x ∈ ms ∧ x.includesRow b.directive.row = true ∧ x.right ≤ 18278 := by
  rw [mem_merges_expandRow hms, hone]
  refine or_congr_right ⟨?_, fun ⟨hx, hcopied⟩ =>
    ⟨x, hx, hcopied, 0, Nat.one_pos, rfl, (hms x hx).bottom_lt⟩⟩
  rintro ⟨m, hm, hcopied, i, hi, rfl, -⟩
  obtain rfl : i = 0 := by omega
  exact ⟨hm, hcopied⟩

/-- A region of the sheet as it was first stays if it is copied or its ends are not replaced. -/
theorem mem_expandRow_one {s : Sheet} (hrow : 0 < b.directive.row) (hone : b.items.length = 1)
    (hm : m ∈ ms) (hmem : m ∈ s.merges)
    (hkept : m.right ≤ 18278 ∨ b.directive.row ≠ m.top ∧ b.directive.row ≠ m.bottom) :
    m ∈ (expandRow data (ms.map Range.text) s b).merges := by
  rw [mem_merges_expandRow_one hms hone]
  by_cases hends : b.directive.row ≠ m.top ∧ b.directive.row ≠ m.bottom
  · exact Or.inl ⟨m, hmem, Range.replaced?_one_of_ne hrow hends.1 hends.2 (hms m hm).bottom_lt⟩
  · have hle := m.top_le_bottom
    have hcovers : m.includesRow b.directive.row = true := by
      rw [Range.includesRow_iff]
      omega
    exact Or.inr ⟨hm, hcovers, hkept.resolve_right hends⟩

/-- If all regions survive, then a run leaves the regions as they were. -/
theorem mem_foldl_expandRow_of_survives (hdesc : Plan.Descending bound)
    (hpos : ∀ b ∈ bound, 0 < b.directive.row) (hone : ∀ b ∈ bound, b.items.length = 1)
    (hsurvives : ∀ m ∈ ms, (Plan.ofList bound).Survives m) {s : Sheet}
    (hkeep : ∀ m ∈ ms, m ∈ s.merges)
    (hrests : ∀ x ∈ s.merges, x ∈ ms ∨ x.bottom < twoTo 32 ∧ (Plan.ofList bound).Fading x)
    (x : Range) : x ∈ (bound.foldl (expandRow data (ms.map Range.text)) s).merges ↔ x ∈ ms := by
  induction bound generalizing s with
  | nil =>
    refine ⟨fun hx => (hrests x hx).resolve_right fun ⟨_, hfading⟩ => ?_, hkeep x⟩
    exact Plan.not_replaces_nil (hfading.2.2 x.bottom hfading.2.1 (Nat.le_refl _))
  | cons b rest ih =>
    obtain ⟨hrow, hpos'⟩ := List.forall_mem_cons.1 hpos
    obtain ⟨hself, hone'⟩ := List.forall_mem_cons.1 hone
    refine ih (List.pairwise_cons.1 hdesc).2 hpos' hone'
      (fun m hm => Plan.survives_rest hdesc (hsurvives m hm)) (fun m hm => ?_) fun y hy => ?_
    · refine mem_expandRow_one hms hrow hself hm (hkeep m hm) ?_
      rcases hsurvives m hm with ⟨hright, -⟩ | ⟨htop, hbottom⟩
      · exact Or.inl hright
      · exact Or.inr ⟨fun heq => htop (Plan.replaces_cons_iff.2 (Or.inl heq.symm)),
          fun heq => hbottom (Plan.replaces_cons_iff.2 (Or.inl heq.symm))⟩
    · rcases (mem_merges_expandRow_one hms hself).1 hy with ⟨m, hm, hstep⟩ | ⟨hy, -⟩
      · rcases hrests m hm with hm | ⟨hfit, hfading⟩
        · have hfit := (hms m hm).bottom_lt
          have hle := (Range.within_of_replaced?_one hrow hfit hstep).bottom_le
          rcases (hsurvives m hm).traceless.step hrow hfit hstep with rfl | hfading
          · exact Or.inl hm
          · exact Or.inr ⟨Nat.lt_of_le_of_lt hle hfit, hfading⟩
        · have hle := (Range.within_of_replaced?_one hrow hfit hstep).bottom_le
          exact Or.inr ⟨Nat.lt_of_le_of_lt hle hfit, hfading.step hdesc hrow hfit hstep⟩
      · exact Or.inl hy

/-- What stays is there after the run, perhaps smaller. -/
theorem exists_rest_of_stays (hpos : ∀ b ∈ bound, 0 < b.directive.row)
    (hone : ∀ b ∈ bound, b.items.length = 1) (hfit : x.bottom < twoTo 32) {s : Sheet}
    (hx : x ∈ s.merges) (hstays : (Plan.ofList bound).Stays x) :
    ∃ y ∈ (bound.foldl (expandRow data (ms.map Range.text)) s).merges, y.Within x := by
  induction bound generalizing s x with
  | nil => exact ⟨x, hx, .refl x⟩
  | cons b rest ih =>
    obtain ⟨hrow, hpos'⟩ := List.forall_mem_cons.1 hpos
    obtain ⟨hself, hone'⟩ := List.forall_mem_cons.1 hone
    obtain ⟨y, hstep, hrest, hwithin⟩ := hstays.step hrow hfit
    obtain ⟨z, hz, hwithin'⟩ := ih hpos' hone' (Nat.lt_of_le_of_lt hwithin.bottom_le hfit)
      ((mem_merges_expandRow_one hms hself).2 (Or.inl ⟨x, hx, hstep⟩)) hrest
    exact ⟨z, hz, hwithin'.trans hwithin⟩

/-- A region that is not traceless leaves a smaller one. -/
theorem exists_rest_of_not_traceless (hdesc : Plan.Descending bound)
    (hpos : ∀ b ∈ bound, 0 < b.directive.row) (hone : ∀ b ∈ bound, b.items.length = 1)
    (hm : m ∈ ms) (hright : m.right ≤ 18278) (hnot : ¬ (Plan.ofList bound).Traceless m) {s : Sheet}
    (hmem : m ∈ s.merges) :
    ∃ y ∈ (bound.foldl (expandRow data (ms.map Range.text)) s).merges, y.Within m ∧ y ≠ m := by
  induction bound generalizing s with
  | nil =>
    exact absurd (fun _ => ⟨fun hrow => absurd hrow Plan.not_replaces_nil,
      fun hrow => absurd hrow Plan.not_replaces_nil⟩) hnot
  | cons b rest ih =>
    obtain ⟨hrow, hpos'⟩ := List.forall_mem_cons.1 hpos
    obtain ⟨hself, hone'⟩ := List.forall_mem_cons.1 hone
    rcases Plan.stays_or_not_traceless hdesc hnot with ⟨y, hstep, hstays, hwithin, hne⟩ | hrest
    · have hfit := Nat.lt_of_le_of_lt hwithin.bottom_le (hms m hm).bottom_lt
      obtain ⟨z, hz, hwithin'⟩ := exists_rest_of_stays hms hpos' hone' hfit
        ((mem_merges_expandRow_one hms hself).2 (Or.inl ⟨m, hmem, hstep⟩)) hstays
      refine ⟨z, hz, hwithin'.trans hwithin, ?_⟩
      rintro rfl
      exact hne (hwithin.antisymm hwithin')
    · exact ih (List.pairwise_cons.1 hdesc).2 hpos' hone' hrest
        (mem_expandRow_one hms hrow hself hm hmem (Or.inl hright))

/-- A region whose name is not read back is lost when an end of it is replaced, for what is left of
others is no region that was there. -/
theorem not_mem_foldl_expandRow (hdisjoint : ms.Pairwise fun m m' => m.overlaps m' = false)
    (hpos : ∀ b ∈ bound, 0 < b.directive.row) (hone : ∀ b ∈ bound, b.items.length = 1)
    (hm : m ∈ ms) (hright : ¬ m.right ≤ 18278) {s : Sheet}
    (hwithin : ∀ x ∈ s.merges, ∃ m ∈ ms, x.Within m)
    (hlost : m ∉ s.merges ∨ (Plan.ofList bound).Replaces m.top ∨
      (Plan.ofList bound).Replaces m.bottom) :
    m ∉ (bound.foldl (expandRow data (ms.map Range.text)) s).merges := by
  induction bound generalizing s with
  | nil =>
    rcases hlost with hlost | hrow | hrow
    · exact hlost
    · exact absurd hrow Plan.not_replaces_nil
    · exact absurd hrow Plan.not_replaces_nil
  | cons b rest ih =>
    obtain ⟨hrow, hpos'⟩ := List.forall_mem_cons.1 hpos
    obtain ⟨hself, hone'⟩ := List.forall_mem_cons.1 hone
    have hstep {x y : Range} (hx : x ∈ s.merges) (hy : x.replaced? b.directive.row 1 = some y) :
        ∃ r ∈ ms, x.Within r ∧ y.Within x := by
      obtain ⟨r, hr, hxr⟩ := hwithin x hx
      have hfit := Nat.lt_of_le_of_lt hxr.bottom_le (hms r hr).bottom_lt
      exact ⟨r, hr, hxr, Range.within_of_replaced?_one hrow hfit hy⟩
    refine ih hpos' hone' (fun y hy => ?_) ?_
    · rcases (mem_merges_expandRow_one hms hself).1 hy with ⟨x, hx, hstep'⟩ | ⟨hy, -⟩
      · obtain ⟨r, hr, hxr, hyx⟩ := hstep hx hstep'
        exact ⟨r, hr, hyx.trans hxr⟩
      · exact ⟨y, hy, .refl y⟩
    · refine Classical.or_iff_not_imp_left.2 fun hmem => ?_
      rcases (mem_merges_expandRow_one hms hself).1 (Classical.not_not.1 hmem) with
        ⟨x, hx, hstep'⟩ | ⟨-, -, hle⟩
      · obtain ⟨r, hr, hxr, hmx⟩ := hstep hx hstep'
        obtain rfl : r = m := by
          by_contra hne
          have hout := hdisjoint.forall hr hm hne
          rw [(hmx.trans hxr).overlaps] at hout
          cases hout
        obtain rfl := hmx.antisymm hxr
        obtain ⟨htop, hbottom⟩ :=
          Range.ne_ends_of_replaced?_one hrow (hms r hm).bottom_lt hstep'
        rcases hlost with hlost | hlost | hlost
        · exact absurd hx hlost
        · exact Or.inl ((Plan.replaces_cons_iff.1 hlost).resolve_left (Ne.symm htop))
        · exact Or.inr ((Plan.replaces_cons_iff.1 hlost).resolve_left (Ne.symm hbottom))
      · exact absurd hle hright

end run

variable {s filled : Sheet} {summary : SheetSummary}

theorem presentations_of_one (h : s.expand data = .ok (summary, filled))
    (hone : ∀ row b, s.plan data row = some b → b.items.length = 1) (place : CellRef) :
    (filled.cell? place).map Cell.presentation = (s.cell? place).map Cell.presentation := by
  obtain ⟨row, column⟩ := place
  have hheight (row : Nat) : (s.plan data).height row = 1 := by
    cases hplan : s.plan data row with
    | none => simp [hplan]
    | some b => rw [Plan.height_of_some hplan, hone row b hplan]
  have hcell := cell?_expand h (show 0 < (s.plan data).height row by rw [hheight]; omega) column
  rw [Plan.landing_of_height_one hheight, Nat.add_zero] at hcell
  rw [hcell, Option.map_map]
  congr 1
  funext cell
  exact (s.plan data).presentation_copyCell data row 0 cell

/-- If each replaced row becomes one row, then a sheet keeps its geometry exactly if each of its
regions survives. -/
theorem expand_sameGeometry_iff (h : s.expand data = .ok (summary, filled))
    (hrows : 0 ∉ s.rowNumbers) (hms : ∀ m ∈ s.merges, m.Region)
    (hdisjoint : s.merges.Pairwise fun m m' => m.overlaps m' = false)
    (hone : ∀ row b, s.plan data row = some b → b.items.length = 1) :
    SameGeometry s filled ↔ ∀ m ∈ s.merges, (s.plan data).Survives m := by
  have hdesc := boundRows_descending data s
  have hpos : ∀ b ∈ s.boundRows data, 0 < b.directive.row := boundRows_pos hrows
  have hone' : ∀ b ∈ s.boundRows data, b.items.length = 1 := forall_mem_boundRows.2 hone
  rw [← ofList_boundRows]
  constructor
  · intro hsame m hm
    by_cases hright : m.right ≤ 18278
    · refine Or.inl ⟨hright, ?_⟩
      by_contra hnot
      obtain ⟨x, hx, hwithin, hne⟩ :=
        exists_rest_of_not_traceless hms hdesc hpos hone' hm hright hnot hm
      rw [← merges_expand h, hsame.regions] at hx
      -- Both are regions of the sheet as it was, but they overlap.
      have hout := hdisjoint.forall hm hx (Ne.symm hne)
      rw [hwithin.overlaps] at hout
      cases hout
    · refine Or.inr (not_or.1 fun hends => ?_)
      have hkept := (hsame.regions m).2 hm
      rw [merges_expand h] at hkept
      exact not_mem_foldl_expandRow hms hdisjoint hpos hone' hm hright
        (fun x hx => ⟨x, hx, .refl x⟩) (Or.inr hends) hkept
  · intro hsurvives
    have hcells := presentations_of_one h hone
    refine ⟨rowNumbers_congr fun place => ?_, hcells, fun x => ?_⟩
    · rw [← Option.isSome_map (f := Cell.presentation), hcells, Option.isSome_map]
    rw [merges_expand h]
    exact mem_foldl_expandRow_of_survives hms hdesc hpos hone' hsurvives (fun m hm => hm)
      (fun x hx => Or.inl hx) x

/-- A row that repeats, and the first row of a region of one column or of two. -/
def boxed (right : Nat) : Sheet :=
  ((named "S").setValue ⟨2, 1⟩ (.text "[[a]]")).merge (.ofCorners ⟨2, 1⟩ ⟨3, right⟩)

def boxedData : Data := .record [("a", .list [.null])]

theorem boxed_sameGeometry_iff : ∃ summary filled,
    (boxed 1).expand boxedData = .ok (summary, filled) ∧
      filled.mergeTexts = ["A2:A3"] ∧
      (SameGeometry (boxed 1) filled ↔
        ∀ m ∈ (boxed 1).merges, ((boxed 1).plan boxedData).Survives m) := by
  exact exists_expand_of_map (by decide +kernel) fun _ _ h _ =>
    expand_sameGeometry_iff h (by decide +kernel) (by decide +kernel) (by decide +kernel)
      (forall_mem_boundRows.1 (by decide +kernel))

/-- The region of two columns leaves its last row beside it. -/
theorem boxed_not_sameGeometry : ∃ summary filled,
    (boxed 2).expand boxedData = .ok (summary, filled) ∧
      filled.merges = [.ofCorners ⟨3, 1⟩ ⟨3, 2⟩, .ofCorners ⟨2, 1⟩ ⟨3, 2⟩] ∧
      0 ∉ (boxed 2).rowNumbers ∧
      (∀ m ∈ (boxed 2).merges, m.Mergeable) ∧
      ((boxed 2).merges.Pairwise fun m m' => m.overlaps m' = false) ∧
      (∀ row b, (boxed 2).plan boxedData row = some b → b.items.length = 1) ∧
      ¬ SameGeometry (boxed 2) filled := by
  refine exists_expand_of_map (by decide +kernel) fun _ _ _ hmerges =>
    ⟨by decide +kernel, by decide +kernel, by decide +kernel,
      forall_mem_boundRows.1 (by decide +kernel), fun hsame => ?_⟩
  have hleft := (hsame.regions (.ofCorners ⟨3, 1⟩ ⟨3, 2⟩)).1
    (by rw [hmerges]; exact List.mem_cons_self)
  revert hleft
  decide +kernel

end Sheet

end SheetTemplate
