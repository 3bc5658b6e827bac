import SheetTemplate.Proofs.Fill.MergeCopies
import SheetTemplate.Proofs.Fill.MergePlan
import SheetTemplate.Proofs.Fill.Success
/-!
The merged regions of a filled sheet. If each region that covers a replaced row lies in that row
alone, then the regions are those that the plan makes of them, and they do not overlap.
-/
namespace SheetTemplate

/-- While rows are replaced, no row of a copy and no row of a region lies outside 32 bits. -/
def Sheet.StaysInRange (data : Data) (merges : List String) (s : Sheet)
    (bound : List BoundRow) : Prop :=
  (∀ b ∈ bound, b.directive.row + b.items.length ≤ twoTo 32) ∧
    ∀ done, done <+: bound →
      ∀ m ∈ (done.foldl (expandRow data merges) s).merges, m.bottom < twoTo 32

/-- The merged regions of a filled sheet in terms of those of the sheet it was filled from. -/
structure MergeLayout (data : Data) (s filled : Sheet) : Prop where
  /-- A region that covers no replaced row moves as a whole, one in a replaced row has a copy in
  each row of the block, and there are no others. -/
  regions : ∀ x, x ∈ filled.merges ↔ (∃ m ∈ s.merges, (s.plan data).Moves m x) ∨
    ∃ m ∈ s.merges, (s.plan data).Copies m x
  disjoint : filled.merges.Pairwise fun x y => x.overlaps y = false
  nodup : filled.merges.Nodup

namespace Sheet
variable {data : Data} {b : BoundRow} {rest : List BoundRow} {m x : Range}

/-- A range in one row is left as the plan has it when that row is replaced. -/
theorem replaced?_eq_some_iff_moves (hrow : 0 < b.directive.row)
    (hflat : m.includesRow b.directive.row = true → m.top = m.bottom)
    (hfit : m.bottom < twoTo 32) :
    m.replaced? b.directive.row b.items.length = some x ↔ (Plan.ofList [b]).Moves m x := by
  have hle := m.top_le_bottom
  rw [Plan.Moves, Plan.free_singleton_iff]
  cases hcovers : m.includesRow b.directive.row with
  | true =>
    rw [Range.replaced?_of_height_one hcovers (hflat hcovers)]
    simp
  | false =>
    rw [Range.includesRow_eq_false_iff] at hcovers
    by_cases hbelow : b.directive.row < m.top
    · rw [Range.replaced?_of_below hrow hbelow hfit, Plan.landing_singleton_of_lt hbelow,
        Option.some.injEq, eq_comm, and_iff_right rfl]
    · rw [Range.replaced?_of_above (by omega), Plan.landing_singleton_of_le (by omega),
        Range.movedTo_top, Option.some.injEq, eq_comm, and_iff_right rfl]

private theorem staysInRange_rest {merges : List String} {s : Sheet}
    (h : StaysInRange data merges s (b :: rest)) :
    StaysInRange data merges (expandRow data merges s b) rest :=
  ⟨fun c hc => h.1 c (List.mem_cons_of_mem _ hc), fun done hdone =>
    h.2 (b :: done) (List.cons_prefix_cons.2 ⟨rfl, hdone⟩)⟩

section run
variable {ms : List Range} (hms : ∀ m ∈ ms, m.Region)
include hms

/-- One replacement makes of the regions what the plan of that row makes of them; only those whose
names are read back are copied. -/
theorem mem_merges_expandRow_iff_yields {s : Sheet} (hrow : 0 < b.directive.row)
    (hflat : ∀ m ∈ s.merges, m.includesRow b.directive.row = true → m.top = m.bottom)
    (hflat' : ∀ m ∈ ms, m.includesRow b.directive.row = true → m.top = m.bottom)
    (hfit : ∀ m ∈ s.merges, m.bottom < twoTo 32)
    (hcopies : b.directive.row + b.items.length ≤ twoTo 32) :
    x ∈ (expandRow data (ms.map Range.text) s b).merges ↔
      (Plan.ofList [b]).Yields s.merges (ms.filter (·.right ≤ 18278)) x := by
  rw [mem_merges_expandRow hms, Plan.Yields]
  refine or_congr (exists_congr fun m => and_congr_right fun hm => ?_)
    (exists_congr fun m => ?_)
  · exact replaced?_eq_some_iff_moves hrow (hflat m hm) (hfit m hm)
  · have hrows (hm : m ∈ ms) (hcovers : m.includesRow b.directive.row = true) :
        (∃ i < b.items.length, x = m.down i ∧ x.bottom < twoTo 32) ↔
          ∃ i < b.items.length, x = m.inRow (b.directive.row + i) := by
      refine exists_congr fun i => and_congr_right fun hi => ?_
      have hone := hflat' m hm hcovers
      have hbounds := Range.includesRow_iff.1 hcovers
      have hdown : m.down i = m.inRow (b.directive.row + i) :=
        Range.eq_of_bounds (by simp only [Range.down, Range.inRow]; omega) rfl
          (by simp only [Range.down, Range.inRow]; omega) rfl
      rw [hdown]
      refine and_iff_left_of_imp ?_
      rintro rfl
      simp only [Range.inRow]
      omega
    rw [Plan.copies_singleton_iff, List.mem_filter, decide_eq_true_eq]
    constructor
    · rintro ⟨hm, ⟨hcovers, hright⟩, hx⟩
      exact ⟨⟨hm, hright⟩, hcovers, (hrows hm hcovers).1 hx⟩
    · rintro ⟨⟨hm, hright⟩, hcovers, hx⟩
      exact ⟨hm, ⟨hcovers, hright⟩, (hrows hm hcovers).2 hx⟩

/-- Different regions do not become one. -/
theorem nodup_merges_expandRow_of_flat {s : Sheet} (hrow : 0 < b.directive.row)
    (hflat : ∀ m ∈ s.merges, m.includesRow b.directive.row = true → m.top = m.bottom)
    (hfit : ∀ m ∈ s.merges, m.bottom < twoTo 32) (hnodup : s.merges.Nodup) :
    (expandRow data (ms.map Range.text) s b).merges.Nodup := by
  refine nodup_merges_expandRow hms (List.pairwise_filterMap.2 ?_)
  refine hnodup.imp_of_mem fun {m m'} hm hm' hne x hx y hy hxy => hne ?_
  subst hxy
  have hmove := (replaced?_eq_some_iff_moves hrow (hflat m hm) (hfit m hm)).1 hx
  have hmove' := (replaced?_eq_some_iff_moves hrow (hflat m' hm') (hfit m' hm')).1 hy
  rcases Plan.moves_singleton_cases hmove with ⟨hlt, rfl⟩ | ⟨hlt, hge⟩
  · rcases Plan.moves_singleton_cases hmove' with ⟨-, rfl⟩ | ⟨-, hge⟩
    · rfl
    · have := x.top_le_bottom
      omega
  · rcases Plan.moves_singleton_cases hmove' with ⟨hlt', rfl⟩ | ⟨hlt', -⟩
    · have := x.top_le_bottom
      omega
    · have heq := hmove.2.symm.trans hmove'.2
      rw [Plan.landing_singleton_of_lt hlt, Plan.landing_singleton_of_lt hlt'] at heq
      simp only [Range.movedTo, Range.mk.injEq] at heq
      have hle := m.top_le_bottom
      have hle' := m'.top_le_bottom
      exact Range.eq_of_bounds (by omega) heq.2.1 (by omega) heq.2.2.2

/-- A run of replacements from the bottom up makes of the regions what the plan makes of them. -/
theorem merges_foldl_expandRow_of_region {bound : List BoundRow} (hdesc : Plan.Descending bound)
    (hpos : ∀ b ∈ bound, 0 < b.directive.row)
    (hflat' : ∀ m ∈ ms, (Plan.ofList bound).Flat m) {s : Sheet}
    (hflat : ∀ m ∈ s.merges, (Plan.ofList bound).Flat m)
    (hfit : StaysInRange data (ms.map Range.text) s bound) :
    (∀ x, x ∈ (bound.foldl (expandRow data (ms.map Range.text)) s).merges ↔
        (Plan.ofList bound).Yields s.merges (ms.filter (·.right ≤ 18278)) x) ∧
      (s.merges.Nodup →
        (bound.foldl (expandRow data (ms.map Range.text)) s).merges.Nodup) := by
  induction bound generalizing s with
  | nil =>
    refine ⟨fun x => ⟨fun hx => Or.inl ⟨x, hx, Plan.free_nil, ?_⟩, ?_⟩, id⟩
    · simp
    · rintro (⟨m, hm, -, rfl⟩ | ⟨m, -, row, c, hc, -⟩)
      · simpa using hm
      · cases hc
  | cons b rest ih =>
    obtain ⟨hrow, hpos'⟩ := List.forall_mem_cons.1 hpos
    have hself : ∀ m ∈ s.merges, m.includesRow b.directive.row = true → m.top = m.bottom :=
      fun m hm => (Plan.flat_cons_iff.1 (hflat m hm)).1
    have hself' : ∀ m ∈ ms, m.includesRow b.directive.row = true → m.top = m.bottom :=
      fun m hm => (Plan.flat_cons_iff.1 (hflat' m hm)).1
    have hnow : ∀ m ∈ s.merges, m.bottom < twoTo 32 := hfit.2 [] (List.nil_prefix)
    have hstep (x : Range) : x ∈ (expandRow data (ms.map Range.text) s b).merges ↔
        (Plan.ofList [b]).Yields s.merges (ms.filter (·.right ≤ 18278)) x :=
      mem_merges_expandRow_iff_yields hms hrow hself hself' hnow (hfit.1 b List.mem_cons_self)
    obtain ⟨hmem, hnodup⟩ := ih (List.pairwise_cons.1 hdesc).2 hpos'
      (fun m hm => (Plan.flat_cons_iff.1 (hflat' m hm)).2)
      (fun x hx => ((hstep x).1 hx).flat_rest hdesc hflat) (staysInRange_rest hfit)
    exact ⟨fun x => (hmem x).trans (Plan.yields_cons_iff hdesc hstep), fun h =>
      hnodup (nodup_merges_expandRow_of_flat hms hrow hself hnow h)⟩

end run

theorem merges_foldl_expandRow {ms : List Range} (hms : ∀ m ∈ ms, m.Mergeable)
    {bound : List BoundRow} (hdesc : Plan.Descending bound)
    (hpos : ∀ b ∈ bound, 0 < b.directive.row)
    (hflat' : ∀ m ∈ ms, (Plan.ofList bound).Flat m) {s : Sheet}
    (hflat : ∀ m ∈ s.merges, (Plan.ofList bound).Flat m) (hnodup : s.merges.Nodup)
    (hfit : StaysInRange data (ms.map Range.text) s bound) :
    (∀ x, x ∈ (bound.foldl (expandRow data (ms.map Range.text)) s).merges ↔
        (Plan.ofList bound).Yields s.merges ms x) ∧
      (bound.foldl (expandRow data (ms.map Range.text)) s).merges.Nodup := by
  have hall : ms.filter (·.right ≤ 18278) = ms :=
    List.filter_eq_self.2 fun m hm => decide_eq_true (hms m hm).right_le
  obtain ⟨hmem, hnodup'⟩ := merges_foldl_expandRow_of_region (fun m hm => (hms m hm).toRegion)
    hdesc hpos hflat' hflat hfit
  rw [hall] at hmem
  exact ⟨hmem, hnodup' hnodup⟩

/-- Filling lays the merged regions of a sheet out by its plan. -/
theorem expand_mergeLayout {s filled : Sheet} {summary : SheetSummary}
    (h : s.expand data = .ok (summary, filled)) (hrows : 0 ∉ s.rowNumbers)
    (hms : ∀ m ∈ s.merges, m.Mergeable)
    (hdisjoint : s.merges.Pairwise fun m m' => m.overlaps m' = false)
    (hflat : ∀ m ∈ s.merges, (s.plan data).Flat m)
    (hfit : StaysInRange data s.mergeTexts s (s.boundRows data)) : MergeLayout data s filled := by
  have hnodup : s.merges.Nodup := hdisjoint.imp fun {m m'} hout heq => by
    have hle := m.top_le_bottom
    have hle' := m.left_le_right
    rw [← heq, Range.overlaps_eq_false_iff] at hout
    omega
  rw [← ofList_boundRows] at hflat
  obtain ⟨hmem, hnodup'⟩ := merges_foldl_expandRow hms (boundRows_descending data s)
    (boundRows_pos hrows) hflat hflat hnodup hfit
  rw [← merges_expand h] at hmem hnodup'
  refine ⟨fun x => ?_, hnodup'.pairwise_of_forall_ne fun x hx y hy hne => ?_, hnodup'⟩
  · simp [hmem, Plan.Yields]
  · exact Plan.Yields.overlaps_eq_false hflat hdisjoint ((hmem x).1 hx) ((hmem y).1 hy) hne

/-- Two rows that repeat have a region each, and between them is one of two rows. -/
def banded : Sheet :=
  (((((named "S").setValue ⟨1, 1⟩ (.text "[[a]]")).setValue ⟨4, 1⟩ (.text "[[b]]")).mergeText
    "A1:B1").mergeText "A2:B3").mergeText "B4:C4"

def bandedData : Data :=
  .record [("a", .list [.bool true, .null]), ("b", .list [.null, .null, .null])]

theorem banded_mergeLayout : ∃ summary filled,
    banded.expand bandedData = .ok (summary, filled) ∧
      filled.mergeTexts = ["A3:B4", "B5:C5", "B6:C6", "B7:C7", "A1:B1", "A2:B2"] ∧
      MergeLayout bandedData banded filled := by
  have hflat : ∀ m ∈ banded.merges, (banded.plan bandedData).Flat m := by
    have hone : ∀ m ∈ banded.merges, ∀ b ∈ banded.boundRows bandedData,
        m.includesRow b.directive.row = true → m.top = m.bottom := by decide +kernel
    rw [← ofList_boundRows]
    exact fun m hm => Plan.flat_ofList (hone m hm)
  have hfit : StaysInRange bandedData banded.mergeTexts banded (banded.boundRows bandedData) := by
    have hinits : ∀ done ∈ (banded.boundRows bandedData).inits,
        ∀ m ∈ (done.foldl (expandRow bandedData banded.mergeTexts) banded).merges,
          m.bottom < twoTo 32 := by decide +kernel
    exact ⟨by decide +kernel, fun done hdone => hinits done ((List.mem_inits _ _).2 hdone)⟩
  exact exists_expand_of_map (by decide +kernel) fun _ _ h _ =>
    expand_mergeLayout h (by decide +kernel) (by decide +kernel) (by decide +kernel) hflat hfit

end Sheet

end SheetTemplate
