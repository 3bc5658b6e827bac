import Mathlib.Data.List.Pairwise
import SheetTemplate.Proofs.Fill.Plan
import SheetTemplate.Proofs.Grid.Range
/-!
What a plan makes of merged regions when each that covers a replaced row lies in that row alone:
it is copied into every row of the block, and all other regions move as a whole. Regions that do
not overlap give regions that do not overlap.
-/
namespace SheetTemplate.Plan
variable {plan : Plan} {m m' x y : Range}

def Free (plan : Plan) (m : Range) : Prop :=
  ∀ row b, plan row = some b → m.includesRow row = false

/-- The range covers a replaced row only if it covers no other row. -/
def Flat (plan : Plan) (m : Range) : Prop :=
  ∀ row b, plan row = some b → m.includesRow row = true → m.top = m.bottom

/-- A range that covers no replaced row moves with its first row. -/
def Moves (plan : Plan) (m x : Range) : Prop :=
  plan.Free m ∧ x = m.movedTo (plan.landing m.top)

/-- A range that covers a replaced row has a copy in each row of the block. -/
def Copies (plan : Plan) (m x : Range) : Prop :=
  ∃ row b, plan row = some b ∧ m.includesRow row = true ∧
    ∃ i < b.items.length, x = m.inRow (plan.landing row + i)

theorem landing_mono {row row' : Nat} (h : row ≤ row') : plan.landing row ≤ plan.landing row' := by
  rcases Nat.lt_or_eq_of_le h with hlt | rfl
  · have : plan.landing row + plan.height row ≤ plan.landing row' := landing_add_height_le hlt
    omega
  · exact Nat.le_refl _

private theorem Free.eq_none (h : plan.Free m) {row : Nat} (htop : m.top ≤ row)
    (hbottom : row ≤ m.bottom) :
    plan row = none := by
  cases hplan : plan row with
  | none => rfl
  | some b =>
    have hout := h row b hplan
    simp only [Range.includesRow_eq_false_iff] at hout
    omega

/-- A region lands in the blocks of the rows that it covers, with the columns that it has. -/
theorem bounds_of_moves_or_copies (hflat : plan.Flat m) (h : plan.Moves m x ∨ plan.Copies m x) :
    (x.left = m.left ∧ x.right = m.right) ∧ plan.landing m.top ≤ x.top ∧
      x.bottom < plan.landing (m.bottom + 1) := by
  rcases h with ⟨hfree, rfl⟩ | ⟨row, b, hplan, hcovers, i, hi, rfl⟩
  · have hle := m.top_le_bottom
    have hland : plan.landing (m.top + (m.bottom - m.top + 1)) =
        plan.landing m.top + (m.bottom - m.top + 1) :=
      landing_add_of_free _ fun r hr hn => hfree.eq_none hr (by omega)
    rw [show m.top + (m.bottom - m.top + 1) = m.bottom + 1 by omega] at hland
    refine ⟨⟨rfl, rfl⟩, Nat.le_refl _, ?_⟩
    simp only [Range.movedTo]
    omega
  · have hone := hflat row b hplan hcovers
    have hrow := Range.includesRow_iff.1 hcovers
    obtain rfl : row = m.top := by omega
    refine ⟨⟨rfl, rfl⟩, Nat.le_add_right _ _, ?_⟩
    rw [← hone, landing_succ, height_of_some hplan]
    exact Nat.add_lt_add_left hi _

/-- Regions from two that do not overlap do not overlap. -/
theorem overlaps_of_disjoint_sources (hflat : plan.Flat m) (hflat' : plan.Flat m')
    (hx : plan.Moves m x ∨ plan.Copies m x) (hy : plan.Moves m' y ∨ plan.Copies m' y)
    (h : m.overlaps m' = false) : x.overlaps y = false := by
  obtain ⟨⟨hleft, hright⟩, htop, hbottom⟩ := bounds_of_moves_or_copies hflat hx
  obtain ⟨⟨hleft', hright'⟩, htop', hbottom'⟩ := bounds_of_moves_or_copies hflat' hy
  rw [Range.overlaps_eq_false_iff] at h ⊢
  rcases h with h | h | h | h
  · have : plan.landing (m.bottom + 1) ≤ plan.landing m'.top := landing_mono h
    omega
  · have : plan.landing (m'.bottom + 1) ≤ plan.landing m.top := landing_mono h
    omega
  · omega
  · omega

/-- Regions from one are equal or lie in different rows. -/
theorem overlaps_of_same_source (hflat : plan.Flat m) (hx : plan.Moves m x ∨ plan.Copies m x)
    (hy : plan.Moves m y ∨ plan.Copies m y) (hne : x ≠ y) : x.overlaps y = false := by
  rcases hx with ⟨hfree, rfl⟩ | ⟨row, b, hplan, hcovers, i, hi, rfl⟩
  · rcases hy with ⟨-, rfl⟩ | ⟨row, b, hplan, hcovers, -⟩
    · exact absurd rfl hne
    · rw [hfree row b hplan] at hcovers
      cases hcovers
  · rcases hy with ⟨hfree, -⟩ | ⟨row', b', hplan', hcovers', j, hj, rfl⟩
    · rw [hfree row b hplan] at hcovers
      cases hcovers
    · have hone := hflat row b hplan hcovers
      have hrow := Range.includesRow_iff.1 hcovers
      have hrow' := Range.includesRow_iff.1 hcovers'
      obtain rfl : row = row' := by omega
      have hij : i ≠ j := by
        rintro rfl
        exact hne rfl
      rw [Range.overlaps_eq_false_iff]
      simp only [Range.inRow]
      omega

section cons
variable {b : BoundRow} {rest : List BoundRow}

/-- The rows that a plan replaces are that of its first bound row and those of the rest. -/
private theorem forall_cons_iff {P : Nat → Prop} :
    (∀ row c, ofList (b :: rest) row = some c → P row) ↔
      P b.directive.row ∧ ∀ row c, ofList rest row = some c → P row := by
  constructor
  · intro h
    refine ⟨h _ b (by simp), fun row c hc => ?_⟩
    by_cases hrow : b.directive.row = row
    · exact h row b (by simp [hrow])
    · exact h row c (by simp [hrow, hc])
  · rintro ⟨hself, hrest⟩ row c hc
    rw [ofList_cons] at hc
    split at hc
    · rename_i hrow
      exact hrow ▸ hself
    · exact hrest row c hc

theorem free_cons_iff : (ofList (b :: rest)).Free m ↔
    m.includesRow b.directive.row = false ∧ (ofList rest).Free m :=
  forall_cons_iff

theorem flat_ofList {bound : List BoundRow}
    (h : ∀ b ∈ bound, m.includesRow b.directive.row = true → m.top = m.bottom) :
    (ofList bound).Flat m := by
  intro row c hc hcovers
  have hrow : c.directive.row = row := by simpa using List.find?_some hc
  exact h c (List.mem_of_find?_eq_some hc) (hrow ▸ hcovers)

theorem free_nil : (ofList []).Free m := fun _ _ h => by cases h

theorem free_singleton_iff : (ofList [b]).Free m ↔ m.includesRow b.directive.row = false :=
  free_cons_iff.trans (and_iff_left free_nil)

theorem flat_cons_iff : (ofList (b :: rest)).Flat m ↔
    (m.includesRow b.directive.row = true → m.top = m.bottom) ∧ (ofList rest).Flat m :=
  forall_cons_iff

/-- Rows from the last bound row on are not in the rest of the plan. -/
theorem lt_of_rest (h : Descending (b :: rest)) {row : Nat} {c : BoundRow}
    (hc : ofList rest row = some c) : row < b.directive.row := by
  have hrow : c.directive.row = row := by simpa using List.find?_some hc
  rw [← hrow]
  exact (List.pairwise_cons.1 h).1 c (List.mem_of_find?_eq_some hc)

theorem free_rest_of_le (h : Descending (b :: rest)) (hm : b.directive.row ≤ m.top) :
    (ofList rest).Free m := by
  intro row c hc
  have hlt := lt_of_rest h hc
  simp only [Range.includesRow_eq_false_iff]
  omega

/-- A range beside the row that is replaced first stays above it or lands below. -/
theorem moves_singleton_cases (h : (ofList [b]).Moves m x) :
    m.bottom < b.directive.row ∧ x = m ∨ b.directive.row < m.top ∧ b.directive.row ≤ x.top := by
  obtain ⟨hfree, rfl⟩ := h
  have hout := free_singleton_iff.1 hfree
  have hle := m.top_le_bottom
  rw [Range.includesRow_eq_false_iff] at hout
  by_cases hbelow : b.directive.row < m.top
  · refine Or.inr ⟨hbelow, ?_⟩
    rw [landing_singleton_of_lt hbelow]
    simp only [Range.movedTo]
    omega
  · refine Or.inl ⟨by omega, ?_⟩
    rw [landing_singleton_of_le (by omega), Range.movedTo_top]

theorem free_rest_of_moves (hdesc : Descending (b :: rest)) (h : (ofList [b]).Moves m x) :
    (ofList rest).Free x ↔ (ofList rest).Free m := by
  rcases moves_singleton_cases h with ⟨-, rfl⟩ | ⟨hm, hx⟩
  · exact Iff.rfl
  · exact iff_of_true (free_rest_of_le hdesc hx) (free_rest_of_le hdesc (Nat.le_of_lt hm))

/-- A range moves in one step and then in the rest of the plan. -/
theorem moves_cons_iff (hdesc : Descending (b :: rest)) : (ofList (b :: rest)).Moves m x ↔
    ∃ y, (ofList [b]).Moves m y ∧ (ofList rest).Moves y x := by
  have htarget : (m.movedTo ((ofList [b]).landing m.top)).movedTo
      ((ofList rest).landing ((ofList [b]).landing m.top)) =
        m.movedTo ((ofList (b :: rest)).landing m.top) := by
    simp [landing_cons hdesc]
  constructor
  · rintro ⟨hfree, rfl⟩
    obtain ⟨hself, hrest⟩ := free_cons_iff.1 hfree
    have hmove : (ofList [b]).Moves m (m.movedTo ((ofList [b]).landing m.top)) :=
      ⟨free_singleton_iff.2 hself, rfl⟩
    exact ⟨_, hmove, (free_rest_of_moves hdesc hmove).2 hrest, htarget.symm⟩
  · rintro ⟨y, hmove, hfree, rfl⟩
    refine ⟨free_cons_iff.2 ⟨free_singleton_iff.1 hmove.1, ?_⟩, ?_⟩
    · exact (free_rest_of_moves hdesc hmove).1 hfree
    · rw [hmove.2]
      exact htarget

theorem copies_singleton_iff : (ofList [b]).Copies m x ↔
    m.includesRow b.directive.row = true ∧
      ∃ i < b.items.length, x = m.inRow (b.directive.row + i) := by
  constructor
  · rintro ⟨row, c, hc, hcovers, hx⟩
    rw [ofList_cons, ofList_nil, Option.ite_none_right_eq_some] at hc
    obtain ⟨rfl, hbc⟩ := hc
    obtain rfl := Option.some.inj hbc
    rw [landing_singleton_of_le (Nat.le_refl _)] at hx
    exact ⟨hcovers, hx⟩
  · rintro ⟨hcovers, hx⟩
    refine ⟨b.directive.row, b, by simp, hcovers, ?_⟩
    rw [landing_singleton_of_le (Nat.le_refl _)]
    exact hx

/-- The copies made in one step move in the rest of the plan, and the rest makes others. -/
theorem copies_cons_iff (hdesc : Descending (b :: rest)) : (ofList (b :: rest)).Copies m x ↔
    (∃ y, (ofList [b]).Copies m y ∧ (ofList rest).Moves y x) ∨ (ofList rest).Copies m x := by
  have hmoves (i : Nat) : (ofList rest).Moves (m.inRow (b.directive.row + i))
      (m.inRow ((ofList (b :: rest)).landing b.directive.row + i)) := by
    refine ⟨free_rest_of_le hdesc (Nat.le_add_right _ i), ?_⟩
    rw [landing_cons_of_le (Nat.le_refl _), ← landing_rest_add hdesc (Nat.le_refl _) i]
    exact (Range.movedTo_inRow _ _ _).symm
  constructor
  · rintro ⟨row, c, hc, hcovers, i, hi, rfl⟩
    rw [ofList_cons] at hc
    split at hc
    · rename_i hrow
      obtain rfl := Option.some.inj hc
      subst hrow
      exact Or.inl ⟨_, copies_singleton_iff.2 ⟨hcovers, i, hi, rfl⟩, hmoves i⟩
    · rw [landing_cons_of_le (Nat.le_of_lt (lt_of_rest hdesc hc))]
      exact Or.inr ⟨row, c, hc, hcovers, i, hi, rfl⟩
  · rintro (⟨y, hy, hmove⟩ | ⟨row, c, hc, hcovers, i, hi, rfl⟩)
    · obtain ⟨hcovers, i, hi, rfl⟩ := copies_singleton_iff.1 hy
      refine ⟨b.directive.row, b, by simp, hcovers, i, hi, ?_⟩
      rw [hmove.2, (hmoves i).2]
    · have hlt := lt_of_rest hdesc hc
      rw [← landing_cons_of_le (b := b) (Nat.le_of_lt hlt)]
      have hrow : ofList (b :: rest) row = some c := by
        rw [ofList_cons, if_neg (by omega), hc]
      exact ⟨row, c, hrow, hcovers, i, hi, rfl⟩

end cons

/-- The ranges that some ranges become as they move, and the copies of those of another list. -/
def Yields (plan : Plan) (ms originals : List Range) (x : Range) : Prop :=
  (∃ m ∈ ms, plan.Moves m x) ∨ ∃ m ∈ originals, plan.Copies m x

theorem yields_cons_iff {b : BoundRow} {rest : List BoundRow} (hdesc : Descending (b :: rest))
    {ms ms' originals : List Range}
    (hstep : ∀ y, y ∈ ms' ↔ (ofList [b]).Yields ms originals y) :
    (ofList rest).Yields ms' originals x ↔ (ofList (b :: rest)).Yields ms originals x := by
  simp only [Yields, moves_cons_iff hdesc, copies_cons_iff hdesc]
  constructor
  · rintro (⟨y, hy, hx⟩ | ⟨m, hm, hx⟩)
    · rcases (hstep y).1 hy with ⟨m, hm, hmove⟩ | ⟨m, hm, hcopy⟩
      · exact Or.inl ⟨m, hm, y, hmove, hx⟩
      · exact Or.inr ⟨m, hm, Or.inl ⟨y, hcopy, hx⟩⟩
    · exact Or.inr ⟨m, hm, Or.inr hx⟩
  · rintro (⟨m, hm, y, hmove, hx⟩ | ⟨m, hm, ⟨y, hcopy, hx⟩ | hx⟩)
    · exact Or.inl ⟨y, (hstep y).2 (Or.inl ⟨m, hm, hmove⟩), hx⟩
    · exact Or.inl ⟨y, (hstep y).2 (Or.inr ⟨m, hm, hcopy⟩), hx⟩
    · exact Or.inr ⟨m, hm, hx⟩

/-- What one step yields still covers rows of the rest of the plan only one at a time. -/
theorem Yields.flat_rest {b : BoundRow} {rest : List BoundRow} (hdesc : Descending (b :: rest))
    {ms originals : List Range} (hflat : ∀ m ∈ ms, (ofList (b :: rest)).Flat m)
    (h : (ofList [b]).Yields ms originals x) : (ofList rest).Flat x := by
  rcases h with ⟨m, hm, hmove⟩ | ⟨m, -, hcopy⟩
  · rcases moves_singleton_cases hmove with ⟨-, rfl⟩ | ⟨-, hx⟩
    · exact (flat_cons_iff.1 (hflat x hm)).2
    · intro row c hc hcovers
      rw [free_rest_of_le hdesc hx row c hc] at hcovers
      cases hcovers
  · obtain ⟨-, i, -, rfl⟩ := copies_singleton_iff.1 hcopy
    exact fun _ _ _ _ => rfl

/-- Regions that do not overlap, each in one row if that row is replaced, yield regions that do
not overlap. -/
theorem Yields.overlaps_eq_false {ms : List Range} (hflat : ∀ m ∈ ms, plan.Flat m)
    (hdisjoint : ms.Pairwise fun m m' => m.overlaps m' = false) (hx : plan.Yields ms ms x)
    (hy : plan.Yields ms ms y) (hne : x ≠ y) : x.overlaps y = false := by
  have hsource {z : Range} (hz : plan.Yields ms ms z) :
      ∃ m ∈ ms, plan.Moves m z ∨ plan.Copies m z := by
    rcases hz with ⟨m, hm, hz⟩ | ⟨m, hm, hz⟩
    · exact ⟨m, hm, Or.inl hz⟩
    · exact ⟨m, hm, Or.inr hz⟩
  obtain ⟨m, hm, hmx⟩ := hsource hx
  obtain ⟨m', hm', hmy⟩ := hsource hy
  by_cases heq : m = m'
  · subst heq
    exact overlaps_of_same_source (hflat m hm) hmx hmy hne
  · exact overlaps_of_disjoint_sources (hflat m hm) (hflat m' hm') hmx hmy
      (hdisjoint.forall hm hm' heq)

end SheetTemplate.Plan
