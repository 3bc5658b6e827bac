import SheetTemplate.Package.WrittenSheet
import SheetTemplate.Proofs.Sheet.RowEdits
/-!
Which merged regions of a sheet are written. They are chosen from front to back, each unless it
meets one that was chosen before it; so what is chosen from a list in two parts is what is chosen
from the first, and then what is chosen from the second by someone who already has that.
-/
namespace SheetTemplate

namespace Range

def Meets (a b : Range) : Prop :=
  ∃ c, a.Covers c ∧ b.Covers c

theorem overlaps_iff_meets {a b : Range} : a.overlaps b = true ↔ a.Meets b := by
  rw [← not_iff_not, Bool.not_eq_true, overlaps_eq_false_iff_covers]
  exact ⟨fun h ⟨c, ha, hb⟩ => h c ha hb, fun h c ha hb => h ⟨c, ha, hb⟩⟩

theorem Meets.refl (r : Range) : r.Meets r :=
  ⟨⟨r.top, r.left⟩, ⟨⟨Nat.le_refl _, r.top_le_bottom⟩, Nat.le_refl _, r.left_le_right⟩,
    ⟨Nat.le_refl _, r.top_le_bottom⟩, Nat.le_refl _, r.left_le_right⟩

/-- A selection of ranges by which no cell is in two of them, and which leaves out none but for one
that it has in front of it. -/
structure Selection (all kept : List Range) : Prop where
  sublist : kept.Sublist all
  disjoint : kept.Pairwise fun a b => ¬a.Meets b
  maximal : ∀ before r after, all = before ++ r :: after →
    ∃ front back, front.Sublist before ∧ back.Sublist after ∧
      (kept = front ++ r :: back ∨ kept = front ++ back ∧ ∃ x ∈ front, x.Meets r)
  whole : (all.Pairwise fun a b => ¬a.Meets b) → kept = all

end Range

namespace WrittenSheet
variable {taken rs : List Range} {r : Range}

theorem withoutOverlaps_cons_of_meets {x : Range} (hx : x ∈ taken) (h : x.Meets r) :
    withoutOverlaps taken (r :: rs) = withoutOverlaps taken rs := by
  have hany : taken.any (·.overlaps r) = true :=
    List.any_eq_true.2 ⟨x, hx, Range.overlaps_iff_meets.2 h⟩
  rw [withoutOverlaps, if_pos hany]

theorem withoutOverlaps_cons_of_apart (h : ∀ x ∈ taken, ¬x.Meets r) :
    withoutOverlaps taken (r :: rs) = r :: withoutOverlaps (r :: taken) rs := by
  rw [withoutOverlaps, if_neg]
  intro hany
  obtain ⟨x, hx, hoverlaps⟩ := List.any_eq_true.1 hany
  exact h x hx (Range.overlaps_iff_meets.1 hoverlaps)

theorem meets_or_apart (taken : List Range) (r : Range) :
    (∃ x ∈ taken, x.Meets r) ∨ ∀ x ∈ taken, ¬x.Meets r := by
  by_cases h : ∃ x ∈ taken, x.Meets r
  · exact Or.inl h
  · exact Or.inr fun x hx hmeets => h ⟨x, hx, hmeets⟩

/-- What is chosen from the second part of a list depends on the first part only through what was
chosen from that. -/
theorem withoutOverlaps_append (taken rs rs' : List Range) :
    withoutOverlaps taken (rs ++ rs') = withoutOverlaps taken rs ++
      withoutOverlaps ((withoutOverlaps taken rs).reverse ++ taken) rs' := by
  induction rs generalizing taken with
  | nil => rfl
  | cons r rs ih =>
    rcases meets_or_apart taken r with ⟨x, hx, hmeets⟩ | hapart
    · rw [List.cons_append, withoutOverlaps_cons_of_meets hx hmeets,
        withoutOverlaps_cons_of_meets hx hmeets, ih]
    · rw [List.cons_append, withoutOverlaps_cons_of_apart hapart,
        withoutOverlaps_cons_of_apart hapart, ih, List.cons_append, List.reverse_cons,
        List.append_assoc, List.singleton_append]

theorem withoutOverlaps_sublist (taken rs : List Range) :
    (withoutOverlaps taken rs).Sublist rs := by
  induction rs generalizing taken with
  | nil => exact List.Sublist.refl []
  | cons r rs ih =>
    rcases meets_or_apart taken r with ⟨x, hx, hmeets⟩ | hapart
    · rw [withoutOverlaps_cons_of_meets hx hmeets]
      exact (ih taken).cons r
    · rw [withoutOverlaps_cons_of_apart hapart]
      exact (ih (r :: taken)).cons_cons r

/-- Nothing is chosen that meets one of those taken already, or one that is chosen as well. -/
theorem withoutOverlaps_disjoint (taken rs : List Range) :
    (∀ x ∈ taken, ∀ y ∈ withoutOverlaps taken rs, ¬x.Meets y) ∧
      (withoutOverlaps taken rs).Pairwise fun a b => ¬a.Meets b := by
  induction rs generalizing taken with
  | nil => exact ⟨fun _ _ _ hy => absurd hy List.not_mem_nil, List.Pairwise.nil⟩
  | cons r rs ih =>
    rcases meets_or_apart taken r with ⟨x, hx, hmeets⟩ | hapart
    · rw [withoutOverlaps_cons_of_meets hx hmeets]
      exact ih taken
    · obtain ⟨htaken, hpairwise⟩ := ih (r :: taken)
      obtain ⟨hr, htaken⟩ := List.forall_mem_cons.1 htaken
      rw [withoutOverlaps_cons_of_apart hapart]
      exact ⟨fun x hx => List.forall_mem_cons.2 ⟨hapart x hx, htaken x hx⟩,
        List.pairwise_cons.2 ⟨hr, hpairwise⟩⟩

/-- Ranges that do not meet are all chosen. -/
theorem withoutOverlaps_eq_self (h : (taken.reverse ++ rs).Pairwise fun a b => ¬a.Meets b) :
    withoutOverlaps taken rs = rs := by
  induction rs generalizing taken with
  | nil => rfl
  | cons r rs ih =>
    have happart : ∀ x ∈ taken, ¬x.Meets r := fun x hx =>
      (List.pairwise_append.1 h).2.2 x (List.mem_reverse.2 hx) r List.mem_cons_self
    rw [withoutOverlaps_cons_of_apart happart, ih]
    rwa [List.reverse_cons, List.append_assoc, List.singleton_append]

/-- The regions that are written for a sheet are such a selection of its regions. -/
theorem selection_mergesOf (s : Sheet) : Range.Selection s.merges (mergesOf s) where
  sublist := withoutOverlaps_sublist [] s.merges
  disjoint := (withoutOverlaps_disjoint [] s.merges).2
  maximal := by
    intro before r after hall
    rw [mergesOf, hall, withoutOverlaps_append, List.append_nil]
    rcases meets_or_apart (withoutOverlaps [] before).reverse r with ⟨x, hx, hmeets⟩ | hapart
    · rw [withoutOverlaps_cons_of_meets hx hmeets]
      exact ⟨_, _, withoutOverlaps_sublist _ _, withoutOverlaps_sublist _ _,
        Or.inr ⟨rfl, x, List.mem_reverse.1 hx, hmeets⟩⟩
    · rw [withoutOverlaps_cons_of_apart hapart]
      exact ⟨_, _, withoutOverlaps_sublist _ _, withoutOverlaps_sublist _ _, Or.inl rfl⟩
  whole := fun hdisjoint => withoutOverlaps_eq_self hdisjoint

end WrittenSheet

end SheetTemplate
