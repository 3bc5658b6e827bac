import SheetTemplate.Proofs.Fill.MergeCopies
import SheetTemplate.Proofs.Fill.MergePlan
/-!
Merged regions while rows are replaced by one row each. Only a region that begins or ends in the
replaced row loses that row; what is left of it either vanishes as the rows above are replaced or
stays for good.
-/
namespace SheetTemplate

namespace Range
variable {r : Range} {row : Nat}

/-- The range without its first row, unless that is its only one. -/
def withoutTop (r : Range) : Range where
  top := min (r.top + 1) r.bottom
  left := r.left
  bottom := r.bottom
  right := r.right
  top_le_bottom := Nat.min_le_right _ _
  left_le_right := r.left_le_right

def withoutBottom (r : Range) : Range where
  top := r.top
  left := r.left
  bottom := max r.top (r.bottom - 1)
  right := r.right
  top_le_bottom := Nat.le_max_left _ _
  left_le_right := r.left_le_right

/-- The range has the columns of another one and only rows of it. -/
structure Within (x r : Range) : Prop where
  left_eq : x.left = r.left
  right_eq : x.right = r.right
  top_le : r.top ≤ x.top
  bottom_le : x.bottom ≤ r.bottom

theorem Within.refl (r : Range) : r.Within r :=
  ⟨rfl, rfl, Nat.le_refl _, Nat.le_refl _⟩

theorem Within.trans {x y : Range} (h : y.Within x) (h' : x.Within r) : y.Within r :=
  ⟨h.left_eq.trans h'.left_eq, h.right_eq.trans h'.right_eq, Nat.le_trans h'.top_le h.top_le,
    Nat.le_trans h.bottom_le h'.bottom_le⟩

theorem Within.antisymm {x : Range} (h : x.Within r) (h' : r.Within x) : x = r :=
  eq_of_bounds (Nat.le_antisymm h'.top_le h.top_le) h.left_eq
    (Nat.le_antisymm h.bottom_le h'.bottom_le) h.right_eq

/-- A range and one within it share a cell. -/
theorem Within.overlaps {x : Range} (h : x.Within r) : r.overlaps x = true := by
  have htop := h.top_le
  have hbottom := h.bottom_le
  have hleft := h.left_eq
  have hright := h.right_eq
  have hle := x.top_le_bottom
  have hle' := r.left_le_right
  rw [← Bool.not_eq_false, overlaps_eq_false_iff]
  omega

theorem withoutTop_within (r : Range) : r.withoutTop.Within r := by
  have hle := r.top_le_bottom
  exact ⟨rfl, rfl, by simp only [withoutTop]; omega, Nat.le_refl _⟩

theorem withoutBottom_within (r : Range) : r.withoutBottom.Within r := by
  have hle := r.top_le_bottom
  exact ⟨rfl, rfl, Nat.le_refl _, by simp only [withoutBottom]; omega⟩

theorem withoutTop_ne (h : r.top < r.bottom) : r.withoutTop ≠ r := fun heq => by
  have := congrArg Range.top heq
  simp only [withoutTop] at this
  omega

theorem withoutBottom_ne (h : r.top < r.bottom) : r.withoutBottom ≠ r := fun heq => by
  have := congrArg Range.bottom heq
  simp only [withoutBottom] at this
  omega

/-- A range that covers a removed row and others loses one row. -/
theorem closed?_of_covering (hcovers : r.includesRow row = true) (h : r.top < r.bottom) :
    r.closed? row =
      if r.bottom = r.top + 1 ∧ r.left = r.right then none else some r.withoutBottom := by
  have hbounds := includesRow_iff.1 hcovers
  have hshrunk : (⟨r.top, r.left, r.bottom - 1, r.right, by omega, r.left_le_right⟩ : Range) =
      r.withoutBottom :=
    eq_of_bounds rfl rfl (by simp only [withoutBottom]; omega) rfl
  have hsingle : r.withoutBottom.isSingle = true ↔ r.bottom = r.top + 1 ∧ r.left = r.right := by
    rw [isSingle_iff]
    simp only [withoutBottom]
    omega
  rw [closed?, if_neg (by omega), if_neg (by omega), dif_pos h]
  simp only [hshrunk, hsingle]

/-- A row that is no end of the range is closed and opened again inside it, or beside it. -/
theorem replaced?_one_of_ne (hrow : 0 < row) (htop : row ≠ r.top) (hbottom : row ≠ r.bottom)
    (hfit : r.bottom < twoTo 32) : r.replaced? row 1 = some r := by
  by_cases habove : r.bottom < row
  · exact replaced?_of_above habove 1
  by_cases hbelow : row < r.top
  · rw [replaced?_of_below hrow hbelow hfit, show r.top - 1 + 1 = r.top by omega, movedTo_top]
  · rw [replaced?, closed?_of_covering (includesRow_iff.2 (by omega)) (by omega),
      if_neg (by omega), Option.map_some, stretched, if_neg (by simp only [withoutBottom]; omega),
      if_pos (by simp only [withoutBottom]; omega)]
    exact congrArg some (eq_of_bounds rfl rfl (by simp only [withoutBottom]; omega) rfl)

theorem replaced?_one_top (h : r.top < r.bottom) : r.replaced? r.top 1 =
    if r.bottom = r.top + 1 ∧ r.left = r.right then none else some r.withoutTop := by
  rw [replaced?, closed?_of_covering (includesRow_iff.2 (by omega)) h]
  split
  · rfl
  · rw [Option.map_some, stretched, if_pos (show r.top ≤ r.withoutBottom.top from Nat.le_refl _)]
    exact congrArg some (eq_of_bounds (by simp only [down, withoutTop, withoutBottom]; omega) rfl
      (by simp only [down, withoutTop, withoutBottom]; omega) rfl)

theorem replaced?_one_bottom (h : r.top < r.bottom) : r.replaced? r.bottom 1 =
    if r.bottom = r.top + 1 ∧ r.left = r.right then none else some r.withoutBottom := by
  rw [replaced?, closed?_of_covering (includesRow_iff.2 (by omega)) h]
  split
  · rfl
  · rw [Option.map_some, stretched, if_neg (by simp only [withoutBottom]; omega),
      if_neg (by simp only [withoutBottom]; omega)]

/-- The range stays as it is, or it loses the end that is replaced and is more than one cell
still. -/
theorem replaced?_one_cases {x : Range} (hrow : 0 < row) (hfit : r.bottom < twoTo 32)
    (h : r.replaced? row 1 = some x) :
    x = r ∧ row ≠ r.top ∧ row ≠ r.bottom ∨
      (r.top < r.bottom ∧ ¬ (r.bottom = r.top + 1 ∧ r.left = r.right)) ∧
        (row = r.top ∧ x = r.withoutTop ∨ row = r.bottom ∧ x = r.withoutBottom) := by
  by_cases hend : row = r.top ∨ row = r.bottom
  · rcases Nat.lt_or_eq_of_le r.top_le_bottom with hlt | hone
    · refine Or.inr ?_
      rcases hend with rfl | rfl
      · rw [replaced?_one_top hlt, Option.ite_none_left_eq_some, Option.some.injEq] at h
        exact ⟨⟨hlt, h.1⟩, Or.inl ⟨rfl, h.2.symm⟩⟩
      · rw [replaced?_one_bottom hlt, Option.ite_none_left_eq_some, Option.some.injEq] at h
        exact ⟨⟨hlt, h.1⟩, Or.inr ⟨rfl, h.2.symm⟩⟩
    · have hcovers : r.includesRow row = true := includesRow_iff.2 (by omega)
      rw [replaced?_of_height_one hcovers hone] at h
      cases h
  · obtain ⟨htop, hbottom⟩ := not_or.1 hend
    rw [replaced?_one_of_ne hrow htop hbottom hfit] at h
    exact Or.inl ⟨(Option.some.inj h).symm, htop, hbottom⟩

theorem within_of_replaced?_one {x : Range} (hrow : 0 < row) (hfit : r.bottom < twoTo 32)
    (h : r.replaced? row 1 = some x) : x.Within r := by
  rcases replaced?_one_cases hrow hfit h with ⟨rfl, -⟩ | ⟨-, ⟨-, rfl⟩ | ⟨-, rfl⟩⟩
  · exact .refl x
  · exact r.withoutTop_within
  · exact r.withoutBottom_within

/-- A range is lost when an end of it is replaced. -/
theorem ne_ends_of_replaced?_one (hrow : 0 < row) (hfit : r.bottom < twoTo 32)
    (h : r.replaced? row 1 = some r) : row ≠ r.top ∧ row ≠ r.bottom := by
  rcases replaced?_one_cases hrow hfit h with ⟨-, hends⟩ | ⟨⟨hlt, -⟩, ⟨-, heq⟩ | ⟨-, heq⟩⟩
  · exact hends
  · exact absurd heq.symm (withoutTop_ne hlt)
  · exact absurd heq.symm (withoutBottom_ne hlt)

end Range

namespace Plan
variable {plan : Plan} {m x y : Range} {b : BoundRow} {rest : List BoundRow}

def Replaces (plan : Plan) (row : Nat) : Prop :=
  plan row ≠ none

theorem replaces_cons_iff {row : Nat} :
    (ofList (b :: rest)).Replaces row ↔ row = b.directive.row ∨ (ofList rest).Replaces row := by
  by_cases hrow : b.directive.row = row
  · simp [Replaces, hrow]
  · simp [Replaces, hrow, Ne.symm hrow]

theorem not_replaces_nil {row : Nat} : ¬ (ofList []).Replaces row := by
  simp [Replaces]

theorem Replaces.lt (hdesc : Descending (b :: rest)) {row : Nat}
    (h : (ofList rest).Replaces row) : row < b.directive.row := by
  obtain ⟨c, hc⟩ := Option.ne_none_iff_exists'.1 h
  exact lt_of_rest hdesc hc

/-- Nothing is left of a range of several rows beside the range itself: if its first row is
replaced then it has two cells, one above the other, and if its last row is replaced then it is one
column and all its rows but the first are replaced. -/
def Traceless (plan : Plan) (m : Range) : Prop :=
  m.top < m.bottom →
    (plan.Replaces m.top → m.bottom = m.top + 1 ∧ m.left = m.right) ∧
      (plan.Replaces m.bottom →
        m.left = m.right ∧ ∀ row, m.top < row → row ≤ m.bottom → plan.Replaces row)

/-- What is left of a range vanishes: one column, of which every row but the first is still to be
replaced. -/
def Fading (plan : Plan) (x : Range) : Prop :=
  x.left = x.right ∧ x.top < x.bottom ∧
    ∀ row, x.top < row → row ≤ x.bottom → plan.Replaces row

/-- What is left of a range stays: its first row is not replaced any more, nor is another of its
rows unless it has several columns. -/
def Stays (plan : Plan) (x : Range) : Prop :=
  ¬ plan.Replaces x.top ∧
    (x.left ≠ x.right ∨ ∃ row, ¬ plan.Replaces row ∧ x.top < row ∧ row ≤ x.bottom)

private theorem replaces_rest {row : Nat} (h : (ofList (b :: rest)).Replaces row)
    (hne : row ≠ b.directive.row) : (ofList rest).Replaces row :=
  (replaces_cons_iff.1 h).resolve_left hne

private theorem not_replaces_rest {row : Nat} (h : ¬ (ofList (b :: rest)).Replaces row) :
    ¬ (ofList rest).Replaces row := fun hrest => h (replaces_cons_iff.2 (Or.inr hrest))

private theorem traceless_rest (hdesc : Descending (b :: rest))
    (h : (ofList (b :: rest)).Traceless m) :
    (ofList rest).Traceless m := by
  intro hlt
  obtain ⟨htop, hbottom⟩ := h hlt
  refine ⟨fun hrest => htop (replaces_cons_iff.2 (Or.inr hrest)), fun hrest => ?_⟩
  obtain ⟨hcolumn, hrows⟩ := hbottom (replaces_cons_iff.2 (Or.inr hrest))
  refine ⟨hcolumn, fun row hrow hrow' => replaces_rest (hrows row hrow hrow') ?_⟩
  have := hrest.lt hdesc
  omega

theorem fading_withoutBottom (hlt : x.top < x.bottom)
    (hmore : ¬ (x.bottom = x.top + 1 ∧ x.left = x.right)) (hcolumn : x.left = x.right)
    (hrows : ∀ row, x.top < row → row < x.bottom → plan.Replaces row) :
    plan.Fading x.withoutBottom := by
  refine ⟨hcolumn, ?_, fun row hrow hrow' => hrows row hrow ?_⟩
  · simp only [Range.withoutBottom]
    omega
  · simp only [Range.withoutBottom] at hrow'
    omega

/-- What vanishes goes on vanishing. -/
theorem Fading.step (hdesc : Descending (b :: rest)) (h : (ofList (b :: rest)).Fading x)
    (hrow : 0 < b.directive.row) (hfit : x.bottom < twoTo 32)
    (hy : x.replaced? b.directive.row 1 = some y) : (ofList rest).Fading y := by
  obtain ⟨hcolumn, hlt, hrows⟩ := h
  have hle : x.bottom ≤ b.directive.row := by
    rcases replaces_cons_iff.1 (hrows x.bottom hlt (Nat.le_refl _)) with heq | hrest
    · exact Nat.le_of_eq heq
    · exact Nat.le_of_lt (hrest.lt hdesc)
  rcases Range.replaced?_one_cases hrow hfit hy with ⟨rfl, -, hne⟩ | ⟨⟨-, hmore⟩, hends⟩
  · exact ⟨hcolumn, hlt, fun row hr hr' => replaces_rest (hrows row hr hr') (by omega)⟩
  · rcases hends with ⟨hfirst, -⟩ | ⟨hlast, rfl⟩
    · omega
    · exact fading_withoutBottom hlt hmore hcolumn fun row hr hr' =>
        replaces_rest (hrows row hr (Nat.le_of_lt hr')) (by omega)

/-- A range of which nothing will be left stays as it is or begins to vanish. -/
theorem Traceless.step (h : (ofList (b :: rest)).Traceless m) (hrow : 0 < b.directive.row)
    (hfit : m.bottom < twoTo 32) (hy : m.replaced? b.directive.row 1 = some y) :
    y = m ∨ (ofList rest).Fading y := by
  rcases Range.replaced?_one_cases hrow hfit hy with ⟨rfl, -⟩ | ⟨⟨hlt, hmore⟩, hends⟩
  · exact Or.inl rfl
  · obtain ⟨htop, hbottom⟩ := h hlt
    rcases hends with ⟨hfirst, -⟩ | ⟨hlast, rfl⟩
    · exact absurd (htop (replaces_cons_iff.2 (Or.inl hfirst.symm))) hmore
    · obtain ⟨hcolumn, hrows⟩ := hbottom (replaces_cons_iff.2 (Or.inl hlast.symm))
      exact Or.inr (fading_withoutBottom hlt hmore hcolumn fun row hr hr' =>
        replaces_rest (hrows row hr (Nat.le_of_lt hr')) (by omega))

/-- A range stays without its last row if it has several columns or keeps another row. -/
theorem stays_withoutBottom (htop : ¬ plan.Replaces x.top)
    (hkept : x.left ≠ x.right ∨ ∃ row, ¬ plan.Replaces row ∧ x.top < row ∧ row < x.bottom) :
    plan.Stays x.withoutBottom := by
  refine ⟨htop, hkept.imp_right fun ⟨row, hrow, hlt, hlt'⟩ => ⟨row, hrow, hlt, ?_⟩⟩
  simp only [Range.withoutBottom]
  omega

/-- What stays goes on staying, perhaps smaller. -/
theorem Stays.step (h : (ofList (b :: rest)).Stays x) (hrow : 0 < b.directive.row)
    (hfit : x.bottom < twoTo 32) :
    ∃ y, x.replaced? b.directive.row 1 = some y ∧ (ofList rest).Stays y ∧ y.Within x := by
  obtain ⟨htop, hkept⟩ := h
  have hrest : (ofList rest).Stays x :=
    ⟨not_replaces_rest htop, hkept.imp_right fun ⟨row, hout, hbounds⟩ =>
      ⟨row, not_replaces_rest hout, hbounds⟩⟩
  have hne {row : Nat} (hout : ¬ (ofList (b :: rest)).Replaces row) : row ≠ b.directive.row :=
    fun heq => hout (replaces_cons_iff.2 (Or.inl heq))
  have hfirst := hne htop
  by_cases hlast : b.directive.row = x.bottom
  · have hle := x.top_le_bottom
    have hlt : x.top < x.bottom := by omega
    -- If the range is one column, then a row that is kept stands between its first and its last.
    have hkept' : x.left ≠ x.right ∨
        ∃ row, ¬ (ofList rest).Replaces row ∧ x.top < row ∧ row < x.bottom := by
      refine hkept.imp_right fun ⟨row, hrow, hlow, hhigh⟩ =>
        ⟨row, not_replaces_rest hrow, hlow, ?_⟩
      have := hne hrow
      omega
    have hmore : ¬ (x.bottom = x.top + 1 ∧ x.left = x.right) := by
      rintro ⟨hheight, hcolumn⟩
      rcases hkept' with hcolumns | ⟨row, -, hlow, hhigh⟩
      · exact hcolumns hcolumn
      · omega
    refine ⟨x.withoutBottom, ?_, stays_withoutBottom hrest.1 hkept', x.withoutBottom_within⟩
    rw [hlast, Range.replaced?_one_bottom hlt, if_neg hmore]
  · exact ⟨x, Range.replaced?_one_of_ne hrow (Ne.symm hfirst) hlast hfit, hrest, .refl x⟩

/-- A range of which something will be left loses an end now, and what is left of it stays, or it
loses an end later. -/
theorem stays_or_not_traceless (hdesc : Descending (b :: rest))
    (h : ¬ (ofList (b :: rest)).Traceless m) :
    (∃ y, m.replaced? b.directive.row 1 = some y ∧ (ofList rest).Stays y ∧ y.Within m ∧ y ≠ m) ∨
      ¬ (ofList rest).Traceless m := by
  by_cases hrest : (ofList rest).Traceless m
  case neg => exact Or.inr hrest
  have hlate {row : Nat} (hrow : b.directive.row ≤ row) : ¬ (ofList rest).Replaces row :=
    fun hrow' => by
      have := hrow'.lt hdesc
      omega
  refine Or.inl ?_
  by_cases hlt : m.top < m.bottom
  case neg => exact absurd (fun hlt' => absurd hlt' hlt) h
  obtain ⟨htop, hbottom⟩ := hrest hlt
  have hmore : ¬ (m.bottom = m.top + 1 ∧ m.left = m.right) := fun hends => by
    refine h fun _ => ⟨fun _ => hends, fun hlast => ⟨hends.2, fun row hrow hrow' => ?_⟩⟩
    obtain rfl : row = m.bottom := by omega
    exact hlast
  by_cases hfirst : b.directive.row = m.top
  · refine ⟨m.withoutTop, by rw [hfirst, Range.replaced?_one_top hlt, if_neg hmore],
      ⟨hlate ?_, ?_⟩, m.withoutTop_within, Range.withoutTop_ne hlt⟩
    · simp only [Range.withoutTop]
      omega
    · by_cases hcolumn : m.left = m.right
      · refine Or.inr ⟨m.bottom, hlate (by omega), ?_, Nat.le_refl _⟩
        simp only [Range.withoutTop]
        omega
      · exact Or.inl hcolumn
  · have hkept : ¬ (ofList rest).Replaces m.top := fun hrow => hmore (htop hrow)
    have hkept' : ¬ (ofList (b :: rest)).Replaces m.top := fun hrow =>
      hkept (replaces_rest hrow (Ne.symm hfirst))
    by_cases hlast : b.directive.row = m.bottom
    · refine ⟨m.withoutBottom, by rw [hlast, Range.replaced?_one_bottom hlt, if_neg hmore],
        stays_withoutBottom hkept ?_, m.withoutBottom_within, Range.withoutBottom_ne hlt⟩
      by_contra hall
      obtain ⟨hcolumn, hrows⟩ := not_or.1 hall
      refine h fun _ => ⟨fun hrow => absurd hrow hkept', fun _ =>
        ⟨Classical.not_not.1 hcolumn, fun row hrow hrow' => replaces_cons_iff.2 ?_⟩⟩
      refine Classical.or_iff_not_imp_left.2 fun hne => ?_
      by_contra hout
      exact hrows ⟨row, hout, hrow, by omega⟩
    · refine absurd (fun _ => ⟨fun hrow => absurd hrow hkept', fun hrow => ?_⟩) h
      obtain ⟨hcolumn, hrows⟩ := hbottom (replaces_rest hrow (Ne.symm hlast))
      exact ⟨hcolumn, fun row hr hr' => replaces_cons_iff.2 (Or.inr (hrows row hr hr'))⟩

/-- A range is a region still: nothing is left of it beside itself and its name is read back, or
none of its ends is replaced. -/
def Survives (plan : Plan) (m : Range) : Prop :=
  m.right ≤ 18278 ∧ plan.Traceless m ∨ ¬ plan.Replaces m.top ∧ ¬ plan.Replaces m.bottom

theorem Survives.traceless (h : plan.Survives m) : plan.Traceless m := by
  rcases h with ⟨-, h⟩ | ⟨htop, hbottom⟩
  · exact h
  · exact fun _ => ⟨fun hrow => absurd hrow htop, fun hrow => absurd hrow hbottom⟩

theorem survives_rest (hdesc : Descending (b :: rest)) (h : (ofList (b :: rest)).Survives m) :
    (ofList rest).Survives m :=
  h.imp (fun ⟨hright, h⟩ => ⟨hright, traceless_rest hdesc h⟩) fun ⟨htop, hbottom⟩ =>
    ⟨not_replaces_rest htop, not_replaces_rest hbottom⟩

end Plan

end SheetTemplate
