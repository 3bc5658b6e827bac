import SheetTemplate.Proofs.Grid.Table
import SheetTemplate.Proofs.Marker.Tidy
/-!
Texts filled in stages, first from one part of the data and then from the rest. In a tidy text each
stage replaces the markers that lead into its part, so the order of the stages and the number of
passes in each do not matter.
-/
namespace SheetTemplate

/-- Three records, of which the last has the fields of the first two, and these share no key. -/
structure Data.IsUnion (first second union : Data) : Prop where
  isRecord : ∀ d ∈ [first, second, union], ∃ fields, d = .record fields
  disjoint : ∀ key, first.field? key = none ∨ second.field? key = none
  field?_eq : ∀ key, union.field? key = (first.field? key).or (second.field? key)

def BringsNoBracket (s : Scope) (fill? : Marker → Option String) (t : String) : Prop :=
  ∀ m ∈ markersOf [s] t, ∀ shown, fill? m = some shown → BracketFree shown.toList

private theorem Text.split_ne_nil (separator : Char) (s : String) :
    Text.split separator s ≠ [] := by
  have hparts : ∀ cs : List Char, Text.parts separator cs ≠ [] := by
    intro cs
    cases cs with
    | nil => exact List.cons_ne_nil _ _
    | cons c cs =>
      rw [Text.parts]
      split
      · exact List.cons_ne_nil _ _
      · split <;> exact List.cons_ne_nil _ _
  rw [Text.split, ne_eq, List.map_eq_nil_iff]
  exact hparts s.toList

namespace Data
variable {first second union : Data}

/-- In a record a path leads on from one of its fields. -/
theorem exists_resolve?_record_eq (path : String) : ∃ key rest, ∀ fields,
    resolve? path (.record fields) = (field? key (.record fields)).bind (walk? rest) := by
  cases hsplit : Text.split '.' path with
  | nil => exact absurd hsplit (Text.split_ne_nil _ _)
  | cons key rest =>
    refine ⟨key, rest, fun fields => ?_⟩
    rw [resolve?, hsplit]
    rfl

/-- Records that share no key have as their union the record of all their fields. -/
theorem isUnion_append {fields fields' : List (String × Data)}
    (h : ∀ f ∈ fields, ∀ f' ∈ fields', f.1 ≠ f'.1) :
    IsUnion (.record fields) (.record fields') (.record (fields ++ fields')) := by
  constructor
  case isRecord => simp
  case disjoint =>
    intro key
    by_cases hkey : ∃ f ∈ fields, f.1 = key
    · obtain ⟨f, hf, rfl⟩ := hkey
      exact Or.inr (Table.lookup_eq_none fun f' hf' => (h f hf f' hf').symm)
    · exact Or.inl (Table.lookup_eq_none fun f hf heq => hkey ⟨f, hf, heq⟩)
  case field?_eq =>
    intro key
    exact Table.lookup_append key fields fields'

namespace IsUnion

theorem rootText?_eq (h : IsUnion first second union) (m : Marker) :
    union.rootText? m = (first.rootText? m).or (second.rootText? m) := by
  obtain ⟨fields, rfl⟩ := h.isRecord first (by simp)
  obtain ⟨fields', rfl⟩ := h.isRecord second (by simp)
  obtain ⟨fields'', rfl⟩ := h.isRecord union (by simp)
  obtain ⟨key, rest, hresolve⟩ := exists_resolve?_record_eq m.path
  rw [rootText?, rootText?, rootText?, hresolve, hresolve, hresolve, h.field?_eq key]
  rcases h.disjoint key with hnone | hnone <;> simp [hnone]

private theorem rootText?_disjoint (h : IsUnion first second union) (m : Marker) :
    first.rootText? m = none ∨ second.rootText? m = none := by
  obtain ⟨fields, rfl⟩ := h.isRecord first (by simp)
  obtain ⟨fields', rfl⟩ := h.isRecord second (by simp)
  obtain ⟨key, rest, hresolve⟩ := exists_resolve?_record_eq m.path
  rw [rootText?, rootText?, hresolve, hresolve]
  rcases h.disjoint key with hnone | hnone
  · exact Or.inl (by simp [hnone])
  · exact Or.inr (by simp [hnone])

section texts
variable (h : IsUnion first second union) {t : String} (ht : Tidy t)
  (hroot : BringsNoBracket .root union.rootText? t)
include h

/-- What a part of the data shows is what the whole shows. -/
theorem bringsNoBracket_parts (hroot : BringsNoBracket .root union.rootText? t) :
    BringsNoBracket .root first.rootText? t ∧ BringsNoBracket .root second.rootText? t := by
  constructor
  · intro m hm shown hshown
    exact hroot m hm shown (by rw [h.rootText?_eq, hshown, Option.some_or])
  · intro m hm shown hshown
    rcases h.rootText?_disjoint m with hnone | hnone
    · exact hroot m hm shown (by rw [h.rootText?_eq, hnone, hshown, Option.none_or])
    · rw [hnone] at hshown
      cases hshown

include ht hroot

theorem fillRoot_eq : union.fillRoot t = second.fillRoot (first.fillRoot t) := by
  obtain ⟨hfirst, hsecond⟩ := h.bringsNoBracket_parts hroot
  have hwhole := (Fills.refl ht).substitute .root hroot
  have hstages := ((Fills.refl ht).substitute .root hfirst).substitute .root hsecond
  apply hwhole.unique hstages
  intro m
  simp only [Scope.only, h.rootText?_eq m]
  split <;> simp

variable {key : String} {item : Data}
  (hitem : BringsNoBracket .element (elementText? key item) t)
include hitem

/-- The copy for an element is made in the first stage. -/
theorem fillRoot_fillElement_eq_of_first :
    union.fillRoot (union.fillRoot (fillElement key item t)) =
      second.fillRoot (first.fillRoot (first.fillRoot (fillElement key item t))) := by
  obtain ⟨hfirst, hsecond⟩ := h.bringsNoBracket_parts hroot
  have hcopy := (Fills.refl ht).substitute .element hitem
  have hwhole := (hcopy.substitute .root hroot).substitute .root hroot
  have hstages := ((hcopy.substitute .root hfirst).substitute .root hfirst).substitute .root hsecond
  apply hwhole.unique hstages
  intro m
  simp only [Scope.only, h.rootText?_eq m]
  cases m.scope <;> cases first.rootText? m <;> cases second.rootText? m <;> simp

/-- The copy for an element is made in the second stage. -/
theorem fillRoot_fillElement_eq_of_second :
    union.fillRoot (union.fillRoot (fillElement key item t)) =
      second.fillRoot (second.fillRoot (fillElement key item (first.fillRoot t))) := by
  obtain ⟨hfirst, hsecond⟩ := h.bringsNoBracket_parts hroot
  have hcopy := (Fills.refl ht).substitute .element hitem
  have hwhole := (hcopy.substitute .root hroot).substitute .root hroot
  have hkept := ((Fills.refl ht).substitute .root hfirst).substitute .element hitem
  have hstages := (hkept.substitute .root hsecond).substitute .root hsecond
  apply hwhole.unique hstages
  intro m
  simp only [Scope.only, h.rootText?_eq m]
  cases m.scope <;> cases first.rootText? m <;> cases second.rootText? m <;> simp

end texts

end IsUnion

/-- Filling from the root leaves the element markers of a tidy text. -/
theorem markersOf_fillRoot {data : Data} {t : String} (ht : Tidy t)
    (hroot : BringsNoBracket .root data.rootText? t) :
    markersOf [.element] (data.fillRoot t) = markersOf [.element] t := by
  have hfill := (Fills.refl ht).substitute .root hroot
  rw [fillRoot, hfill.markersOf_eq, List.filter_eq_self]
  intro m hm
  have hscope := ((mem_markersOf_of_tidy ht).1 hm).2
  simp [Scope.only, hscope]

/-- No element marker comes to a tidy text that an element and the root are filled into. -/
theorem markersOf_copy_subset {data : Data} {t key : String} {item : Data} (ht : Tidy t)
    (hroot : BringsNoBracket .root data.rootText? t)
    (hitem : BringsNoBracket .element (elementText? key item) t) :
    markersOf [.element] (data.fillRoot (data.fillRoot (fillElement key item t))) ⊆
      markersOf [.element] t := by
  have hcopy := (Fills.refl ht).substitute .element hitem
  have hfill := (hcopy.substitute .root hroot).substitute .root hroot
  intro m hm
  rw [fillRoot, fillRoot, fillElement, hfill.markersOf_eq] at hm
  exact (List.mem_filter.1 hm).1

end Data

end SheetTemplate
