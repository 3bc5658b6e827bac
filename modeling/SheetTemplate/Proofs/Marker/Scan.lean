import SheetTemplate.Marker.Scan
/-!
The scan of a text for markers loses nothing, and it takes a marker wherever one begins.
-/
namespace SheetTemplate

namespace Marker
variable {s : Scope} {scopes : List Scope} {m : Marker} {cs : List Char}

/-- What the scan takes for a marker: the scope admits what stands between the brackets, and no
closing bracket is among it. -/
def Proper (m : Marker) : Prop :=
  m.scope.admits m.content = true ∧ m.scope.closing ∉ m.content

theorem front?_cons_of_ne {c : Char} (h : c ≠ s.opening) (cs : List Char) :
    front? s (c :: cs) = none := by
  cases cs with
  | nil => rfl
  | cons d cs => simp [front?, h]

theorem front?_eq_some (h : front? s cs = some m) :
    m.scope = s ∧ m.Proper ∧ ∃ rest, cs = m.raw ++ rest := by
  unfold front? at h
  split at h
  case h_2 => cases h
  case h_1 a b rest =>
    split at h
    case isFalse => cases h
    case isTrue hopen =>
      obtain ⟨rfl, rfl⟩ := hopen
      dsimp only at h
      split at h
      case h_2 => cases h
      case h_1 c d rest' hdrop =>
        split at h
        case isFalse => cases h
        case isTrue hclose =>
          obtain ⟨rfl, rfl, hadmits⟩ := hclose
          obtain rfl := Option.some.inj h
          refine ⟨rfl, ⟨hadmits, fun hmem => ?_⟩, rest', ?_⟩
          · simpa using List.all_eq_true.1 List.all_takeWhile _ hmem
          · have hsplit := List.takeWhile_append_dropWhile (p := (· ≠ s.closing)) (l := rest)
            rw [hdrop] at hsplit
            simp only [raw, List.cons_append, List.append_assoc, List.nil_append, hsplit]

theorem front?_raw_append (h : m.Proper) (rest : List Char) :
    front? m.scope (m.raw ++ rest) = some m := by
  obtain ⟨hadmits, hclosing⟩ := h
  have hall : ∀ c ∈ m.content, decide (c ≠ m.scope.closing) = true := fun c hc =>
    decide_eq_true fun heq => hclosing (heq ▸ hc)
  have htake : (m.content ++ (m.scope.closing :: m.scope.closing :: rest)).takeWhile
      (· ≠ m.scope.closing) = m.content := by
    rw [List.takeWhile_append_of_pos hall]
    simp
  have hdrop : (m.content ++ (m.scope.closing :: m.scope.closing :: rest)).dropWhile
      (· ≠ m.scope.closing) = m.scope.closing :: m.scope.closing :: rest := by
    rw [List.dropWhile_append_of_pos hall]
    simp
  simp only [raw, List.cons_append, List.append_assoc, List.nil_append, front?, and_self, if_true,
    htake, hdrop, hadmits]

theorem opening_injective {s s' : Scope} (h : s.opening = s'.opening) : s = s' := by
  cases s <;> cases s' <;> first | rfl | cases h

/-- The brackets of one scope open no marker of another. -/
theorem front?_raw_append_of_ne (h : m.scope ≠ s) (rest : List Char) :
    front? s (m.raw ++ rest) = none :=
  front?_cons_of_ne (fun heq => h (opening_injective heq)) _

@[simp] theorem frontOf?_singleton (s : Scope) (cs : List Char) :
    frontOf? [s] cs = front? s cs := by
  rw [frontOf?, List.findSome?_cons]
  cases front? s cs <;> rfl

theorem frontOf?_eq_some (h : frontOf? scopes cs = some m) :
    m.scope ∈ scopes ∧ m.Proper ∧ ∃ rest, cs = m.raw ++ rest := by
  obtain ⟨s, hs, hm⟩ := List.exists_of_findSome?_eq_some h
  obtain ⟨rfl, hproper, hrest⟩ := front?_eq_some hm
  exact ⟨hs, hproper, hrest⟩

theorem frontOf?_eq_none_iff : frontOf? scopes cs = none ↔ ∀ s ∈ scopes, front? s cs = none :=
  List.findSome?_eq_none_iff

theorem frontOf?_raw_append (h : m.Proper) (hm : m.scope ∈ scopes) (rest : List Char) :
    frontOf? scopes (m.raw ++ rest) = some m := by
  induction scopes with
  | nil => cases hm
  | cons s scopes ih =>
    rw [frontOf?, List.findSome?_cons]
    by_cases hs : m.scope = s
    · rw [← hs, front?_raw_append h]
    · rw [front?_raw_append_of_ne hs]
      exact ih ((List.mem_cons.1 hm).resolve_left hs)

end Marker

section pieces
variable {scopes : List Scope} {m : Marker} {cs : List Char}

theorem pieces_cons_of_none {c : Char} (h : Marker.frontOf? scopes (c :: cs) = none) :
    pieces scopes (c :: cs) = .plain c :: pieces scopes cs := by
  rw [pieces, h]

theorem pieces_raw_append (h : m.Proper) (hm : m.scope ∈ scopes) (rest : List Char) :
    pieces scopes (m.raw ++ rest) = .marker m :: pieces scopes rest := by
  have hfront := Marker.frontOf?_raw_append h hm rest
  have hdrop : (m.raw ++ rest).drop m.raw.length = rest := List.drop_left
  cases hcs : m.raw ++ rest with
  | nil =>
    have hpos := m.length_raw_pos
    rw [(List.append_eq_nil_iff.1 hcs).1] at hpos
    cases hpos
  | cons c cs =>
    rw [hcs] at hfront hdrop
    rw [pieces, hfront]
    simp only [hdrop]

/-- Each step of the scan takes a character where no marker begins, or else a marker. -/
theorem pieces_induction (scopes : List Scope) {P : List Char → Prop} (nil : P [])
    (plain : ∀ c cs, Marker.frontOf? scopes (c :: cs) = none → P cs → P (c :: cs))
    (marker : ∀ (m : Marker) rest, m.Proper → m.scope ∈ scopes → P rest → P (m.raw ++ rest))
    (cs : List Char) : P cs := by
  induction cs using pieces.induct scopes with
  | case1 => exact nil
  | case2 c cs hnone ih => exact plain c cs hnone ih
  | case3 c cs m hsome ih =>
    obtain ⟨hm, hproper, rest, hrest⟩ := Marker.frontOf?_eq_some hsome
    rw [hrest, List.drop_left] at ih
    rw [hrest]
    exact marker m rest hproper hm ih

@[simp] theorem chars_pieces (scopes : List Scope) (cs : List Char) :
    (pieces scopes cs).flatMap Piece.chars = cs := by
  induction cs using pieces_induction scopes with
  | nil => rw [pieces]; rfl
  | plain c cs hnone ih =>
    rw [pieces_cons_of_none hnone, List.flatMap_cons, ih]
    rfl
  | marker m rest hproper hm ih =>
    rw [pieces_raw_append hproper hm, List.flatMap_cons, ih]
    rfl

/-- Characters that open no marker of the scope are plain. -/
theorem pieces_append_of_ne {s : Scope} {skipped : List Char} (h : s.opening ∉ skipped)
    (rest : List Char) :
    pieces [s] (skipped ++ rest) = skipped.map .plain ++ pieces [s] rest := by
  induction skipped with
  | nil => rfl
  | cons c skipped ih =>
    simp only [List.mem_cons, not_or] at h
    have hnone : Marker.frontOf? [s] (c :: (skipped ++ rest)) = none := by
      rw [Marker.frontOf?_singleton]
      exact Marker.front?_cons_of_ne (Ne.symm h.1) _
    rw [List.cons_append, pieces_cons_of_none hnone, ih h.2]
    rfl

end pieces

end SheetTemplate
