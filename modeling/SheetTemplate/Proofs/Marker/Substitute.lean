import SheetTemplate.Marker.Substitute
import SheetTemplate.Proofs.Marker.Scan
/-!
What replacing the markers of a text leaves behind. Replacing the root markers once more changes
nothing if every replacement is inert, that is, neither empty nor with a brace in it: braces in a
replacement may be a marker, and an empty one may join the braces on its two sides.
-/
namespace SheetTemplate

namespace Marker
variable {fill? : Marker → Option String} {m : Marker}

/-- What stands in the place of a marker; a marker without a text stays. -/
def shown (fill? : Marker → Option String) (m : Marker) : List Char :=
  match fill? m with
  | some t => t.toList
  | none => m.raw

theorem shown_of_none (h : fill? m = none) : m.shown fill? = m.raw := by
  rw [shown, h]

theorem shown_of_some {t : String} (h : fill? m = some t) : m.shown fill? = t.toList := by
  rw [shown, h]

theorem front?_root_ne_none {content rest : List Char} (hne : content ≠ [])
    (hout : '}' ∉ content) :
    front? .root ('{' :: '{' :: (content ++ '}' :: '}' :: rest)) ≠ none := by
  have hproper : (⟨.root, content⟩ : Marker).Proper := ⟨by simpa [Scope.admits] using hne, hout⟩
  have hfront := front?_raw_append hproper rest
  simp only [raw, Scope.opening, Scope.closing, List.cons_append, List.append_assoc,
    List.nil_append] at hfront
  rw [hfront]
  exact Option.some_ne_none _

end Marker

/-! ### Filling piece by piece -/

def Piece.fill (f : Marker → Option String) : Piece → List Piece
  | .plain c => [.plain c]
  | .marker m =>
    match f m with
    | some t => t.toList.map .plain
    | none => [.marker m]

theorem filterMap_marker?_cons (m : Marker) (ps : List Piece) :
    (Piece.marker m :: ps).filterMap Piece.marker? = m :: ps.filterMap Piece.marker? := rfl

theorem filterMap_marker?_map_plain (cs : List Char) :
    (cs.map Piece.plain).filterMap Piece.marker? = [] := by
  rw [List.filterMap_map]
  exact List.filterMap_eq_nil_iff.2 fun c _ => rfl

theorem flatMap_chars_map_plain (cs : List Char) :
    (cs.map Piece.plain).flatMap Piece.chars = cs := by
  rw [List.flatMap_map]
  exact List.flatMap_singleton' cs

section fill
variable {f g : Marker → Option String} {m : Marker}

theorem fill_of_none (h : f m = none) : (Piece.marker m).fill f = [.marker m] := by
  rw [Piece.fill, h]

theorem fill_of_some {t : String} (h : f m = some t) :
    (Piece.marker m).fill f = t.toList.map .plain := by
  rw [Piece.fill, h]

private theorem flatMap_fill_map_plain (cs : List Char) :
    (cs.map Piece.plain).flatMap (Piece.fill f) = cs.map .plain := by
  rw [List.flatMap_map]
  exact List.map_eq_flatMap.symm

/-- Two fillings are one, in which the first has precedence. -/
theorem flatMap_fill_fill (ps : List Piece) :
    (ps.flatMap (Piece.fill f)).flatMap (Piece.fill g) =
      ps.flatMap (Piece.fill fun m => (f m).or (g m)) := by
  rw [List.flatMap_assoc]
  congr 1
  funext p
  cases p with
  | plain c => rfl
  | marker m =>
    cases hf : f m with
    | none =>
      rw [fill_of_none hf, List.flatMap_singleton, Piece.fill, Piece.fill, hf, Option.none_or]
    | some t =>
      rw [fill_of_some hf, flatMap_fill_map_plain, fill_of_some (by rw [hf, Option.some_or])]

/-- The markers that are left are those without a text. -/
theorem filterMap_marker?_flatMap_fill (f : Marker → Option String) (ps : List Piece) :
    (ps.flatMap (Piece.fill f)).filterMap Piece.marker? =
      (ps.filterMap Piece.marker?).filter fun m => f m = none := by
  induction ps with
  | nil => rfl
  | cons p ps ih =>
    rw [List.flatMap_cons, List.filterMap_append, ih]
    cases p with
    | plain c => rfl
    | marker m =>
      rw [filterMap_marker?_cons, List.filter_cons]
      cases hf : f m with
      | none =>
        rw [fill_of_none hf]
        rfl
      | some t =>
        rw [fill_of_some hf, filterMap_marker?_map_plain]
        rfl

theorem substituteChars_eq_flatMap_fill (scopes : List Scope) (f : Marker → Option String)
    (cs : List Char) : substituteChars scopes f cs =
      ((pieces scopes cs).flatMap (Piece.fill f)).flatMap Piece.chars := by
  rw [substituteChars, List.flatMap_assoc]
  congr 1
  funext p
  cases p with
  | plain c => rfl
  | marker m =>
    cases hf : f m with
    | none => simp only [hf, fill_of_none hf, List.flatMap_singleton, Piece.chars]
    | some t => simp only [hf, fill_of_some hf, flatMap_chars_map_plain]

end fill

section substituteChars
variable {scopes : List Scope} {s : Scope} {fill? : Marker → Option String} {cs : List Char}

@[simp] theorem substituteChars_nil : substituteChars scopes fill? [] = [] := by
  rw [substituteChars, pieces]
  rfl

theorem substituteChars_cons_of_none {c : Char} (h : Marker.frontOf? scopes (c :: cs) = none) :
    substituteChars scopes fill? (c :: cs) = c :: substituteChars scopes fill? cs := by
  rw [substituteChars, pieces_cons_of_none h]
  rfl

theorem substituteChars_raw_append {m : Marker} (h : m.Proper) (hm : m.scope ∈ scopes)
    (rest : List Char) : substituteChars scopes fill? (m.raw ++ rest) =
      m.shown fill? ++ substituteChars scopes fill? rest := by
  rw [substituteChars, pieces_raw_append h hm]
  rfl

/-- Characters that open no marker stay, and what follows them is replaced on its own. -/
theorem substituteChars_append_of_ne {skipped : List Char} (h : s.opening ∉ skipped)
    (rest : List Char) : substituteChars [s] fill? (skipped ++ rest) =
      skipped ++ substituteChars [s] fill? rest := by
  rw [substituteChars, pieces_append_of_ne h, List.flatMap_append, List.flatMap_map]
  exact congrArg (· ++ _) (List.flatMap_singleton' skipped)

/-- A text without a pair of opening brackets holds no marker. -/
theorem substituteChars_of_not_infix (h : ¬ [s.opening, s.opening] <:+: cs) :
    substituteChars [s] fill? cs = cs := by
  induction cs using pieces_induction [s] with
  | nil => simp
  | plain c cs hnone ih =>
    rw [substituteChars_cons_of_none hnone, ih fun hpair => h (List.infix_cons hpair)]
  | marker m rest hproper hm ih =>
    obtain rfl := List.mem_singleton.1 hm
    exact absurd ⟨[], _, rfl⟩ h

end substituteChars

/-- The text is not empty and holds no brace. -/
def Inert (t : String) : Prop :=
  t.toList ≠ [] ∧ '{' ∉ t.toList ∧ '}' ∉ t.toList

instance (t : String) : Decidable (Inert t) :=
  inferInstanceAs (Decidable (_ ∧ _))

def InertlyFilled (fill? : Marker → Option String) (cs : List Char) : Prop :=
  ∀ m, .marker m ∈ pieces [.root] cs → ∀ t, fill? m = some t → Inert t

namespace InertlyFilled
variable {fill? : Marker → Option String} {c : Char} {cs : List Char} {m : Marker}

theorem of_markersOf {t : String} (h : ∀ m ∈ markersOf [.root] t, ∀ shown, fill? m = some shown →
    Inert shown) : InertlyFilled fill? t.toList :=
  fun m hm => h m (List.mem_filterMap.2 ⟨_, hm, rfl⟩)

theorem tail (h : InertlyFilled fill? (c :: cs))
    (hnone : Marker.frontOf? [.root] (c :: cs) = none) : InertlyFilled fill? cs := by
  intro m hm
  apply h m
  rw [pieces_cons_of_none hnone]
  exact List.mem_cons_of_mem _ hm

theorem of_raw_append {rest : List Char} (h : InertlyFilled fill? (m.raw ++ rest))
    (hproper : m.Proper) (hm : m.scope ∈ [.root]) :
    (∀ t, fill? m = some t → Inert t) ∧ InertlyFilled fill? rest := by
  rw [InertlyFilled, pieces_raw_append hproper hm] at h
  exact ⟨h m List.mem_cons_self, fun m' hm' => h m' (List.mem_cons_of_mem _ hm')⟩

private theorem shown_cases (h : ∀ t, fill? m = some t → Inert t) :
    m.shown fill? = m.raw ∨
      ∃ d ds, m.shown fill? = d :: ds ∧ '{' ∉ d :: ds ∧ '}' ∉ d :: ds := by
  cases ht : fill? m with
  | none => exact Or.inl (Marker.shown_of_none ht)
  | some t =>
    obtain ⟨hne, hopen, hclose⟩ := h t ht
    obtain ⟨d, ds, hd⟩ := List.exists_cons_of_ne_nil hne
    rw [hd] at hopen hclose
    exact Or.inr ⟨d, ds, (Marker.shown_of_some ht).trans hd, hopen, hclose⟩

/-- A closing brace at the front stood there before. -/
theorem closing_front (h : InertlyFilled fill? cs) {rest : List Char}
    (hfront : substituteChars [.root] fill? cs = '}' :: rest) : ∃ rest', cs = '}' :: rest' := by
  induction cs using pieces_induction [.root] with
  | nil =>
    rw [substituteChars_nil] at hfront
    cases hfront
  | plain c cs hnone ih =>
    rw [substituteChars_cons_of_none hnone] at hfront
    obtain ⟨rfl, -⟩ := List.cons.inj hfront
    exact ⟨cs, rfl⟩
  | marker m rest hproper hm ih =>
    rw [substituteChars_raw_append hproper hm] at hfront
    obtain hshown | ⟨d, ds, hshown, -, hclose⟩ := shown_cases (h.of_raw_append hproper hm).1
    · rw [hshown, Marker.raw, List.mem_singleton.1 hm] at hfront
      cases hfront
    · rw [hshown, List.cons_append] at hfront
      obtain ⟨rfl, -⟩ := List.cons.inj hfront
      exact absurd List.mem_cons_self hclose

/-- A pair of closing braces with no closing brace before it stood, like that, there before, and
not at the front if it is not at the front now. -/
theorem closing_pair (h : InertlyFilled fill? cs) {before after : List Char}
    (hpair : substituteChars [.root] fill? cs = before ++ '}' :: '}' :: after)
    (hbefore : '}' ∉ before) : ∃ before' after', cs = before' ++ '}' :: '}' :: after' ∧
      '}' ∉ before' ∧ (before ≠ [] → before' ≠ []) := by
  induction cs using pieces_induction [.root] generalizing before with
  | nil =>
    rw [substituteChars_nil] at hpair
    simp at hpair
  | plain c cs hnone ih =>
    rw [substituteChars_cons_of_none hnone] at hpair
    cases before with
    | nil =>
      obtain ⟨rfl, hrest⟩ := List.cons.inj hpair
      obtain ⟨rest', rfl⟩ := (h.tail hnone).closing_front hrest
      exact ⟨[], rest', rfl, List.not_mem_nil, id⟩
    | cons d before =>
      obtain ⟨rfl, hrest⟩ := List.cons.inj hpair
      simp only [List.mem_cons, not_or] at hbefore
      obtain ⟨before', after', rfl, hout, -⟩ := ih (h.tail hnone) hrest hbefore.2
      refine ⟨c :: before', after', rfl, ?_, fun _ => List.cons_ne_nil _ _⟩
      simpa using ⟨hbefore.1, hout⟩
  | marker m rest hproper hm ih =>
    have hroot : m.scope = .root := List.mem_singleton.1 hm
    have hout := hproper.2
    rw [hroot] at hout
    refine ⟨'{' :: '{' :: m.content, rest, ?_, ?_, fun _ => List.cons_ne_nil _ _⟩
    · simp [Marker.raw, hroot, Scope.opening, Scope.closing]
    · simpa [Scope.closing] using hout

/-- Where no root marker began, none begins after the replacements. -/
theorem front?_substituteChars (h : InertlyFilled fill? (c :: cs))
    (hnone : Marker.front? .root (c :: cs) = none) :
    Marker.front? .root (c :: substituteChars [.root] fill? cs) = none := by
  rw [Option.eq_none_iff_forall_ne_some]
  intro m hm
  obtain ⟨hroot, ⟨hadmits, hout⟩, rest, hrest⟩ := Marker.front?_eq_some hm
  simp only [Marker.raw, hroot, Scope.opening, Scope.closing, List.cons_append,
    List.append_assoc, List.nil_append] at hrest hout
  obtain ⟨rfl, hbehind⟩ := List.cons.inj hrest
  have hne : m.content ≠ [] := by simpa [hroot, Scope.admits] using hadmits
  have htail := h.tail (Marker.frontOf?_singleton .root _ ▸ hnone)
  -- A marker behind the brace would have begun with that brace.
  induction cs using pieces_induction [.root] with
  | nil =>
    rw [substituteChars_nil] at hbehind
    cases hbehind
  | plain c cs hplain _ =>
    rw [substituteChars_cons_of_none hplain] at hbehind
    obtain ⟨rfl, hpair⟩ := List.cons.inj hbehind
    obtain ⟨before, after, rfl, hbefore, hmore⟩ := (htail.tail hplain).closing_pair hpair hout
    exact Marker.front?_root_ne_none (hmore hne) hbefore hnone
  | marker m' rest' hproper hm' _ =>
    have hroot' : m'.scope = .root := List.mem_singleton.1 hm'
    have hout' := hproper.2
    rw [hroot'] at hout'
    have hne' : '{' :: m'.content ≠ [] := List.cons_ne_nil _ _
    apply Marker.front?_root_ne_none hne' (by simpa [Scope.closing] using hout')
    simpa [Marker.raw, hroot', Scope.opening, Scope.closing] using hnone

end InertlyFilled

/-- What inert replacements bring in is scanned as plain characters, and the other markers are found
again. -/
theorem pieces_substituteChars {fill? : Marker → Option String} {cs : List Char}
    (h : InertlyFilled fill? cs) :
    pieces [.root] (substituteChars [.root] fill? cs) =
      (pieces [.root] cs).flatMap (Piece.fill fill?) := by
  induction cs using pieces_induction [.root] with
  | nil =>
    rw [substituteChars_nil, pieces]
    rfl
  | plain c cs hnone ih =>
    have hfront := h.front?_substituteChars (Marker.frontOf?_singleton .root _ ▸ hnone)
    rw [← Marker.frontOf?_singleton] at hfront
    rw [substituteChars_cons_of_none hnone, pieces_cons_of_none hfront, ih (h.tail hnone),
      pieces_cons_of_none hnone]
    rfl
  | marker m rest hproper hm ih =>
    obtain ⟨hfill, hrest⟩ := h.of_raw_append hproper hm
    rw [substituteChars_raw_append hproper hm, pieces_raw_append hproper hm, List.flatMap_cons,
      ← ih hrest]
    cases ht : fill? m with
    | none =>
      rw [Marker.shown_of_none ht, pieces_raw_append hproper hm, fill_of_none ht]
      rfl
    | some t =>
      rw [Marker.shown_of_some ht, pieces_append_of_ne (hfill t ht).2.1, fill_of_some ht]

/-- Text that is brought in by inert replacements is not replaced. -/
theorem substituteChars_idem {fill? : Marker → Option String} {cs : List Char}
    (h : InertlyFilled fill? cs) :
    substituteChars [.root] fill? (substituteChars [.root] fill? cs) =
      substituteChars [.root] fill? cs := by
  simp only [substituteChars_eq_flatMap_fill [.root] fill? (substituteChars [.root] fill? cs),
    pieces_substituteChars h, flatMap_fill_fill, Option.or_self,
    ← substituteChars_eq_flatMap_fill]

end SheetTemplate
