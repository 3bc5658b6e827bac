import SheetTemplate.Proofs.Marker.Substitute
/-!
Tidy texts: rows of whole markers and of characters that are no brackets. A scan finds in such a
text the pieces that it was put together from. If all that markers show is free of brackets, then
filling replaces piece by piece, and fillings one after the other are one filling.
-/
namespace SheetTemplate

def brackets : List Char := ['{', '}', '[', ']']

def BracketFree (cs : List Char) : Prop :=
  ∀ c ∈ cs, c ∉ brackets

instance (cs : List Char) : Decidable (BracketFree cs) :=
  List.decidableBAll (· ∉ brackets) cs

/-- A character that is no bracket, or a marker with no bracket between its own. -/
def Piece.Clean : Piece → Prop
  | .plain c => c ∉ brackets
  | .marker m => m.scope.admits m.content = true ∧ BracketFree m.content

def Tidy (t : String) : Prop :=
  ∃ ps : List Piece, (∀ p ∈ ps, p.Clean) ∧ ps.flatMap Piece.chars = t.toList

theorem Scope.opening_mem_brackets (s : Scope) : s.opening ∈ brackets := by
  cases s <;> decide

private theorem Scope.closing_mem_brackets (s : Scope) : s.closing ∈ brackets := by
  cases s <;> decide

section clean
variable {scopes : List Scope} {s : Scope} {m : Marker} {c : Char}

theorem proper_of_clean (h : (Piece.marker m).Clean) : m.Proper :=
  ⟨h.1, fun hmem => h.2 _ hmem m.scope.closing_mem_brackets⟩

theorem frontOf?_of_clean (h : (Piece.plain c).Clean) (cs : List Char) :
    Marker.frontOf? scopes (c :: cs) = none := by
  apply Marker.frontOf?_eq_none_iff.2
  intro s _
  apply Marker.front?_cons_of_ne
  rintro rfl
  exact h s.opening_mem_brackets

/-- A marker with no bracket between its own holds no bracket of the other scope. -/
theorem opening_not_mem_raw (h : (Piece.marker m).Clean) (hs : m.scope ≠ s) :
    s.opening ∉ m.raw := by
  have hout : s.opening ∉ m.content := fun hmem => h.2 _ hmem s.opening_mem_brackets
  have hopen : s.opening ≠ m.scope.opening := fun heq => hs (Marker.opening_injective heq.symm)
  have hclose : s.opening ≠ m.scope.closing := by
    cases s <;> cases m.scope <;> decide
  simp [Marker.raw, hout, hopen, hclose]

theorem pieces_flatMap_chars {ps : List Piece} (h : ∀ p ∈ ps, p.Clean) :
    pieces [.root, .element] (ps.flatMap Piece.chars) = ps := by
  induction ps with
  | nil => rw [List.flatMap_nil, pieces]
  | cons p ps ih =>
    obtain ⟨hp, hps⟩ := List.forall_mem_cons.1 h
    rw [List.flatMap_cons]
    cases p with
    | plain c =>
      rw [Piece.chars, List.singleton_append, pieces_cons_of_none (frontOf?_of_clean hp _), ih hps]
    | marker m =>
      have hm : m.scope ∈ [Scope.root, .element] := by cases m.scope <;> decide
      rw [Piece.chars, pieces_raw_append (proper_of_clean hp) hm, ih hps]

end clean

def textPieces (t : String) : List Piece :=
  pieces [.root, .element] t.toList

theorem tidy_iff {t : String} : Tidy t ↔ ∀ p ∈ textPieces t, p.Clean := by
  constructor
  · rintro ⟨ps, hps, hchars⟩
    rw [textPieces, ← hchars, pieces_flatMap_chars hps]
    exact hps
  · intro h
    exact ⟨textPieces t, h, chars_pieces _ _⟩

instance (p : Piece) : Decidable p.Clean :=
  match p with
  | .plain _ => inferInstanceAs (Decidable (_ ∉ _))
  | .marker _ => inferInstanceAs (Decidable (_ ∧ _))

instance (t : String) : Decidable (Tidy t) :=
  decidable_of_iff _ tidy_iff.symm

private theorem eq_of_textPieces_eq {t u : String} (h : textPieces t = textPieces u) : t = u := by
  have hchars := congrArg (fun ps => ps.flatMap Piece.chars) h
  simp only [textPieces, chars_pieces] at hchars
  exact String.toList_inj.1 hchars

/-! ### Filling tidy texts -/

def Scope.only (s : Scope) (fill? : Marker → Option String) (m : Marker) : Option String :=
  if m.scope = s then fill? m else none

section fill
variable {f g : Marker → Option String} {ps : List Piece} {m : Marker}

private theorem marker_mem_flatMap_fill :
    .marker m ∈ ps.flatMap (Piece.fill f) ↔ .marker m ∈ ps ∧ f m = none := by
  rw [List.mem_flatMap]
  constructor
  · rintro ⟨p, hp, hm⟩
    cases p with
    | plain c => simp [Piece.fill] at hm
    | marker m' =>
      cases hf : f m' with
      | none =>
        rw [fill_of_none hf, List.mem_singleton] at hm
        obtain rfl := Piece.marker.inj hm
        exact ⟨hp, hf⟩
      | some t =>
        rw [fill_of_some hf] at hm
        simp at hm
  · rintro ⟨hm, hf⟩
    exact ⟨_, hm, by rw [fill_of_none hf]; exact List.mem_singleton_self _⟩

private theorem clean_flatMap_fill (h : ∀ p ∈ ps, p.Clean)
    (hf : ∀ m, .marker m ∈ ps → ∀ t, f m = some t → BracketFree t.toList) :
    ∀ p ∈ ps.flatMap (Piece.fill f), p.Clean := by
  intro p hp
  obtain ⟨q, hq, hp⟩ := List.mem_flatMap.1 hp
  cases q with
  | plain c =>
    obtain rfl := List.mem_singleton.1 hp
    exact h _ hq
  | marker m =>
    cases ht : f m with
    | none =>
      rw [fill_of_none ht, List.mem_singleton] at hp
      rw [hp]
      exact h _ hq
    | some t =>
      rw [fill_of_some ht] at hp
      obtain ⟨c, hc, rfl⟩ := List.mem_map.1 hp
      exact hf m hq t ht c hc

end fill

section scan
variable {ps : List Piece} (h : ∀ p ∈ ps, p.Clean) (s : Scope)
include h

/-- The scan for one scope finds the markers of that scope. -/
theorem filterMap_pieces_flatMap_chars :
    (pieces [s] (ps.flatMap Piece.chars)).filterMap Piece.marker? =
      (ps.filterMap Piece.marker?).filter fun m => m.scope = s := by
  induction ps with
  | nil =>
    rw [List.flatMap_nil, pieces]
    rfl
  | cons p ps ih =>
    obtain ⟨hp, hps⟩ := List.forall_mem_cons.1 h
    rw [List.flatMap_cons]
    cases p with
    | plain c =>
      rw [Piece.chars, List.singleton_append, pieces_cons_of_none (frontOf?_of_clean hp _)]
      exact ih hps
    | marker m =>
      rw [Piece.chars, filterMap_marker?_cons]
      by_cases hs : m.scope = s
      · rw [pieces_raw_append (proper_of_clean hp) (List.mem_singleton.2 hs),
          filterMap_marker?_cons, List.filter_cons_of_pos (by simpa using hs), ih hps]
      · rw [pieces_append_of_ne (opening_not_mem_raw hp hs), List.filterMap_append,
          List.filter_cons_of_neg (by simpa using hs), filterMap_marker?_map_plain, ih hps,
          List.nil_append]

/-- Replacing the markers of one scope fills the pieces. -/
theorem substituteChars_flatMap_chars (fill? : Marker → Option String) :
    substituteChars [s] fill? (ps.flatMap Piece.chars) =
      (ps.flatMap (Piece.fill (s.only fill?))).flatMap Piece.chars := by
  induction ps with
  | nil => simp
  | cons p ps ih =>
    obtain ⟨hp, hps⟩ := List.forall_mem_cons.1 h
    rw [List.flatMap_cons, List.flatMap_cons, List.flatMap_append, ← ih hps]
    cases p with
    | plain c => exact substituteChars_cons_of_none (frontOf?_of_clean hp _)
    | marker m =>
      by_cases hs : m.scope = s
      · have honly : s.only fill? m = fill? m := if_pos hs
        rw [Piece.chars, substituteChars_raw_append (proper_of_clean hp) (List.mem_singleton.2 hs)]
        cases ht : fill? m with
        | none =>
          rw [Marker.shown_of_none ht, fill_of_none (honly.trans ht), List.flatMap_singleton]
          rfl
        | some t =>
          rw [Marker.shown_of_some ht, fill_of_some (honly.trans ht), flatMap_chars_map_plain]
      · rw [Piece.chars, substituteChars_append_of_ne (opening_not_mem_raw hp hs),
          fill_of_none (if_neg hs), List.flatMap_singleton]
        rfl

end scan

/-- The markers of a scope in a tidy text are those pieces of it. -/
theorem markersOf_of_tidy {t : String} (h : Tidy t) (s : Scope) :
    markersOf [s] t = ((textPieces t).filterMap Piece.marker?).filter fun m => m.scope = s := by
  rw [← filterMap_pieces_flatMap_chars (tidy_iff.1 h), textPieces, chars_pieces]
  rfl

theorem mem_markersOf_of_tidy {t : String} (h : Tidy t) {s : Scope} {m : Marker} :
    m ∈ markersOf [s] t ↔ .marker m ∈ textPieces t ∧ m.scope = s := by
  rw [markersOf_of_tidy h, List.mem_filter, decide_eq_true_eq, List.mem_filterMap]
  refine and_congr_left fun _ => ⟨?_, fun hm => ⟨_, hm, rfl⟩⟩
  rintro ⟨p, hp, hm⟩
  cases p with
  | plain c => cases hm
  | marker m' =>
    obtain rfl := Option.some.inj hm
    exact hp

/-- The second text is the first with each marker replaced for which there is a text. Both are
tidy. -/
structure Fills (f : Marker → Option String) (t u : String) : Prop where
  source : Tidy t
  tidy : Tidy u
  pieces_eq : textPieces u = (textPieces t).flatMap (Piece.fill f)

namespace Fills
variable {f g : Marker → Option String} {t u v : String}

theorem refl (h : Tidy t) : Fills (fun _ => none) t t := by
  refine ⟨h, h, ?_⟩
  have hfill : Piece.fill (fun _ => none) = fun p => [p] := by
    funext p
    cases p <;> rfl
  rw [hfill, List.flatMap_singleton']

/-- One more filling, with texts that are free of brackets. -/
theorem substitute (h : Fills f t u) (s : Scope) {fill? : Marker → Option String}
    (hfill : ∀ m ∈ markersOf [s] t, ∀ shown, fill? m = some shown → BracketFree shown.toList) :
    Fills (fun m => (f m).or (s.only fill? m)) t (substitute [s] fill? u) := by
  have hclean : ∀ p ∈ (textPieces u).flatMap (Piece.fill (s.only fill?)), p.Clean := by
    apply clean_flatMap_fill (tidy_iff.1 h.tidy)
    intro m hm shown hshown
    rw [h.pieces_eq, marker_mem_flatMap_fill] at hm
    obtain ⟨hs, hshown⟩ := Option.ite_none_right_eq_some.1 hshown
    exact hfill m ((mem_markersOf_of_tidy h.source).2 ⟨hm.1, hs⟩) shown hshown
  have hchars : (SheetTemplate.substitute [s] fill? u).toList =
      ((textPieces u).flatMap (Piece.fill (s.only fill?))).flatMap Piece.chars := by
    rw [← substituteChars_flatMap_chars (tidy_iff.1 h.tidy), textPieces, chars_pieces,
      SheetTemplate.substitute, String.toList_ofList]
  refine ⟨h.source, ⟨_, hclean, hchars.symm⟩, ?_⟩
  rw [textPieces, hchars, pieces_flatMap_chars hclean, h.pieces_eq, flatMap_fill_fill]

theorem unique (h : Fills f t u) (h' : Fills g t v) (hfg : ∀ m, f m = g m) : u = v := by
  apply eq_of_textPieces_eq
  rw [h.pieces_eq, h'.pieces_eq, funext hfg]

/-- What is left of the markers of a scope. -/
theorem markersOf_eq (h : Fills f t u) (s : Scope) :
    markersOf [s] u = (markersOf [s] t).filter fun m => f m = none := by
  rw [markersOf_of_tidy h.tidy, markersOf_of_tidy h.source, h.pieces_eq,
    filterMap_marker?_flatMap_fill, List.filter_filter, List.filter_filter]
  congr 1
  funext m
  exact Bool.and_comm _ _

end Fills

end SheetTemplate
