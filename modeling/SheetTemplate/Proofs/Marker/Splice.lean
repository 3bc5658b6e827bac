import SheetTemplate.Proofs.Marker.Grammar
import SheetTemplate.Proofs.Marker.Substitute
/-!
Filling as a splice. A text is cut at its leftmost markers of a scope in one way only, and filling
puts into the place of each of them what it shows; everything between them stays.
-/
namespace SheetTemplate

/-- A text cut at markers: what stands before the first of them, and each marker with what stands
between it and the next. -/
structure Splice where
  gap : List Char
  rest : List (Marker × List Char)

namespace Splice

def chars (shown : Marker → List Char) (p : Splice) : List Char :=
  p.gap ++ p.rest.flatMap fun e => shown e.1 ++ e.2

def ofPieces : List Piece → Splice
  | [] => ⟨[], []⟩
  | .plain c :: ps => ⟨c :: (ofPieces ps).gap, (ofPieces ps).rest⟩
  | .marker m :: ps => ⟨[], (m, (ofPieces ps).gap) :: (ofPieces ps).rest⟩

end Splice

/-- The cut of a text at its leftmost markers of a scope. In the last gap there is no marker; no
marker begins before the first one, and behind that one the cut goes on in the same way. -/
inductive Leftmost (s : Scope) : List Char → Splice → Prop
  | last {gap : List Char}
      (hnone : ∀ before content raw after, gap = before ++ (raw ++ after) →
        ¬ IsMarker s content raw) : Leftmost s gap ⟨gap, []⟩
  | next {gap rest : List Char} {m : Marker} {p : Splice} (hscope : m.scope = s)
      (hmarker : IsMarker s m.content m.raw)
      (hfirst : ∀ before content raw after, gap ++ (m.raw ++ rest) = before ++ (raw ++ after) →
        IsMarker s content raw → gap.length ≤ before.length)
      (hrest : Leftmost s rest p) :
      Leftmost s (gap ++ (m.raw ++ rest)) ⟨gap, (m, p.gap) :: p.rest⟩

/-- What is shown in the place of an element marker: the value of its property or, without one, the
item itself, and the marker as it was in every other case. -/
inductive ElementShows (key : String) (item : Data) (m : Marker) : List Char → Prop
  | property {name property : List Char} {value : Data}
      (hcontent : m.content = name ++ '.' :: property) (hdot : '.' ∉ name)
      (hkey : trimmed name = key) (hvalue : item.resolve? (trimmed property) = some value) :
      ElementShows key item m value.render.toList
  | bare (hdot : '.' ∉ m.content) (hkey : trimmed m.content = key)
      (hitem : item.isContainer = false) : ElementShows key item m item.render.toList
  | foreign (hkey : trimmed (m.content.takeWhile (· ≠ '.')) ≠ key) : ElementShows key item m m.raw
  | unresolved {name property : List Char} (hcontent : m.content = name ++ '.' :: property)
      (hdot : '.' ∉ name) (hvalue : item.resolve? (trimmed property) = none) :
      ElementShows key item m m.raw
  | container (hdot : '.' ∉ m.content) (hitem : item.isContainer = true) :
      ElementShows key item m m.raw

/-- What is shown in the place of a root marker: the value that its path leads to, or the marker as
it was. -/
inductive RootShows (root : Data) (m : Marker) : List Char → Prop
  | resolved {value : Data} (hvalue : root.resolve? (trimmed m.content) = some value) :
      RootShows root m value.render.toList
  | unresolved (hvalue : root.resolve? (trimmed m.content) = none) : RootShows root m m.raw

/-- The text `t'` is `t` with something shown in the place of each leftmost marker of a scope. -/
structure Spliced (s : Scope) (Shows : Marker → List Char → Prop) (t t' : String) : Prop where
  /-- The text has one cut at its leftmost markers; the gaps stay, and in the place of each marker
  stands what is shown for it. -/
  splice : ∃ p shown, (∀ q, Leftmost s t.toList q ↔ q = p) ∧ t.toList = p.chars Marker.raw ∧
    (∀ e ∈ p.rest, Shows e.1 (shown e.1)) ∧ t'.toList = p.chars shown
  /-- If all markers are shown as they were, so is the text. -/
  unresolved : (∀ p, Leftmost s t.toList p → ∀ e ∈ p.rest, Shows e.1 e.1.raw) → t' = t
  /-- A text without a pair of opening brackets need not be scanned. -/
  unscanned : ¬ [s.opening, s.opening] <:+: t.toList → t' = t

/-! ### Leftmost cuts -/

section cuts
variable {s : Scope} {p : Splice}

private theorem leftmost_nil_iff : Leftmost s [] p ↔ p = ⟨[], []⟩ := by
  constructor
  · intro h
    generalize hcs : ([] : List Char) = cs at h
    cases h with
    | last =>
      subst hcs
      rfl
    | next hscope hmarker =>
      have hraw := hmarker.raw_ne_nil
      simp [hraw] at hcs
  · rintro rfl
    refine .last fun before content raw after heq hmarker => ?_
    simp [hmarker.raw_ne_nil] at heq

theorem IsMarker.front?_ne_none {content raw : List Char} (h : IsMarker s content raw)
    (after : List Char) : Marker.front? s (raw ++ after) ≠ none := by
  obtain ⟨hproper, rfl⟩ := isMarker_iff.1 h
  rw [Marker.front?_raw_append hproper]
  exact Option.some_ne_none _

/-- Where no marker begins, the first gap goes on. -/
theorem leftmost_cons_iff {c : Char} {cs : List Char} (hnone : Marker.front? s (c :: cs) = none) :
    Leftmost s (c :: cs) p ↔ ∃ q, Leftmost s cs q ∧ p = ⟨c :: q.gap, q.rest⟩ := by
  constructor
  · intro h
    generalize hcs : c :: cs = all at h
    cases h with
    | last hout =>
      subst hcs
      exact ⟨_, .last fun before content raw after heq =>
        hout (c :: before) content raw after (by rw [heq]; rfl), rfl⟩
    | @next gap rest m p hscope hmarker hfirst hrest =>
      cases gap with
      | nil => exact absurd (hcs ▸ hnone) (hmarker.front?_ne_none rest)
      | cons d gap =>
        obtain ⟨rfl, rfl⟩ := List.cons.inj hcs
        refine ⟨_, .next hscope hmarker (fun before content raw after heq hm => ?_) hrest, rfl⟩
        exact Nat.le_of_succ_le_succ
          (hfirst (c :: before) content raw after (congrArg (c :: ·) heq) hm)
  · rintro ⟨q, hq, rfl⟩
    -- A marker that begins in the longer text begins behind its first character.
    have hbehind {before content raw after : List Char} (heq : c :: cs = before ++ (raw ++ after))
        (hm : IsMarker s content raw) :
        ∃ before', before = c :: before' ∧ cs = before' ++ (raw ++ after) := by
      cases before with
      | nil => exact absurd (heq ▸ hnone) (hm.front?_ne_none after)
      | cons d before =>
        obtain ⟨rfl, htail⟩ := List.cons.inj heq
        exact ⟨before, rfl, htail⟩
    cases hq with
    | last hout =>
      refine .last fun before content raw after heq hm => ?_
      obtain ⟨before, -, htail⟩ := hbehind heq hm
      exact hout before content raw after htail hm
    | @next gap rest m p hscope hmarker hfirst hrest =>
      show Leftmost s ((c :: gap) ++ (m.raw ++ rest)) ⟨c :: gap, (m, p.gap) :: p.rest⟩
      refine .next hscope hmarker (fun before content raw after heq hm => ?_) hrest
      obtain ⟨before, rfl, htail⟩ := hbehind heq hm
      exact Nat.succ_le_succ (hfirst before content raw after htail hm)

/-- A marker at the front is the first. -/
theorem leftmost_raw_append_iff {m : Marker} {rest : List Char} (hproper : m.Proper)
    (hscope : m.scope = s) : Leftmost s (m.raw ++ rest) p ↔
      ∃ q, Leftmost s rest q ∧ p = ⟨[], (m, q.gap) :: q.rest⟩ := by
  subst hscope
  have hself : IsMarker m.scope m.content m.raw := isMarker_iff.2 ⟨hproper, rfl⟩
  constructor
  · intro h
    generalize hcs : m.raw ++ rest = all at h
    cases h with
    | last hout => exact absurd hself (hout [] m.content m.raw rest hcs.symm)
    | @next gap rest' m' p hscope hmarker hfirst hrest =>
      obtain rfl : gap = [] :=
        List.eq_nil_of_length_eq_zero (Nat.le_zero.1 (hfirst [] _ _ rest hcs.symm hself))
      have hproper' : m'.Proper := (isMarker_iff.1 (hscope ▸ hmarker)).1
      have hfront := Marker.front?_raw_append hproper' rest'
      rw [hscope, ← List.nil_append (m'.raw ++ rest'), ← hcs, Marker.front?_raw_append hproper,
        Option.some.injEq] at hfront
      subst hfront
      obtain rfl := List.append_cancel_left hcs
      exact ⟨p, hrest, rfl⟩
  · rintro ⟨q, hq, rfl⟩
    rw [← List.nil_append (m.raw ++ rest)]
    exact .next rfl hself (fun _ _ _ _ _ _ => Nat.zero_le _) hq

/-- The scan finds the leftmost markers, and there is no other cut at them. -/
theorem leftmost_iff (s : Scope) (cs : List Char) (p : Splice) :
    Leftmost s cs p ↔ p = .ofPieces (pieces [s] cs) := by
  induction cs using pieces_induction [s] generalizing p with
  | nil =>
    rw [leftmost_nil_iff, pieces]
    rfl
  | plain c cs hnone ih =>
    rw [leftmost_cons_iff (Marker.frontOf?_singleton s _ ▸ hnone), pieces_cons_of_none hnone]
    simp only [ih, exists_eq_left]
    rfl
  | marker m rest hproper hm ih =>
    rw [leftmost_raw_append_iff hproper (List.mem_singleton.1 hm), pieces_raw_append hproper hm]
    simp only [ih, exists_eq_left]
    rfl

private theorem Leftmost.scope_eq {cs : List Char} (h : Leftmost s cs p) :
    ∀ e ∈ p.rest, e.1.scope = s := by
  induction h with
  | last => simp
  | next hscope hmarker hfirst hrest ih => exact List.forall_mem_cons.2 ⟨hscope, ih⟩

end cuts

/-! ### Splices of pieces -/

theorem chars_ofPieces (shown : Marker → List Char) (ps : List Piece) :
    (Splice.ofPieces ps).chars shown = ps.flatMap fun
      | .plain c => [c]
      | .marker m => shown m := by
  induction ps with
  | nil => rfl
  | cons q ps ih =>
    rw [List.flatMap_cons, ← ih]
    cases q with
    | plain c => rfl
    | marker m =>
      simp only [Splice.ofPieces, Splice.chars, List.flatMap_cons, List.nil_append,
        List.append_assoc]

private theorem chars_raw_ofPieces (ps : List Piece) :
    (Splice.ofPieces ps).chars Marker.raw = ps.flatMap Piece.chars := by
  rw [chars_ofPieces]
  exact List.flatMap_congr fun q _ => by cases q <;> rfl

private theorem chars_congr {shown shown' : Marker → List Char} {p : Splice}
    (h : ∀ e ∈ p.rest, shown e.1 = shown' e.1) : p.chars shown = p.chars shown' := by
  rw [Splice.chars, Splice.chars, List.flatMap_congr fun e he => by rw [h e he]]

private theorem substituteChars_eq_chars (scopes : List Scope) (fill? : Marker → Option String)
    (cs : List Char) : substituteChars scopes fill? cs =
      (Splice.ofPieces (pieces scopes cs)).chars (Marker.shown fill?) := by
  rw [chars_ofPieces]
  rfl

/-- Replacing markers is a splice, whatever determines what they are replaced by. -/
theorem spliced_substitute {s : Scope} {fill? : Marker → Option String}
    {Shows : Marker → List Char → Prop}
    (hshows : ∀ m, m.scope = s → ∀ r, Shows m r ↔ r = m.shown fill?) (t : String) :
    Spliced s Shows t (substitute [s] fill? t) := by
  have hscope : ∀ e ∈ (Splice.ofPieces (pieces [s] t.toList)).rest, e.1.scope = s :=
    ((leftmost_iff s _ _).2 rfl).scope_eq
  have htext : t.toList = (Splice.ofPieces (pieces [s] t.toList)).chars Marker.raw := by
    simp [chars_raw_ofPieces]
  have hfilled : (substitute [s] fill? t).toList =
      (Splice.ofPieces (pieces [s] t.toList)).chars (Marker.shown fill?) := by
    rw [substitute, String.toList_ofList, substituteChars_eq_chars]
  refine ⟨⟨_, Marker.shown fill?, leftmost_iff s t.toList, htext, fun e he => ?_, hfilled⟩, ?_, ?_⟩
  · exact (hshows e.1 (hscope e he) _).2 rfl
  · intro hraw
    have hsame := hraw _ ((leftmost_iff s _ _).2 rfl)
    apply String.toList_injective
    rw [hfilled, chars_congr fun e he => ((hshows e.1 (hscope e he) _).1 (hsame e he)).symm,
      ← htext]
  · intro hpair
    rw [substitute, substituteChars_of_not_infix hpair, String.ofList_toList]

/-! ### What markers show -/

private theorem rootShows_iff {root : Data} {m : Marker} (hscope : m.scope = .root)
    (r : List Char) :
    RootShows root m r ↔ r = m.shown root.rootText? := by
  have hpath : m.path = trimmed m.content := by
    rw [Marker.path, hscope]
    rfl
  have htext : root.rootText? m = (root.resolve? (trimmed m.content)).map Data.render := by
    rw [Data.rootText?, hpath]
  constructor
  · rintro (hvalue | hvalue)
    · exact (Marker.shown_of_some (by rw [htext, hvalue, Option.map_some])).symm
    · exact (Marker.shown_of_none (by rw [htext, hvalue, Option.map_none])).symm
  · rintro rfl
    cases hvalue : root.resolve? (trimmed m.content) with
    | some value =>
      rw [Marker.shown_of_some (by rw [htext, hvalue, Option.map_some])]
      exact .resolved hvalue
    | none =>
      rw [Marker.shown_of_none (by rw [htext, hvalue, Option.map_none])]
      exact .unresolved hvalue

section element
variable {key : String} {item : Data} {m : Marker}

theorem elementText?_of_foreign (h : m.key ≠ key) : item.elementText? key m = none :=
  if_neg h

theorem elementText?_of_property {property : String} (hkey : m.key = key)
    (h : m.property? = some property) :
    item.elementText? key m = (item.resolve? property).map Data.render := by
  rw [Data.elementText?, if_pos hkey, h]

theorem elementText?_of_bare (hkey : m.key = key) (h : m.property? = none) :
    item.elementText? key m = if item.isContainer then none else some item.render := by
  rw [Data.elementText?, if_pos hkey, h]

/-- One thing is shown for an element marker, the text that filling takes for it. -/
theorem ElementShows.eq_shown {r : List Char} (h : ElementShows key item m r) :
    r = m.shown (item.elementText? key) := by
  symm
  cases h with
  | property hcontent hdot hkey hvalue =>
    obtain ⟨hname, hproperty⟩ := Marker.parts_of_dotted hcontent hdot
    apply Marker.shown_of_some
    rw [elementText?_of_property (hname.trans hkey) hproperty, hvalue, Option.map_some]
  | bare hdot hkey hitem =>
    obtain ⟨hname, hproperty⟩ := Marker.parts_of_bare hdot
    apply Marker.shown_of_some
    rw [elementText?_of_bare (hname.trans hkey) hproperty, hitem, if_neg Bool.false_ne_true]
  | foreign hkey => exact Marker.shown_of_none (elementText?_of_foreign hkey)
  | unresolved hcontent hdot hvalue =>
    obtain ⟨-, hproperty⟩ := Marker.parts_of_dotted hcontent hdot
    apply Marker.shown_of_none
    by_cases hkey : m.key = key
    · rw [elementText?_of_property hkey hproperty, hvalue, Option.map_none]
    · exact elementText?_of_foreign hkey
  | container hdot hitem =>
    obtain ⟨-, hproperty⟩ := Marker.parts_of_bare hdot
    apply Marker.shown_of_none
    by_cases hkey : m.key = key
    · rw [elementText?_of_bare hkey hproperty, hitem, if_pos rfl]
    · exact elementText?_of_foreign hkey

/-- Something is shown for every element marker. -/
theorem exists_elementShows (key : String) (item : Data) (m : Marker) :
    ∃ r, ElementShows key item m r := by
  by_cases hkey : m.key = key
  case neg => exact ⟨_, .foreign hkey⟩
  by_cases hdot : '.' ∈ m.content
  · obtain ⟨name, property, hcontent, hname⟩ := List.eq_append_cons_of_mem hdot
    obtain ⟨hpart, -⟩ := Marker.parts_of_dotted hcontent hname
    cases hvalue : item.resolve? (trimmed property) with
    | some value => exact ⟨_, .property hcontent hname (hpart ▸ hkey) hvalue⟩
    | none => exact ⟨_, .unresolved hcontent hname hvalue⟩
  · obtain ⟨hpart, -⟩ := Marker.parts_of_bare hdot
    cases hitem : item.isContainer with
    | false => exact ⟨_, .bare hdot (hpart ▸ hkey) hitem⟩
    | true => exact ⟨_, .container hdot hitem⟩

private theorem elementShows_iff (r : List Char) :
    ElementShows key item m r ↔ r = m.shown (item.elementText? key) := by
  constructor
  · exact ElementShows.eq_shown
  · rintro rfl
    obtain ⟨r, hr⟩ := exists_elementShows key item m
    exact hr.eq_shown ▸ hr

end element

/-- Filling element markers or root markers is a splice at the leftmost of them. -/
theorem fill_spliced (key : String) (item root : Data) (t : String) :
    Spliced .element (ElementShows key item) t (item.fillElement key t) ∧
      Spliced .root (RootShows root) t (root.fillRoot t) :=
  ⟨spliced_substitute (fun _ _ => elementShows_iff) t,
    spliced_substitute (fun _ => rootShows_iff) t⟩

/-- Markers of other keys and of other scopes stay, white space included, and what is brought in is
not read again. -/
example : (Data.record [("n", .text "[[k.n]]")]).fillElement "k"
    "[[ k . n ]] [[j. n]] {{n}} [[k]]" = "[[k.n]] [[j. n]] {{n}} [[k]]" := by
  decide +kernel

end SheetTemplate
