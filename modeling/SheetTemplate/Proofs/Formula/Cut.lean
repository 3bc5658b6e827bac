import SheetTemplate.Proofs.Formula.Live
/-!
Which tokens a formula is cut into, said without the cutting. A list of tokens is the cut of its own
characters if each token fits what follows it, and other numerals in place of some leave this so.
-/
namespace SheetTemplate.Formula

/-! ### Literals -/

/-- Characters whose quotes stand in adjacent pairs. -/
inductive Paired : List Char → Prop
  | nil : Paired []
  | other {c : Char} {cs : List Char} (hc : c ≠ '"') (h : Paired cs) : Paired (c :: cs)
  | quotes {cs : List Char} (h : Paired cs) : Paired ('"' :: '"' :: cs)

/-- A literal that was opened ends somewhere, unless no quote follows at all. -/
theorem inside?_eq_none_iff {cs : List Char} : inside? cs = none ↔ '"' ∉ cs := by
  fun_induction inside? cs with
  | case1 => simp
  | case2 rest inside hrest ih => simp
  | case3 rest hrest ih => simp
  | case4 rest => simp
  | case5 c rest hnot hc ih => simp [ih, Ne.symm hc]

/-- A literal ends at the first quote that is not the first of a pair. Where no quote comes later
at all, it ends at the first of a pair too. -/
theorem inside?_eq_some_iff {cs inside : List Char} : inside? cs = some inside ↔
    Paired inside ∧ ∃ rest, cs = inside ++ '"' :: rest ∧
      ∀ tail, rest = '"' :: tail → '"' ∉ tail := by
  constructor
  · intro h
    fun_induction inside? cs generalizing inside with
    | case1 => cases h
    | case2 rest inside' hrest ih =>
      cases h
      obtain ⟨hpaired, tail, rfl, hstop⟩ := ih hrest
      exact ⟨.quotes hpaired, tail, rfl, hstop⟩
    | case3 rest hrest ih =>
      cases h
      refine ⟨.nil, '"' :: rest, rfl, fun tail htail => ?_⟩
      cases htail
      exact inside?_eq_none_iff.1 hrest
    | case4 rest hnot =>
      cases h
      exact ⟨.nil, rest, rfl, fun tail htail => absurd htail (hnot tail rfl)⟩
    | case5 c rest hnot hc ih =>
      obtain ⟨inside', hrest, rfl⟩ := Option.map_eq_some_iff.1 h
      obtain ⟨hpaired, tail, rfl, hstop⟩ := ih hrest
      exact ⟨.other hc hpaired, tail, rfl, hstop⟩
  · rintro ⟨hpaired, rest, rfl, hstop⟩
    induction hpaired with
    | nil =>
      cases rest with
      | nil => rfl
      | cons c tail =>
        by_cases hc : c = '"'
        · subst hc
          simp only [List.nil_append, inside?, inside?_eq_none_iff.2 (hstop tail rfl)]
        · simp [inside?, hc]
    | other hc h ih =>
      rw [List.cons_append, inside?]
      · simp [hc, ih]
      · intro tail hquote
        exact absurd hquote hc
    | quotes h ih => simp only [List.cons_append, inside?, ih]

/-! ### Candidates for references -/

theorem isCapital_eq_false_of_isDecimalDigit {c : Char} (h : Text.isDecimalDigit c = true) :
    Text.isCapital c = false := by
  have hblocks : ∀ n < 91, 65 ≤ n →
      Text.digitBlocks.any (fun first => first ≤ n && n < first + 10) = false := by decide
  cases hc : Text.isCapital c with
  | false => rfl
  | true =>
    obtain ⟨hlow, hhigh⟩ := Text.bounds_of_isCapital hc
    rw [Text.isDecimalDigit, hblocks c.toNat (by omega) hlow] at h
    cases h

/-- The characters begin with letters and digits in the form of a candidate. -/
def BeginsCandidate (cs : List Char) : Prop :=
  (1 ≤ (cs.takeWhile Text.isCapital).length ∧ (cs.takeWhile Text.isCapital).length ≤ 3) ∧
    (cs.dropWhile Text.isCapital).head?.any Text.isDecimalDigit = true

theorem referenceAfter?_eq_none_iff {dollar : Bool} {cs : List Char} :
    referenceAfter? dollar cs = none ↔ ¬ BeginsCandidate cs := by
  have hdigits (ds : List Char) :
      (ds.takeWhile Text.isDecimalDigit).isEmpty = false ↔
        ds.head?.any Text.isDecimalDigit = true := by
    cases ds with
    | nil => simp
    | cons d ds => cases hd : Text.isDecimalDigit d <;> simp [hd]
  simp only [referenceAfter?, BeginsCandidate, ← hdigits, Bool.and_eq_true, decide_eq_true_eq,
    Bool.not_eq_true', ite_eq_right_iff, reduceCtorEq, imp_false]

theorem front?_eq_none_iff {c : Char} {cs : List Char} : front? (c :: cs) = none ↔
    if c = '"' then '"' ∉ cs
    else if c = '$' then ¬ BeginsCandidate cs else ¬ BeginsCandidate (c :: cs) := by
  rw [front?]
  split
  · rw [Option.map_eq_none_iff, inside?_eq_none_iff]
  · split <;> exact referenceAfter?_eq_none_iff

private theorem front?_literal_append {inside rest : List Char} (hpaired : Paired inside)
    (hstop : ∀ tail, rest = '"' :: tail → '"' ∉ tail) :
    front? ((Token.literal inside).chars ++ rest) = some (.literal inside) := by
  have hinside : inside? (inside ++ '"' :: rest) = some inside :=
    inside?_eq_some_iff.2 ⟨hpaired, rest, rfl, hstop⟩
  simp [Token.chars, front?, hinside]

/-- A candidate takes all its digits. -/
theorem front?_reference_append {dollar : Bool} {letters digits rest : List Char}
    (hproper : (Token.reference dollar letters digits).Proper)
    (hstop : ∀ c ∈ rest.head?, Text.isDecimalDigit c = false) :
    front? ((Token.reference dollar letters digits).chars ++ rest) =
      some (.reference dollar letters digits) := by
  obtain ⟨hlow, hhigh, hletters, hne, hdigits⟩ := hproper
  obtain ⟨l, ls, rfl⟩ := List.exists_cons_of_ne_nil (List.ne_nil_of_length_pos hlow)
  obtain ⟨d, ds, rfl⟩ := List.exists_cons_of_ne_nil hne
  have hd : Text.isCapital d = false :=
    isCapital_eq_false_of_isDecimalDigit (hdigits d List.mem_cons_self)
  have htake : (l :: ls ++ (d :: ds ++ rest)).takeWhile Text.isCapital = l :: ls := by
    rw [List.takeWhile_append_of_pos hletters]
    simp [hd]
  have hdrop : (l :: ls ++ (d :: ds ++ rest)).dropWhile Text.isCapital = d :: ds ++ rest := by
    rw [List.dropWhile_append_of_pos hletters]
    simp [hd]
  have hrun : (d :: ds ++ rest).takeWhile Text.isDecimalDigit = d :: ds := by
    rw [List.takeWhile_append_of_pos hdigits]
    cases rest with
    | nil => simp
    | cons r rest => simp [hstop r rfl]
  have hafter (dollar : Bool) : referenceAfter? dollar (l :: ls ++ (d :: ds ++ rest)) =
      some (.reference dollar (l :: ls) (d :: ds)) := by
    simp only [referenceAfter?, htake, hdrop, hrun]
    rw [if_pos (by simpa using hhigh)]
  have hl := hletters l List.mem_cons_self
  cases dollar with
  | true => simpa [Token.chars, front?] using hafter true
  | false =>
    have hquote : l ≠ '"' := by rintro rfl; cases hl
    have hdollar : l ≠ '$' := by rintro rfl; cases hl
    simpa [Token.chars, front?, hquote, hdollar] using hafter false

/-! ### Cuts -/

/-- Tokens that their characters are cut into. -/
inductive Cut : List Token → Prop
  | nil : Cut []
  | literal {inside : List Char} {ts : List Token} (hpaired : Paired inside)
      (hstop : ∀ tail, chars ts = '"' :: tail → '"' ∉ tail) (h : Cut ts) :
      Cut (.literal inside :: ts)
  | reference {dollar : Bool} {letters digits : List Char} {ts : List Token}
      (hproper : (Token.reference dollar letters digits).Proper)
      (hstop : ∀ c ∈ (chars ts).head?, Text.isDecimalDigit c = false) (h : Cut ts) :
      Cut (.reference dollar letters digits :: ts)
  | plain {c : Char} {ts : List Token} (hfront : front? (c :: chars ts) = none) (h : Cut ts) :
      Cut (.plain c :: ts)

@[simp] theorem chars_cons (t : Token) (ts : List Token) : chars (t :: ts) = t.chars ++ chars ts :=
  List.flatMap_cons

@[simp] theorem chars_append (ts us : List Token) : chars (ts ++ us) = chars ts ++ chars us :=
  List.flatMap_append

theorem Cut.proper {ts : List Token} (h : Cut ts) : ∀ t ∈ ts, t.Proper := by
  induction h with
  | nil => simp
  | literal hpaired hstop h ih => exact List.forall_mem_cons.2 ⟨trivial, ih⟩
  | reference hproper hstop h ih => exact List.forall_mem_cons.2 ⟨hproper, ih⟩
  | plain hfront h ih => exact List.forall_mem_cons.2 ⟨trivial, ih⟩

theorem tokens_append_of_front? {t : Token} {rest : List Char}
    (h : front? (t.chars ++ rest) = some t) : tokens (t.chars ++ rest) = t :: tokens rest := by
  obtain ⟨c, cs, hc⟩ := List.exists_cons_of_ne_nil (front?_eq_some h).1.chars_ne_nil
  rw [hc] at h ⊢
  rw [List.cons_append, tokens, ← List.cons_append, h]
  simp [hc]

theorem Cut.tokens_chars {ts : List Token} (h : Cut ts) : tokens (chars ts) = ts := by
  induction h with
  | nil => simp [chars, tokens]
  | literal hpaired hstop h ih =>
    rw [chars_cons, tokens_append_of_front? (front?_literal_append hpaired hstop), ih]
  | reference hproper hstop h ih =>
    rw [chars_cons, tokens_append_of_front? (front?_reference_append hproper hstop), ih]
  | plain hfront h ih =>
    rw [chars_cons, Token.chars, List.singleton_append, tokens, hfront, ih]

private theorem referenceAfter?_ne_plain (dollar : Bool) (cs : List Char) (c : Char) :
    referenceAfter? dollar cs ≠ some (.plain c) := by
  simp only [referenceAfter?]
  split <;> simp

/-- No digit is left after a candidate. -/
theorem stop_of_referenceAfter? {dollar : Bool} {letters digits rest : List Char}
    (h : referenceAfter? dollar (letters ++ (digits ++ rest)) =
      some (.reference dollar letters digits)) :
    ∀ c ∈ rest.head?, Text.isDecimalDigit c = false := by
  generalize hcs : letters ++ (digits ++ rest) = cs at h
  simp only [referenceAfter?, Option.ite_none_right_eq_some, Option.some.injEq,
    Token.reference.injEq, true_and] at h
  obtain ⟨-, rfl, rfl⟩ := h
  have hrest : rest = (cs.dropWhile Text.isCapital).dropWhile Text.isDecimalDigit := by
    have hletters := cs.takeWhile_append_dropWhile (p := Text.isCapital)
    have hdigits := (cs.dropWhile Text.isCapital).takeWhile_append_dropWhile
      (p := Text.isDecimalDigit)
    rw [← hdigits] at hletters
    exact List.append_cancel_left (List.append_cancel_left (hcs.trans hletters.symm))
  intro c hc
  have hhead := List.head?_dropWhile_not Text.isDecimalDigit (cs.dropWhile Text.isCapital)
  rw [← hrest, Option.mem_def.1 hc] at hhead
  exact hhead

/-- A token that is found at the front fits what follows it. -/
theorem Cut.of_front? {t : Token} {ts : List Token} (h : front? (t.chars ++ chars ts) = some t)
    (hts : Cut ts) : Cut (t :: ts) := by
  have hproper := (front?_eq_some h).1
  cases t with
  | plain c =>
    simp only [Token.chars, List.singleton_append, front?] at h
    split at h
    · simp at h
    · split at h <;> exact absurd h (referenceAfter?_ne_plain _ _ c)
  | literal inside =>
    simp only [Token.chars, List.cons_append, List.append_assoc, List.nil_append, front?, if_true,
      Option.map_eq_some_iff, Token.literal.injEq, exists_eq_right] at h
    obtain ⟨hpaired, rest, heq, hstop⟩ := inside?_eq_some_iff.1 h
    obtain rfl := List.cons.inj (List.append_cancel_left heq) |>.2
    exact .literal hpaired hstop hts
  | reference dollar letters digits =>
    refine .reference hproper ?_ hts
    obtain ⟨l, ls, rfl⟩ := List.exists_cons_of_ne_nil (List.ne_nil_of_length_pos hproper.1)
    have hl := hproper.2.2.1 l List.mem_cons_self
    cases dollar with
    | true =>
      refine @stop_of_referenceAfter? true (l :: ls) digits _ ?_
      simpa [Token.chars, front?] using h
    | false =>
      have hquote : l ≠ '"' := by rintro rfl; cases hl
      have hdollar : l ≠ '$' := by rintro rfl; cases hl
      refine @stop_of_referenceAfter? false (l :: ls) digits _ ?_
      simpa [Token.chars, front?, hquote, hdollar] using h

theorem cut_tokens (cs : List Char) : Cut (tokens cs) := by
  fun_induction tokens cs with
  | case1 => exact .nil
  | case2 c cs hfront ih => exact .plain (by rwa [chars_tokens]) ih
  | case3 c cs t hfront ih =>
    refine .of_front? ?_ ih
    rwa [chars_tokens, ← eq_append_of_front? hfront]

/-- The cutting is determined by what it may give. -/
theorem tokens_eq_iff {cs : List Char} {ts : List Token} :
    tokens cs = ts ↔ chars ts = cs ∧ Cut ts := by
  constructor
  · rintro rfl
    exact ⟨chars_tokens cs, cut_tokens cs⟩
  · rintro ⟨rfl, h⟩
    exact h.tokens_chars

/-! ### Other numerals -/

/-- Characters in which some numerals are replaced by others. -/
inductive Renumbered : List Char → List Char → Prop
  | nil : Renumbered [] []
  | same {cs ds : List Char} (c : Char) (h : Renumbered cs ds) : Renumbered (c :: cs) (c :: ds)
  | numeral {ms ns cs ds : List Char} (hms : ms ≠ []) (hns : ns ≠ [])
      (hm : ∀ c ∈ ms, Text.isDecimalDigit c = true) (hn : ∀ c ∈ ns, Text.isDecimalDigit c = true)
      (h : Renumbered cs ds) : Renumbered (ms ++ cs) (ns ++ ds)

namespace Renumbered
variable {cs ds : List Char}

theorem symm (h : Renumbered cs ds) : Renumbered ds cs := by
  induction h with
  | nil => exact .nil
  | same c h ih => exact .same c ih
  | numeral hms hns hm hn h ih => exact .numeral hns hms hn hm ih

theorem append_left (xs : List Char) (h : Renumbered cs ds) : Renumbered (xs ++ cs) (xs ++ ds) := by
  induction xs with
  | nil => exact h
  | cons x xs ih => exact .same x ih

theorem quote_mem (h : Renumbered cs ds) (hq : '"' ∈ cs) : '"' ∈ ds := by
  have hquote : ∀ ms : List Char, (∀ c ∈ ms, Text.isDecimalDigit c = true) → '"' ∉ ms :=
    fun ms hm hmem => absurd (hm _ hmem) (by decide)
  induction h with
  | nil => exact hq
  | same c h ih => exact List.mem_cons.2 ((List.mem_cons.1 hq).imp_right ih)
  | numeral hms hns hm hn h ih =>
    rcases List.mem_append.1 hq with hq | hq
    · exact absurd hq (hquote _ hm)
    · exact List.mem_append_right _ (ih hq)

theorem quote_mem_iff (h : Renumbered cs ds) : '"' ∈ cs ↔ '"' ∈ ds :=
  ⟨h.quote_mem, h.symm.quote_mem⟩

/-- A quote in front stays there. -/
theorem exists_of_quote_cons {tail : List Char} (h : Renumbered ('"' :: tail) ds) :
    ∃ tail', ds = '"' :: tail' ∧ Renumbered tail tail' := by
  generalize hcs : '"' :: tail = cs at h
  cases h with
  | nil => cases hcs
  | same c h =>
    obtain ⟨rfl, rfl⟩ := List.cons.inj hcs
    exact ⟨_, rfl, h⟩
  | @numeral ms ns cs' ds' hms hns hm hn h =>
    obtain ⟨m, ms, rfl⟩ := List.exists_cons_of_ne_nil hms
    obtain ⟨rfl, -⟩ := List.cons.inj hcs
    exact absurd (hm _ List.mem_cons_self) (by decide)

/-- Digits are not among the letters of a candidate, and one digit is as good as another. -/
theorem beginsCandidate (h : Renumbered cs ds) (hc : BeginsCandidate cs) : BeginsCandidate ds := by
  suffices hsame : ds.takeWhile Text.isCapital = cs.takeWhile Text.isCapital ∧
      ((cs.dropWhile Text.isCapital).head?.any Text.isDecimalDigit = true →
        (ds.dropWhile Text.isCapital).head?.any Text.isDecimalDigit = true) by
    rw [BeginsCandidate, hsame.1]
    exact ⟨hc.1, hsame.2 hc.2⟩
  clear hc
  induction h with
  | nil => simp
  | same c h ih => cases hc : Text.isCapital c <;> simp [hc, ih] ; exact ih.2
  | @numeral ms ns cs' ds' hms hns hm hn h ih =>
    obtain ⟨m, ms, rfl⟩ := List.exists_cons_of_ne_nil hms
    obtain ⟨n, ns, rfl⟩ := List.exists_cons_of_ne_nil hns
    have hm' := hm m List.mem_cons_self
    have hn' := hn n List.mem_cons_self
    simp [isCapital_eq_false_of_isDecimalDigit hm', isCapital_eq_false_of_isDecimalDigit hn', hn']

theorem front?_eq_none {c : Char} (h : Renumbered cs ds) (hc : front? (c :: cs) = none) :
    front? (c :: ds) = none := by
  rw [front?_eq_none_iff] at hc ⊢
  split at hc
  · rwa [if_pos ‹_›, ← h.quote_mem_iff]
  · rw [if_neg ‹_›]
    split at hc
    · rw [if_pos ‹_›]
      exact fun hd => hc (h.symm.beginsCandidate hd)
    · rw [if_neg ‹_›]
      exact fun hd => hc ((h.same c).symm.beginsCandidate hd)

end Renumbered

end SheetTemplate.Formula
