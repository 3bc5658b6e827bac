import SheetTemplate.Proofs.Formula.Reading
/-!
References of a formula as text. Whether some characters are a reference can be told from their two
neighbours and from the quotes around them, and a move changes nothing but the numerals of those
that refer to the row it leaves.
-/
namespace SheetTemplate.Formula

/-- Between `u` and `w` the token `t` is a reference to row `a`: its neighbours leave room for one,
its numeral is whole, and it stands in no literal, since the quotes before it pair up or none comes
after it. -/
structure Refers (a : Nat) (u : List Char) (t : Token) (w : List Char) : Prop where
  proper : t.Proper
  row_eq : liveRow? u.getLast? w.head? t = some a
  stop : ∀ c ∈ w.head?, Text.isDecimalDigit c = false
  outside : u.count '"' % 2 = 0 ∨ '"' ∉ w

/-! ### Quotes -/

theorem Paired.count_quote {cs : List Char} (h : Paired cs) : cs.count '"' % 2 = 0 := by
  induction h with
  | nil => rfl
  | other hc h ih => rwa [List.count_cons_of_ne hc]
  | quotes h ih =>
    rw [List.count_cons_self, List.count_cons_self]
    omega

/-- A pair is not torn by what ends before another character. -/
theorem Paired.of_append {cs ds : List Char} {c : Char} (hc : c ≠ '"')
    (h : Paired (cs ++ c :: ds)) : Paired cs := by
  generalize hall : cs ++ c :: ds = all at h
  induction h generalizing cs with
  | nil => simp at hall
  | other hd h ih =>
    cases cs with
    | nil => exact .nil
    | cons x cs =>
      simp only [List.cons_append, List.cons.injEq] at hall
      exact hall.1 ▸ .other hd (ih hall.2)
  | quotes h ih =>
    cases cs with
    | nil => exact absurd (List.cons.inj hall).1 hc
    | cons x cs =>
      cases cs with
      | nil => exact absurd (List.cons.inj (List.cons.inj hall).2).1 hc
      | cons y cs =>
        simp only [List.cons_append, List.cons.injEq] at hall
        obtain ⟨rfl, rfl, hall⟩ := hall
        exact .quotes (ih hall)

theorem opensReference_of_isCapital {c : Char} (h : Text.isCapital c = true) :
    opensReference c = false := by
  simp [opensReference, Text.isAlphanumeric, h]

theorem opensReference_of_mem_dollar {dollar : Bool} {c : Char}
    (h : c ∈ if dollar then ['$'] else []) : opensReference c = false := by
  cases dollar with
  | true =>
    rw [List.mem_singleton.1 h]
    decide
  | false => cases h

/-- Before the numeral of a candidate no reference begins. -/
theorem opensReference_of_mem_head (dollar : Bool) {letters : List Char}
    (h : ∀ c ∈ letters, Text.isCapital c = true) :
    ∀ c ∈ (if dollar then ['$'] else []) ++ letters, opensReference c = false := by
  intro c hc
  rcases List.mem_append.1 hc with hc | hc
  · exact opensReference_of_mem_dollar hc
  · exact opensReference_of_isCapital (h c hc)

theorem quote_not_mem_reference {dollar : Bool} {letters digits : List Char}
    (h : (Token.reference dollar letters digits).Proper) :
    '"' ∉ (Token.reference dollar letters digits).chars := by
  intro hmem
  rw [Token.chars, ← List.append_assoc] at hmem
  rcases List.mem_append.1 hmem with hmem | hmem
  · exact absurd (opensReference_of_mem_head _ h.2.2.1 _ hmem) (by decide)
  · exact absurd (h.2.2.2.2 _ hmem) (by decide)

/-- The quotes of a token pair up, unless it is a quote that opens nothing. -/
theorem Cut.quotes {t : Token} {ts : List Token} (h : Cut (t :: ts)) :
    t.chars.count '"' % 2 = 0 ∨ '"' ∉ chars ts := by
  cases h with
  | literal hpaired hstop h =>
    left
    have := hpaired.count_quote
    rw [Token.chars, List.count_cons_self, List.count_append, List.count_singleton_self]
    omega
  | reference hproper hstop h =>
    left
    rw [List.count_eq_zero.2 (quote_not_mem_reference hproper)]
  | @plain c ts hfront h =>
    by_cases hc : c = '"'
    · right
      simpa [hc] using front?_eq_none_iff.1 hfront
    · left
      rw [Token.chars, List.count_singleton, if_neg (by simpa using hc)]

theorem Cut.tail {t : Token} {ts : List Token} (h : Cut (t :: ts)) : Cut ts := by
  cases h <;> assumption

theorem Cut.of_append {l r : List Token} (h : Cut (l ++ r)) : Cut r := by
  induction l with
  | nil => exact h
  | cons t l ih => exact ih h.tail

/-! ### Where tokens begin -/

/-- No token of a cut reaches over a place where a reference may begin, outside literals. -/
theorem Cut.not_over {t : Token} {ts : List Token} (h : Cut (t :: ts)) {u s : List Char}
    (ht : t.chars = u ++ s) (hu : u ≠ []) (hs : s ≠ [])
    (hlast : ∀ c ∈ u.getLast?, opensReference c = true)
    (hquote : s.head? ≠ some '"') (hdigit : ∀ c ∈ s.head?, Text.isDecimalDigit c = false)
    (hout : u.count '"' % 2 = 0 ∨ '"' ∉ s ++ chars ts) : False := by
  obtain ⟨d, s, rfl⟩ := List.exists_cons_of_ne_nil hs
  cases h with
  | @plain c ts hfront h =>
    have hlength := congrArg List.length ht
    have := List.length_pos_iff.2 hu
    simp only [Token.chars, List.length_append, List.length_cons, List.length_nil] at hlength
    omega
  | @literal inside ts hpaired hstop h =>
    obtain ⟨c, u, rfl⟩ := List.exists_cons_of_ne_nil hu
    rw [Token.chars, List.cons_append, List.cons.injEq] at ht
    obtain ⟨rfl, ht⟩ := ht
    have hd : d ≠ '"' := fun hd => hquote (congrArg some hd)
    have hinside : ∃ s', inside = u ++ d :: s' ∧ s = s' ++ ['"'] := by
      rcases List.append_eq_append_iff.1 ht with ⟨x, -, hx⟩ | ⟨x, hinside, hx⟩
      · rcases List.singleton_eq_append_iff.1 hx with ⟨-, hone⟩ | ⟨-, hnil⟩
        · exact absurd (List.cons.inj hone).1 hd
        · cases hnil
      · cases x with
        | nil => exact absurd (List.cons.inj hx).1 hd
        | cons y s' =>
          obtain ⟨rfl, rfl⟩ := List.cons.inj hx
          exact ⟨s', hinside, rfl⟩
    -- The literal ends after the place, so a quote comes later and those before must pair up.
    obtain ⟨s', rfl, rfl⟩ := hinside
    have hpairs := (hpaired.of_append hd).count_quote
    rw [List.count_cons_self] at hout
    rcases hout with hout | hout
    · omega
    · simp at hout
  | @reference dollar letters digits ts hproper hstop h =>
    rw [Token.chars, ← List.append_assoc] at ht
    rcases List.append_eq_append_iff.1 ht with ⟨x, hx, hdigits⟩ | ⟨x, hx, hrest⟩
    · have hmem : d ∈ digits := hdigits ▸ List.mem_append_right _ List.mem_cons_self
      have hfalse := hdigit d rfl
      rw [hproper.2.2.2.2 d hmem] at hfalse
      cases hfalse
    · have hmem := List.getLast_mem hu
      have hopens := opensReference_of_mem_head dollar hproper.2.2.1 _
        (hx ▸ List.mem_append_left _ hmem)
      rw [hlast _ (List.getLast?_eq_some_getLast hu)] at hopens
      cases hopens

/-- A cut has an end of a token wherever a reference may begin outside literals. -/
theorem Cut.exists_append {ts : List Token} (h : Cut ts) {u v : List Char} (hts : chars ts = u ++ v)
    (hlast : ∀ c ∈ u.getLast?, opensReference c = true) (hquote : v.head? ≠ some '"')
    (hdigit : ∀ c ∈ v.head?, Text.isDecimalDigit c = false)
    (hout : u.count '"' % 2 = 0 ∨ '"' ∉ v) :
    ∃ l r, ts = l ++ r ∧ chars l = u ∧ chars r = v := by
  induction ts generalizing u with
  | nil =>
    obtain ⟨rfl, rfl⟩ := List.append_eq_nil_iff.1 hts.symm
    exact ⟨[], [], rfl, rfl, rfl⟩
  | cons t ts ih =>
    by_cases hu : u = []
    · subst hu
      exact ⟨[], t :: ts, rfl, rfl, hts⟩
    rw [chars_cons] at hts
    rcases List.append_eq_append_iff.1 hts with ⟨u', rfl, hrest⟩ | ⟨s, ht, rfl⟩
    · have hlast' : ∀ c ∈ u'.getLast?, opensReference c = true := by
        intro c hc
        refine hlast c ?_
        simp [Option.mem_def.1 hc]
      have hout' : u'.count '"' % 2 = 0 ∨ '"' ∉ v := by
        rw [List.count_append] at hout
        rcases h.quotes with hpair | hnone
        · exact hout.imp_left (by omega)
        · rw [hrest] at hnone
          exact Or.inr fun hmem => hnone (List.mem_append_right _ hmem)
      obtain ⟨l, r, rfl, rfl, hr⟩ := ih h.tail hrest hlast' hout'
      exact ⟨t :: l, r, rfl, chars_cons t l, hr⟩
    · by_cases hs : s = []
      · subst hs
        exact ⟨[t], ts, rfl, by simpa [chars] using ht, rfl⟩
      · obtain ⟨d, s, rfl⟩ := List.exists_cons_of_ne_nil hs
        exact (h.not_over ht hu hs hlast hquote hdigit hout).elim

/-- Where a cut has an end of a token, the quotes before it pair up or none comes after it. -/
theorem Cut.outside {l r : List Token} (h : Cut (l ++ r)) :
    (chars l).count '"' % 2 = 0 ∨ '"' ∉ chars r := by
  induction l with
  | nil => exact Or.inl rfl
  | cons t l ih =>
    rw [chars_cons, List.count_append]
    rcases Cut.quotes h with hpair | hnone
    · exact (ih h.tail).imp_left (by omega)
    · right
      rw [List.append_eq, chars_append] at hnone
      exact fun hmem => hnone (List.mem_append_right _ hmem)

/-! ### References are readings -/

theorem readingsFrom_append (before : Option Char) (l r : List Token) :
    ∃ l', readingsFrom before (l ++ r) =
      l' ++ readingsFrom ((chars l).getLast?.or before) r ∧ l'.map Reading.token = l := by
  induction l generalizing before with
  | nil => exact ⟨[], rfl, rfl⟩
  | cons t l ih =>
    obtain ⟨l', heq, htokens⟩ := ih (t.chars.getLast?.or before)
    refine ⟨⟨t, liveRow? before (firstChar? (l ++ r)) t⟩ :: l', ?_, by simp [htokens]⟩
    rw [List.cons_append, readingsFrom, heq, chars_cons, List.getLast?_append, Option.or_assoc]
    rfl

theorem liveRow?_eq_some {before after : Option Char} {t : Token} {a : Nat}
    (h : liveRow? before after t = some a) : ∃ dollar letters digits,
      t = .reference dollar letters digits ∧ before.all opensReference = true ∧
        after.all closesReference = true ∧ rowOf? digits = some a := by
  cases t with
  | literal inside => cases h
  | plain c => cases h
  | reference dollar letters digits =>
    rw [liveRow?, Option.ite_none_right_eq_some, isStandalone, Bool.and_eq_true] at h
    exact ⟨dollar, letters, digits, rfl, h.1.1, h.1.2, h.2⟩

private theorem head?_reference {dollar : Bool} {letters digits : List Char}
    (h : (Token.reference dollar letters digits).Proper) (w : List Char) :
    ∃ c, ((Token.reference dollar letters digits).chars ++ w).head? = some c ∧
      (c = '$' ∨ Text.isCapital c = true) := by
  obtain ⟨c, cs, rfl⟩ := List.exists_cons_of_ne_nil (List.ne_nil_of_length_pos h.1)
  cases dollar with
  | true => exact ⟨'$', rfl, Or.inl rfl⟩
  | false => exact ⟨c, rfl, Or.inr (h.2.2.1 c List.mem_cons_self)⟩

/-- What is a reference as text is cut out as one token. -/
theorem Refers.tokens_eq {a : Nat} {u w : List Char} {t : Token} (h : Refers a u t w) :
    ∃ l, tokens (u ++ (t.chars ++ w)) = l ++ t :: tokens w ∧ chars l = u := by
  obtain ⟨dollar, letters, digits, rfl, hbefore, -, -⟩ := liveRow?_eq_some h.row_eq
  obtain ⟨c, hhead, hc⟩ := head?_reference h.proper w
  have hlast : ∀ c ∈ u.getLast?, opensReference c = true := by
    intro c hc
    rw [Option.mem_def.1 hc] at hbefore
    exact hbefore
  have hquote : c ≠ '"' := by
    rintro rfl
    revert hc
    decide
  have hdigit : Text.isDecimalDigit c = false := by
    rcases hc with rfl | hc
    · decide
    · refine Bool.eq_false_iff.2 fun hd => ?_
      rw [isCapital_eq_false_of_isDecimalDigit hd] at hc
      cases hc
  have hout := h.outside.imp_right fun hw hmem =>
    (List.mem_append.1 hmem).elim (quote_not_mem_reference h.proper) hw
  obtain ⟨l, r, hlr, hl, hr⟩ := (cut_tokens _).exists_append (chars_tokens _) hlast
    (by simpa [hhead] using hquote) (by simpa [hhead] using hdigit) hout
  have hcut : Cut (l ++ r) := hlr ▸ cut_tokens _
  have hfront := front?_reference_append h.proper h.stop
  have hr' : r = .reference dollar letters digits :: tokens w := by
    rw [← tokens_append_of_front? hfront, ← hr, hcut.of_append.tokens_chars]
  exact ⟨l, hr' ▸ hlr, hl⟩

/-- The references of a formula are the readings that have a row. -/
theorem refers_iff {a : Nat} {u w : List Char} {t : Token} :
    Refers a u t w ↔ ∃ l r,
      readingsFrom none (tokens (u ++ (t.chars ++ w))) = l ++ ⟨t, some a⟩ :: r ∧
        chars (l.map Reading.token) = u := by
  constructor
  · intro h
    obtain ⟨l, htokens, rfl⟩ := h.tokens_eq
    obtain ⟨l', hreadings, htoken⟩ := readingsFrom_append none l (t :: tokens w)
    refine ⟨l', readingsFrom (t.chars.getLast?.or ((chars l).getLast?.or none)) (tokens w), ?_,
      congrArg chars htoken⟩
    rw [htokens, hreadings, readingsFrom, ← head?_chars proper_of_mem_tokens, chars_tokens,
      Option.or_none, h.row_eq]
  · rintro ⟨l, r, hreadings, rfl⟩
    have htokens := congrArg (List.map Reading.token) hreadings
    rw [map_token_readingsFrom, List.map_append, List.map_cons] at htokens
    have hcut := htokens ▸ cut_tokens _
    have hchars := congrArg chars htokens
    rw [chars_tokens, chars_append, chars_cons] at hchars
    have hw : w = chars (r.map Reading.token) :=
      List.append_cancel_left (List.append_cancel_left hchars)
    obtain ⟨l', hreadings', htoken⟩ := readingsFrom_append none (l.map Reading.token)
      (t :: r.map Reading.token)
    rw [htokens, hreadings'] at hreadings
    have hlength : l'.length = l.length := by
      simpa using congrArg List.length htoken
    obtain ⟨-, hrow⟩ := List.append_inj hreadings hlength
    rw [readingsFrom, List.cons.injEq, Reading.mk.injEq, Option.or_none,
      ← head?_chars hcut.of_append.tail.proper, ← hw] at hrow
    have hproper : t.Proper := hcut.proper t (List.mem_append_right _ List.mem_cons_self)
    refine ⟨hproper, hrow.1.2, ?_, ?_⟩
    · obtain ⟨dollar, letters, digits, rfl, -⟩ := liveRow?_eq_some hrow.1.2
      rw [hw]
      cases hcut.of_append with
      | reference _ hstop _ => exact hstop
    · refine hcut.outside.imp_right fun hout hmem => hout ?_
      rw [chars_cons, ← hw]
      exact List.mem_append_right _ hmem

end SheetTemplate.Formula
