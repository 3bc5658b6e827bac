import SheetTemplate.Proofs.Formula.Qualified
/-!
Identifiers of a formula. A move looks at the two neighbours of letters and digits only, so it takes
a part of an identifier for a reference where the neighbours inside the identifier do not tell.
-/
namespace SheetTemplate.Formula

/-- A character of identifiers: a letter or digit of any script, an underscore or a dot. Which
characters beyond ASCII are letters is given. -/
def isIdentifierChar (isLetter : Char → Bool) (c : Char) : Bool :=
  Text.isAlphanumeric c || c = '_' || c = '.' || Text.isDecimalDigit c
    || 128 ≤ c.toNat && isLetter c

/-- Between `u` and `w`, and outside literals, the characters `s` are a whole run of identifier
characters that does not have the form of a reference. -/
structure Identifier (isLetter : Char → Bool) (u s w : List Char) : Prop where
  chars : ∀ c ∈ s, isIdentifierChar isLetter c = true
  before : ∀ c ∈ u.getLast?, isIdentifierChar isLetter c = false
  after : ∀ c ∈ w.head?, isIdentifierChar isLetter c = false
  outside : u.count '"' % 2 = 0 ∨ '"' ∉ w
  name : ∀ letters digits, s = letters ++ digits → (1 ≤ letters.length ∧ letters.length ≤ 3) →
    (∀ c ∈ letters, Text.isCapital c = true) → digits ≠ [] → ¬ ∀ c ∈ digits, Text.isDigit c = true

def dropLastDollar (u : List Char) : List Char :=
  if u.getLast? = some '$' then u.dropLast else u

/-- A reference may begin behind the first characters `x` of an identifier that stands after `u`:
inside the identifier behind a character beyond ASCII only. -/
def HasRoomBefore (u x : List Char) : Prop :=
  if x = [] then (dropLastDollar u).getLast?.all opensReference = true
  else ∀ c ∈ x.getLast?, 128 ≤ c.toNat

/-- A reference may end before the last characters `y` of an identifier that stands before `w`:
inside the identifier before a dot, or before a character beyond ASCII that is no digit. -/
def HasRoomAfter (y w : List Char) : Prop :=
  if y = [] then w.head?.all closesReference = true
  else ∀ c ∈ y.head?, c = '.' ∨ 128 ≤ c.toNat ∧ Text.isDecimalDigit c = false

/-- Within the identifier `s` between `u` and `w`, letters and digits that name row `a` have room
for a reference on both sides. -/
structure Exposed (a : Nat) (u s w x letters digits y : List Char) : Prop where
  split : s = x ++ (letters ++ (digits ++ y))
  length : 1 ≤ letters.length ∧ letters.length ≤ 3
  letters : ∀ c ∈ letters, Text.isCapital c = true
  row : rowOf? digits = some a
  before : HasRoomBefore u x
  after : HasRoomAfter y w

/-! ### Characters of identifiers -/

section characters
variable {isLetter : Char → Bool} {c : Char}

theorem toNat_lt_of_isAlphanumeric (h : Text.isAlphanumeric c = true) : c.toNat < 128 := by
  simp only [Text.isAlphanumeric, Text.isCapital, Text.isDigit, Bool.or_eq_true, Bool.and_eq_true,
    decide_eq_true_eq] at h
  have hle {d : Char} (hd : c ≤ d) : c.toNat ≤ d.toNat := hd
  rcases h with (⟨-, h⟩ | ⟨-, h⟩) | ⟨-, h⟩
  · exact Nat.lt_of_le_of_lt (hle h) (by decide)
  · exact Nat.lt_of_le_of_lt (hle h) (by decide)
  · exact Nat.lt_of_le_of_lt (hle h) (by decide)

private theorem isIdentifierChar_of_isCapital (h : Text.isCapital c = true) :
    isIdentifierChar isLetter c = true := by
  simp [isIdentifierChar, Text.isAlphanumeric, h]

theorem isIdentifierChar_of_isDecimalDigit (h : Text.isDecimalDigit c = true) :
    isIdentifierChar isLetter c = true := by
  simp [isIdentifierChar, h]

/-- An identifier character is an ASCII letter or digit, an underscore, a dot or beyond ASCII. -/
theorem cases_of_isIdentifierChar (h : isIdentifierChar isLetter c = true) :
    Text.isAlphanumeric c = true ∨ c = '_' ∨ c = '.' ∨ 128 ≤ c.toNat := by
  have hname : isNameChar c = true := by
    simp only [isIdentifierChar, Bool.or_eq_true, Bool.and_eq_true] at h
    rcases h with (h | h) | h
    · simp only [isNameChar, Bool.or_eq_true]
      exact Or.inl h
    · exact isNameChar_of_isDecimalDigit h
    · simp only [isNameChar, Bool.or_eq_true]
      exact Or.inr h.1
  simpa [isNameChar, or_assoc] using hname

theorem leaves_room_of_le_toNat (h : 128 ≤ c.toNat) :
    opensReference c = true ∧ closesReference c = true := by
  have halpha : Text.isAlphanumeric c = false :=
    Bool.eq_false_iff.2 fun h' => by have := toNat_lt_of_isAlphanumeric h'; omega
  have hne {d : Char} (hd : d.toNat < 128) : c ≠ d := by
    rintro rfl
    omega
  simp [opensReference, closesReference, halpha, hne (d := '_') (by decide),
    hne (d := '.') (by decide), hne (d := '$') (by decide), hne (d := '!') (by decide),
    hne (d := '(') (by decide)]

/-- Behind an identifier character a reference may begin if it is beyond ASCII. -/
theorem opensReference_iff_of_isIdentifierChar (h : isIdentifierChar isLetter c = true) :
    opensReference c = true ↔ 128 ≤ c.toNat := by
  rcases cases_of_isIdentifierChar h with h | rfl | rfl | h
  · have := toNat_lt_of_isAlphanumeric h
    simp [opensReference, h, this]
  · decide
  · decide
  · exact iff_of_true (leaves_room_of_le_toNat h).1 h

/-- Before an identifier character a reference may end if it is a dot or beyond ASCII. -/
theorem closesReference_iff_of_isIdentifierChar (h : isIdentifierChar isLetter c = true) :
    closesReference c = true ↔ c = '.' ∨ 128 ≤ c.toNat := by
  rcases cases_of_isIdentifierChar h with h | rfl | rfl | h
  · have := toNat_lt_of_isAlphanumeric h
    have hdot : c ≠ '.' := by
      rintro rfl
      cases h
    simp [closesReference, h, hdot, this]
  · decide
  · decide
  · exact iff_of_true (leaves_room_of_le_toNat h).2 (Or.inr h)

/-- A dollar sign is no identifier character. -/
theorem isIdentifierChar_dollar : isIdentifierChar isLetter '$' = false := by
  simp [isIdentifierChar, show Text.isAlphanumeric '$' = false by decide,
    show Text.isDecimalDigit '$' = false by decide]

private theorem isIdentifierChar_quote : isIdentifierChar isLetter '"' = false := by
  simp [isIdentifierChar, show Text.isAlphanumeric '"' = false by decide,
    show Text.isDecimalDigit '"' = false by decide]

end characters

/-! ### Runs of identifier characters -/

section runs
variable {α : Type} {p : α → Bool} {u x e r w y : List α}

/-- What holds of all of `r` reaches into `u ++ x` over `x` only, if it does not hold of the end of
`u`. -/
theorem exists_of_append_eq_append (hu : ∀ c ∈ u.getLast?, p c = false) (hr : ∀ c ∈ r, p c = true)
    (h : u ++ x = e ++ r) : ∃ x₀, x = x₀ ++ r ∧ u ++ x₀ = e := by
  rcases List.append_eq_append_iff.1 h with ⟨z, rfl, hx⟩ | ⟨z, rfl, rfl⟩
  · exact ⟨z, hx, rfl⟩
  · by_cases hz : z = []
    · subst hz
      exact ⟨[], rfl, by simp⟩
    · have hlast := hu (z.getLast hz) (by simp [List.getLast?_eq_some_getLast hz])
      rw [hr _ (List.mem_append_left _ (List.getLast_mem hz))] at hlast
      cases hlast

/-- The same at the front. -/
theorem exists_of_append_eq_append_head (hw : ∀ c ∈ w.head?, p c = false)
    (hr : ∀ c ∈ r, p c = true) (h : y ++ w = r ++ e) : ∃ y₀, y = r ++ y₀ ∧ y₀ ++ w = e := by
  rcases List.append_eq_append_iff.1 h with ⟨z, rfl, rfl⟩ | ⟨z, rfl, he⟩
  · cases z with
    | nil => exact ⟨[], by simp, rfl⟩
    | cons c z =>
      have hc := hw c rfl
      rw [hr c (List.mem_append_right _ List.mem_cons_self)] at hc
      cases hc
  · exact ⟨z, rfl, he.symm⟩

end runs

/-! ### Room for a reference -/

section room
variable {isLetter : Char → Bool} {a : Nat} {u s w x letters digits y : List Char}

theorem hasRoomBefore_iff (hx : ∀ c ∈ x, isIdentifierChar isLetter c = true) :
    HasRoomBefore u x ↔ ∃ (v : List Char) (dollar : Bool),
      u ++ x = v ++ (if dollar then ['$'] else []) ∧ v.getLast?.all opensReference = true := by
  rcases List.eq_nil_or_concat x with rfl | ⟨x, c, rfl⟩
  · rw [HasRoomBefore, if_pos rfl, dropLastDollar, List.append_nil]
    constructor
    · intro h
      split at h
      · rename_i hlast
        exact ⟨u.dropLast, true, (List.dropLast_append_getLast? _ hlast).symm, h⟩
      · exact ⟨u, false, by simp, h⟩
    · rintro ⟨v, dollar, rfl, hv⟩
      cases dollar with
      | true => simpa using hv
      | false =>
        have hlast : v.getLast? ≠ some '$' := by
          intro hlast
          rw [hlast] at hv
          cases hv
        simpa [hlast] using hv
  · rw [List.concat_eq_append] at hx ⊢
    have hc := hx c (by simp)
    have hroom : HasRoomBefore u (x ++ [c]) ↔ opensReference c = true := by
      simp [HasRoomBefore, opensReference_iff_of_isIdentifierChar hc]
    rw [hroom]
    constructor
    · intro h
      exact ⟨u ++ (x ++ [c]), false, by simp, by simpa using h⟩
    · rintro ⟨v, dollar, heq, hv⟩
      have hlast := congrArg List.getLast? heq
      cases dollar with
      | true =>
        obtain rfl : c = '$' := by simpa using hlast
        rw [isIdentifierChar_dollar] at hc
        cases hc
      | false =>
        rw [if_neg Bool.false_ne_true, List.append_nil] at heq
        simpa [← heq] using hv

theorem hasRoomAfter_iff (hw : ∀ c ∈ w.head?, isIdentifierChar isLetter c = false)
    (hy : ∀ c ∈ y, isIdentifierChar isLetter c = true) :
    HasRoomAfter y w ↔ (y ++ w).head?.all closesReference = true ∧
      ∀ c ∈ (y ++ w).head?, Text.isDecimalDigit c = false := by
  cases y with
  | nil =>
    rw [HasRoomAfter, if_pos rfl, List.nil_append, iff_self_and]
    intro _ c hc
    refine Bool.eq_false_iff.2 fun hdigit => ?_
    have hchar := hw c hc
    rw [isIdentifierChar_of_isDecimalDigit hdigit] at hchar
    cases hchar
  | cons c y =>
    have hdot : Text.isDecimalDigit '.' = false := by decide
    have hcloses := closesReference_iff_of_isIdentifierChar (hy c List.mem_cons_self)
    simp only [HasRoomAfter, reduceCtorEq, if_false, List.head?_cons, Option.mem_def,
      Option.some.injEq, forall_eq', List.cons_append, Option.all_some, hcloses]
    constructor
    · rintro (rfl | ⟨hlarge, hdigit⟩)
      · exact ⟨Or.inl rfl, hdot⟩
      · exact ⟨Or.inr hlarge, hdigit⟩
    · rintro ⟨rfl | hlarge, hdigit⟩
      · exact Or.inl rfl
      · exact Or.inr ⟨hlarge, hdigit⟩

end room

/-! ### What a move keeps -/

section kept
variable {isLetter : Char → Bool} {a : Nat} {u s w x letters digits y : List Char}

theorem quote_not_mem_of_chars (h : ∀ c ∈ s, isIdentifierChar isLetter c = true) : '"' ∉ s := by
  intro hmem
  have hquote := h _ hmem
  rw [isIdentifierChar_quote] at hquote
  cases hquote

/-- What stands before and after a part of an identifier belongs to the identifier. -/
theorem Identifier.chars_around (h : Identifier isLetter u s w)
    (hsplit : s = x ++ (letters ++ (digits ++ y))) :
    (∀ c ∈ x, isIdentifierChar isLetter c = true) ∧
      ∀ c ∈ y, isIdentifierChar isLetter c = true := by
  subst hsplit
  exact ⟨fun c hc => h.chars c (by simp [hc]), fun c hc => h.chars c (by simp [hc])⟩

/-- What is exposed in an identifier is a reference, and a reference within an identifier is
exposed. -/
theorem Identifier.exposed_iff (h : Identifier isLetter u s w) :
    Exposed a u s w x letters digits y ↔ s = x ++ (letters ++ (digits ++ y)) ∧
      ∃ (v : List Char) (dollar : Bool), u ++ x = v ++ (if dollar then ['$'] else []) ∧
        Refers a v (.reference dollar letters digits) (y ++ w) := by
  constructor
  · intro hexposed
    have hsplit := hexposed.split
    obtain ⟨hx, hy⟩ := h.chars_around hsplit
    obtain ⟨v, dollar, hv, hopens⟩ := (hasRoomBefore_iff hx).1 hexposed.before
    obtain ⟨hcloses, hstop⟩ := (hasRoomAfter_iff h.after hy).1 hexposed.after
    have hvalue := (Option.filter_eq_some_iff.1 hexposed.row).1
    refine ⟨hsplit, v, dollar, hv, ⟨hexposed.length.1, hexposed.length.2, hexposed.letters, ?_, ?_⟩,
      ?_, hstop, ?_⟩
    · rintro rfl
      cases hvalue
    · exact fun c hc => Text.isDecimalDigit_of_isDigit c (Text.isDigit_of_natural? hvalue c hc)
    · rw [liveRow?, isStandalone, hopens, hcloses, hexposed.row]
      rfl
    · have hcount := congrArg (List.count '"') hv
      rw [List.count_append, List.count_append,
        List.count_eq_zero.2 (quote_not_mem_of_chars hx)] at hcount
      have hdollar : List.count '"' (if dollar then ['$'] else []) = 0 := by
        cases dollar <;> rfl
      rw [hdollar] at hcount
      refine h.outside.imp (fun heven => by omega) fun hnone hmem => ?_
      exact (List.mem_append.1 hmem).elim (quote_not_mem_of_chars hy) hnone
  · rintro ⟨hsplit, v, dollar, hv, hrefers⟩
    obtain ⟨hx, hy⟩ := h.chars_around hsplit
    obtain ⟨dollar', letters', digits', heq, hopens, hcloses, hrow⟩ :=
      liveRow?_eq_some hrefers.row_eq
    obtain ⟨rfl, rfl, rfl⟩ := Token.reference.inj heq
    exact ⟨hsplit, ⟨hrefers.proper.1, hrefers.proper.2.1⟩, hrefers.proper.2.2.1, hrow,
      (hasRoomBefore_iff hx).2 ⟨v, dollar, hv, hopens⟩,
      (hasRoomAfter_iff h.after hy).2 ⟨hcloses, hrefers.stop⟩⟩

/-- A digit of an identifier that a move changes stands in letters and digits that lie within the
identifier and are exposed. -/
theorem Identifier.exists_exposed (h : Identifier isLetter u s w) {p q v w' p' q' : List Char}
    {t : Token} {d : Char} (hrefers : Refers a v t w') (hs : s = p ++ d :: q)
    (hv : u ++ p = v ++ p') (ht : t.chars = p' ++ d :: q') (hw : q ++ w = q' ++ w')
    (hd : Text.isDecimalDigit d = true) :
    ∃ x letters digits y, Exposed a u s w x letters digits y := by
  obtain ⟨dollar, letters, digits, rfl, -⟩ := liveRow?_eq_some hrefers.row_eq
  obtain ⟨-, -, hletters, -, hdigits⟩ := hrefers.proper
  have hchars : ∀ c ∈ letters ++ digits, isIdentifierChar isLetter c = true := by
    intro c hc
    rcases List.mem_append.1 hc with hc | hc
    · exact isIdentifierChar_of_isCapital (hletters c hc)
    · exact isIdentifierChar_of_isDecimalDigit (hdigits c hc)
  -- The digit is none of the dollar sign, so it lies in the letters and digits.
  obtain ⟨r, rfl, hr⟩ : ∃ r, p' = (if dollar then ['$'] else []) ++ r ∧
      letters ++ digits = r ++ d :: q' := by
    rcases cases_append_cons ht with ⟨r, hp', hr⟩ | ⟨r, hdollar, -⟩
    · exact ⟨r, hp', hr⟩
    · cases dollar with
      | false => simp at hdollar
      | true =>
        obtain ⟨-, hd'⟩ | ⟨-, hnil⟩ := List.singleton_eq_append_iff.1 hdollar
        · obtain rfl := (List.cons.inj hd').1
          exact absurd hd (by decide)
        · cases hnil
  rw [hr] at hchars
  rw [← List.append_assoc] at hv
  obtain ⟨x, rfl, hx⟩ := exists_of_append_eq_append h.before
    (fun c hc => hchars c (List.mem_append_left _ hc)) hv
  obtain ⟨y, rfl, rfl⟩ := exists_of_append_eq_append_head h.after
    (fun c hc => hchars c (List.mem_append_right _ (List.mem_cons_of_mem _ hc))) hw
  have hsplit : s = x ++ (letters ++ (digits ++ y)) := by
    rw [hs, ← List.append_assoc letters, hr]
    simp only [List.append_assoc, List.cons_append]
  exact ⟨x, letters, digits, y, h.exposed_iff.2 ⟨hsplit, v, dollar, hx, hrefers⟩⟩

private theorem Exposed.not_kept {b : Nat} (hab : a ≠ b) (h : Identifier isLetter u s w)
    (hexposed : Exposed a u s w x letters digits y) : ¬ Kept a b u s w := by
  intro hkept
  obtain ⟨hsplit, v, dollar, hv, hrefers⟩ := h.exposed_iff.1 hexposed
  obtain ⟨z, d, ht, hne⟩ := hrefers.exists_images_ne hab
  obtain ⟨ds, e, rfl⟩ := (List.eq_nil_or_concat digits).resolve_left hrefers.proper.2.2.2.1
  rw [List.concat_eq_append] at hsplit ht hne
  rw [Token.chars, ← List.append_assoc, ← List.append_assoc] at ht
  obtain ⟨rfl, hd⟩ := List.append_inj' ht rfl
  obtain rfl := (List.cons.inj hd).1
  have himage := kept_iff.1 hkept (x ++ (letters ++ ds)) e y (by simp [hsplit])
  have hall : u ++ (s ++ w) =
      v ++ ((Token.reference dollar letters (ds ++ [e])).chars ++ (y ++ w)) := by
    rw [hsplit, Token.chars, ← List.append_assoc v, ← List.append_assoc v, ← hv]
    simp only [List.append_assoc]
  have hplace : u ++ (x ++ (letters ++ ds)) =
      v ++ ((if dollar then ['$'] else []) ++ letters ++ ds) := by
    rw [← List.append_assoc u, hv]
    simp only [List.append_assoc]
  rw [hall, hplace] at himage
  exact hne himage

theorem Identifier.kept (h : Identifier isLetter u s w)
    (hnone : ¬ ∃ x letters digits y, Exposed a u s w x letters digits y) (b : Nat) :
    Kept a b u s w := by
  refine kept_iff.2 fun p d q hs => ?_
  rw [hs, List.append_assoc, List.cons_append, ← List.append_assoc]
  rcases images_or_refers a b (u ++ p) (q ++ w) d with
    himage | ⟨v, t, w', p', q', hrefers, hv, ht, hw, hd⟩
  · exact himage
  · exact absurd (h.exists_exposed hrefers hs hv ht hw hd) hnone

/-- An identifier of ASCII letters, digits and underscores is always kept. -/
theorem Identifier.kept_of_plain (h : Identifier isLetter u s w)
    (hs : ∀ c ∈ s, Text.isAlphanumeric c = true ∨ c = '_') (a b : Nat) : Kept a b u s w := by
  have hsmall : ∀ c ∈ s, c ≠ '.' ∧ c.toNat < 128 := by
    intro c hc
    rcases hs c hc with halpha | rfl
    · refine ⟨?_, toNat_lt_of_isAlphanumeric halpha⟩
      rintro rfl
      cases halpha
    · decide
  refine h.kept ?_ b
  rintro ⟨x, letters, digits, y, hexposed⟩
  have hsplit := hexposed.split
  rcases List.eq_nil_or_concat x with rfl | ⟨x, c, rfl⟩
  · cases y with
    | nil =>
      have hvalue := (Option.filter_eq_some_iff.1 hexposed.row).1
      rw [List.nil_append, List.append_nil] at hsplit
      refine h.name letters digits hsplit hexposed.length hexposed.letters ?_
        (Text.isDigit_of_natural? hvalue)
      rintro rfl
      cases hvalue
    | cons c y =>
      have hc := hsmall c (by simp [hsplit])
      have hafter := hexposed.after
      rw [HasRoomAfter, if_neg (List.cons_ne_nil c y)] at hafter
      rcases hafter c rfl with hdot | ⟨hlarge, -⟩
      · exact hc.1 hdot
      · omega
  · rw [List.concat_eq_append] at hsplit hexposed
    have hc := hsmall c (by simp [hsplit])
    have hbefore := hexposed.before
    rw [HasRoomBefore, if_neg (by simp)] at hbefore
    have := hbefore c (by simp)
    omega

end kept

/-- An identifier is kept by a move exactly if none of its parts names the row that is left and has
room for a reference on both sides. It then stands in the moved formula. -/
theorem kept_identifier_iff {isLetter : Char → Bool} {u s w : List Char}
    (h : Identifier isLetter u s w) (a b : Nat) :
    (Kept a b u s w ↔ a = b ∨ ¬ ∃ x letters digits y, Exposed a u s w x letters digits y) ∧
      ((a = b ∨ ¬ ∃ x letters digits y, Exposed a u s w x letters digits y) →
        moveRow a b (String.ofList (u ++ (s ++ w))) =
          String.ofList (movedPart a b [] u (s ++ w) ++ (s ++ movedPart a b (u ++ s) w []))) := by
  have hkept : (a = b ∨ ¬ ∃ x letters digits y, Exposed a u s w x letters digits y) →
      Kept a b u s w := by
    rintro (rfl | hnone)
    · exact kept_iff.2 fun x d y hs => by simp [images, hs]
    · exact h.kept hnone b
  refine ⟨⟨fun hself => Classical.or_iff_not_imp_left.2 fun hab => ?_, hkept⟩, fun hnone => ?_⟩
  · rintro ⟨x, letters, digits, y, hexposed⟩
    exact hexposed.not_kept hab h hself
  · exact (hkept hnone).moveRow_eq

/-- What has another character than capitals and digits is no reference as a whole. -/
theorem not_reference_of_mem {s : List Char} {c : Char} (hc : c ∈ s)
    (hcapital : Text.isCapital c = false) (hdigit : Text.isDigit c = false)
    (letters digits : List Char) (hs : s = letters ++ digits)
    (hletters : ∀ c ∈ letters, Text.isCapital c = true) :
    ¬ ∀ c ∈ digits, Text.isDigit c = true := by
  intro hdigits
  subst hs
  rcases List.mem_append.1 hc with hc | hc
  · rw [hletters c hc] at hcapital
    cases hcapital
  · rw [hdigits c hc] at hdigit
    cases hdigit

theorem accented_name_kept_iff : Identifier (· = 'é') "2*$".toList "A2é".toList "*B2".toList ∧
    moveRow 2 3 "2*$A2é*B2" = "2*$A3é*B3" ∧
    ¬ Kept 2 3 "2*$".toList "A2é".toList "*B2".toList ∧
    (Kept 2 3 "2*$".toList "A2é".toList "*B2".toList ↔ 2 = 3 ∨ ¬ ∃ x letters digits y,
      Exposed 2 "2*$".toList "A2é".toList "*B2".toList x letters digits y) := by
  have h : Identifier (· = 'é') "2*$".toList "A2é".toList "*B2".toList := by
    refine ⟨List.all_eq_true.1 (by decide +kernel), fun c hc => ?_, fun c hc => ?_, Or.inl rfl, ?_⟩
    · obtain rfl : '$' = c := Option.some.inj hc
      decide
    · obtain rfl : '*' = c := Option.some.inj hc
      decide
    · exact fun letters digits hs _ hletters _ => not_reference_of_mem (c := 'é') (by decide)
        (by decide) (by decide) letters digits hs hletters
  exact ⟨h, by decide +kernel, by decide +kernel, (kept_identifier_iff h 2 3).1⟩

/-- The part of a name that stands before a dot is moved. -/
theorem dotted_name_moved : Identifier (fun _ => false) [] "Q2.total".toList [] ∧
    ¬ Kept 2 3 [] "Q2.total".toList [] ∧ moveRow 2 3 "Q2.total" = "Q3.total" := by
  refine ⟨⟨List.all_eq_true.1 (by decide +kernel), by simp, by simp, by simp, ?_⟩,
    by decide +kernel, by decide +kernel⟩
  exact fun letters digits hs _ hletters _ =>
    not_reference_of_mem (c := '.') (by decide) (by decide) (by decide) letters digits hs hletters

end SheetTemplate.Formula
