import SheetTemplate.Proofs.Formula.Image
import SheetTemplate.Proofs.Grid.Naming
/-!
References into other sheets. A move keeps the first corner of such a reference, since an
exclamation mark stands before it, and takes the second corner and what stands in the sheet's name
like any other text of the formula.
-/
namespace SheetTemplate.Formula

/-- A character of a sheet name that needs no quotes. -/
def isNameChar (c : Char) : Bool :=
  Text.isAlphanumeric c || c = '_' || c = '.' || 128 ≤ c.toNat

/-- The name of a sheet as a formula has it. -/
inductive SheetName : List Char → Prop
  | plain {q : List Char} (hne : q ≠ []) (h : ∀ c ∈ q, isNameChar c = true) : SheetName q
  | quoted (name : List Char) :
    SheetName ('\'' :: (name.flatMap (fun c => if c = '\'' then ['\'', '\''] else [c]) ++ ['\'']))

/-- A cell, or a range between two cells, as a formula has it. -/
inductive Area : List Char → Prop
  | cell {x : List Char} (h : (CellRef.ofChars? x).isSome = true) : Area x
  | range {x y : List Char} (hx : (CellRef.ofChars? x).isSome = true)
      (hy : (CellRef.ofChars? y).isSome = true) : Area (x ++ ':' :: y)

/-- The area `r` of the sheet `q` may stand before `w` as a reference of its own. -/
structure Qualified (q r w : List Char) : Prop where
  name : SheetName q
  area : Area r
  ends : ∀ c ∈ w.head?, isNameChar c = false

/-- Nothing in a reference into another sheet is taken for a reference to row `a` of the own sheet:
no part of the sheet's name, and not the second corner. -/
structure Unmistaken (a : Nat) (u q r w : List Char) : Prop where
  name : ∀ v t z, u ++ q = v ++ (t.chars ++ z) → z.length < q.length →
    ¬ Refers a v t (z ++ '!' :: (r ++ w))
  corner : ∀ x t, r = x ++ ':' :: t.chars → ¬ Refers a (u ++ (q ++ '!' :: (x ++ [':']))) t w

/-! ### Characters of cell names -/

private theorem opensReference_of_isDigit {c : Char} (h : Text.isDigit c = true) :
    opensReference c = false := by
  simp [opensReference, Text.isAlphanumeric, h]

/-- No reference begins after a character of a cell's name. -/
theorem opensReference_of_mem_cell {x : List Char} (h : (CellRef.ofChars? x).isSome = true) :
    ∀ c ∈ x, opensReference c = false := by
  obtain ⟨place, hplace⟩ := Option.isSome_iff_exists.1 h
  obtain ⟨dollar, letters, dollar', digits, rfl, hletters, -, hdigits, -⟩ :=
    CellRef.exists_spelled_of_ofChars? hplace
  intro c hc
  rcases List.mem_append.1 hc with hc | hc
  · exact opensReference_of_mem_dollar hc
  rcases List.mem_append.1 hc with hc | hc
  · exact opensReference_of_isCapital (hletters c hc)
  rcases List.mem_append.1 hc with hc | hc
  · exact opensReference_of_mem_dollar hc
  · exact opensReference_of_isDigit (Text.isDigit_of_natural? hdigits c hc)

/-- A digit of any script is a character of names. -/
theorem isNameChar_of_isDecimalDigit {c : Char} (h : Text.isDecimalDigit c = true) :
    isNameChar c = true := by
  have hblocks : ∀ first ∈ Text.digitBlocks, first = 48 ∨ 128 ≤ first := by decide
  simp only [Text.isDecimalDigit, List.any_eq_true, Bool.and_eq_true, decide_eq_true_eq] at h
  obtain ⟨first, hfirst, hlow, hhigh⟩ := h
  rcases hblocks first hfirst with rfl | hlarge
  · have hdigit : Text.isDigit c = true := by
      simp only [Text.isDigit, Bool.and_eq_true, decide_eq_true_eq]
      exact ⟨hlow, Nat.le_of_lt_succ hhigh⟩
    simp [isNameChar, Text.isAlphanumeric, hdigit]
  · simp [isNameChar, show 128 ≤ c.toNat by omega]

theorem Refers.exclamation_not_mem {a : Nat} {u w : List Char} {t : Token} (h : Refers a u t w) :
    '!' ∉ t.chars := by
  obtain ⟨dollar, letters, digits, rfl, -⟩ := liveRow?_eq_some h.row_eq
  obtain ⟨-, -, hletters, -, hdigits⟩ := h.proper
  simp only [Token.chars, List.mem_append, not_or]
  refine ⟨?_, fun hmem => absurd (hletters _ hmem) (by decide),
    fun hmem => absurd (hdigits _ hmem) (by decide)⟩
  cases dollar <;> decide

/-- A dollar sign before the row keeps a name from being a candidate. -/
theorem front?_absolute (dollar : Bool) {letters : List Char} (hne : letters ≠ [])
    (h : ∀ c ∈ letters, Text.isCapital c = true) (rest : List Char) :
    front? ((if dollar then ['$'] else []) ++ (letters ++ '$' :: rest)) = none := by
  have hnot : ¬ BeginsCandidate (letters ++ '$' :: rest) := by
    rintro ⟨-, hdigit⟩
    rw [List.dropWhile_append_of_pos h] at hdigit
    exact absurd hdigit (by decide : Text.isDecimalDigit '$' ≠ true)
  obtain ⟨l, ls, rfl⟩ := List.exists_cons_of_ne_nil hne
  have hl := h l List.mem_cons_self
  cases dollar with
  | true => exact referenceAfter?_eq_none_iff.2 hnot
  | false =>
    have hquote : l ≠ '"' := by rintro rfl; cases hl
    have hdollar : l ≠ '$' := by rintro rfl; cases hl
    refine front?_eq_none_iff.2 ?_
    rw [if_neg hquote, if_neg hdollar]
    exact hnot

/-- A reference that begins where the whole name of a cell begins is that name. -/
theorem Refers.eq_cell {a : Nat} {v w w' y : List Char} {t : Token} (h : Refers a v t w')
    (hy : (CellRef.ofChars? y).isSome = true) (hw : ∀ c ∈ w.head?, isNameChar c = false)
    (heq : y ++ w = t.chars ++ w') : t.chars = y ∧ w' = w := by
  obtain ⟨place, hplace⟩ := Option.isSome_iff_exists.1 hy
  obtain ⟨dollar, letters, dollar', digits, rfl, hletters, hcolumn, hdigits, -⟩ :=
    CellRef.exists_spelled_of_ofChars? hplace
  obtain ⟨hlow, hhigh⟩ := Column.length_of_ofLetters? hcolumn
  have hfront : front? (t.chars ++ w') = some t := by
    obtain ⟨dollar, letters, digits, rfl, -⟩ := liveRow?_eq_some h.row_eq
    exact front?_reference_append h.proper h.stop
  rw [← heq] at hfront
  cases dollar' with
  | true =>
    have hnone := front?_absolute dollar (List.ne_nil_of_length_pos hlow) hletters
      (digits ++ w)
    simp only [CellRef.spelled, List.append_assoc, if_true, List.cons_append, List.nil_append]
      at hfront hnone
    rw [hnone] at hfront
    cases hfront
  | false =>
    have hproper : (Token.reference dollar letters digits).Proper := by
      refine ⟨hlow, hhigh, hletters, ?_, fun c hc => ?_⟩
      · rintro rfl
        cases hdigits
      · exact Text.isDecimalDigit_of_isDigit c (Text.isDigit_of_natural? hdigits c hc)
    have hstop : ∀ c ∈ w.head?, Text.isDecimalDigit c = false := by
      intro c hc
      refine Bool.eq_false_iff.2 fun hd => ?_
      have hname := isNameChar_of_isDecimalDigit hd
      rw [hw c hc] at hname
      cases hname
    have hself : front? (CellRef.spelled dollar letters false digits ++ w) =
        some (.reference dollar letters digits) := front?_reference_append hproper hstop
    rw [hself] at hfront
    obtain rfl := Option.some.inj hfront
    exact ⟨rfl, (List.append_cancel_left heq).symm⟩

/-! ### What a move keeps -/

section unmistaken
variable {a : Nat} {u q r w v x y x' y' w' : List Char} {d : Char} {t : Token}

/-- Whatever reaches into the sheet's name ends in it. -/
theorem Unmistaken.not_in_name (h : Unmistaken a u q r w) (hrefers : Refers a v t w')
    (hq : q = x ++ d :: y) (hv : u ++ x = v ++ x') (ht : t.chars = x' ++ d :: y')
    (hw : y ++ '!' :: (r ++ w) = y' ++ w') : False := by
  rcases cases_append_cons hw.symm with ⟨z, rfl, rfl⟩ | ⟨z, rfl, -⟩
  · refine h.name v t z ?_ ?_ hrefers
    · rw [hq, ht, ← List.append_assoc, hv]
      simp only [List.append_assoc, List.cons_append]
    · simp only [hq, List.length_append, List.length_cons]
      omega
  · refine hrefers.exclamation_not_mem ?_
    rw [ht]
    simp

/-- Whatever reaches into the area begins after the exclamation mark, hence behind a colon. -/
theorem Unmistaken.not_in_area (h : Unmistaken a u q r w) (hqualified : Qualified q r w)
    (hrefers : Refers a v t w') (hr : r = x ++ d :: y) (hv : u ++ (q ++ '!' :: x) = v ++ x')
    (ht : t.chars = x' ++ d :: y') (hw : y ++ w = y' ++ w') : False := by
  obtain ⟨dollar, letters, digits, -, hbefore, -⟩ := liveRow?_eq_some hrefers.row_eq
  have hopen {s e : List Char} (hse : v = s ++ e) (hne : e ≠ []) :
      ¬ ∀ c ∈ e, opensReference c = false := by
    intro hall
    rw [hse, List.getLast?_append, List.getLast?_eq_some_getLast hne, Option.some_or,
      Option.all_some, hall _ (List.getLast_mem hne)] at hbefore
    cases hbefore
  rw [← List.append_assoc] at hv
  rcases cases_append_cons hv.symm with ⟨z, hq, hx'⟩ | ⟨z, rfl, rfl⟩
  · refine hrefers.exclamation_not_mem ?_
    rw [ht, hx']
    simp
  by_cases hz : z = []
  · subst hz
    refine hopen rfl (List.cons_ne_nil _ _) fun c hc => ?_
    rw [List.mem_singleton.1 hc]
    decide
  have hopen' : ¬ ∀ c ∈ z, opensReference c = false :=
    hopen (s := u ++ q ++ ['!']) (by simp) hz
  rw [List.append_assoc] at hr
  cases hqualified.area with
  | cell hcell =>
    exact hopen' fun c hc => opensReference_of_mem_cell hcell c (hr ▸ List.mem_append_left _ hc)
  | @range first second hfirst hsecond =>
    rcases cases_append_cons hr.symm with ⟨z', rfl, -⟩ | ⟨z', rfl, rfl⟩
    · exact hopen' fun c hc => opensReference_of_mem_cell hfirst c (List.mem_append_left _ hc)
    · cases z' with
      | nil =>
        obtain ⟨htoken, rfl⟩ := hrefers.eq_cell hsecond hqualified.ends (by simp [ht, hw])
        refine h.corner first t (by rw [htoken]) ?_
        simpa using hrefers
      | cons e z' =>
        refine hopen (s := u ++ q ++ '!' :: (first ++ [':'])) (by simp) (List.cons_ne_nil e z') ?_
        exact fun c hc => opensReference_of_mem_cell hsecond c (List.mem_append_left _ hc)

theorem Unmistaken.kept (h : Unmistaken a u q r w) (hqualified : Qualified q r w) (b : Nat) :
    Kept a b u (q ++ '!' :: r) w := by
  refine kept_iff.2 fun x d y hs => ?_
  rw [hs, List.append_assoc, List.cons_append, ← List.append_assoc]
  rcases images_or_refers a b (u ++ x) (y ++ w) d with
    himage | ⟨v, t, w', x', y', hrefers, hv, ht, hw, hdigit⟩
  · exact himage
  exfalso
  rcases cases_append_cons hs with ⟨z, rfl, hz⟩ | ⟨z, rfl, rfl⟩
  · cases z with
    | nil =>
      obtain ⟨rfl, -⟩ := List.cons.inj hz
      revert hdigit
      decide
    | cons e z =>
      obtain ⟨rfl, hr⟩ := List.cons.inj hz
      exact h.not_in_area hqualified hrefers hr hv ht hw
  · exact h.not_in_name hrefers rfl hv ht (by simpa using hw)

theorem Kept.unmistaken {b : Nat} (hab : a ≠ b) (h : Kept a b u (q ++ '!' :: r) w) :
    Unmistaken a u q r w where
  name := by
    intro v t z hsplit hz hrefers
    obtain ⟨x, d, ht, hne⟩ := hrefers.exists_images_ne hab
    have hlast : u ++ q = v ++ x ++ d :: z := by
      rw [hsplit, ht]
      simp only [List.append_assoc, List.singleton_append]
    have hall := congrArg (· ++ '!' :: (r ++ w)) hsplit
    simp only [List.append_assoc] at hall
    rcases cases_append_cons hlast with ⟨y, hv, rfl⟩ | ⟨y, -, rfl⟩
    · have himage := kept_iff.1 h y d (z ++ '!' :: r) (by simp)
      refine hne ?_
      rw [← hall, hv]
      simpa using himage
    · rw [List.length_append] at hz
      omega
  corner := by
    rintro x t rfl hrefers
    obtain ⟨y, d, ht, hne⟩ := hrefers.exists_images_ne hab
    have himage := kept_iff.1 h (q ++ '!' :: (x ++ ':' :: y)) d [] (by simp [ht])
    exact hne (by simpa [ht] using himage)

end unmistaken

/-- A cell of a sheet whose name has ASCII letters, digits and underscores only is always kept. -/
theorem kept_cell_of_plain {q r w : List Char} (hne : q ≠ [])
    (hq : ∀ c ∈ q, Text.isAlphanumeric c = true ∨ c = '_')
    (hr : (CellRef.ofChars? r).isSome = true) (hw : ∀ c ∈ w.head?, isNameChar c = false)
    (a b : Nat) (u : List Char) : Kept a b u (q ++ '!' :: r) w := by
  have hname : ∀ c ∈ q, isNameChar c = true := by
    intro c hc
    rcases hq c hc with h | h <;> simp [isNameChar, h]
  have hclose : ∀ c ∈ q, closesReference c = false := by
    intro c hc
    rcases hq c hc with h | h <;> simp [closesReference, h]
  have hqualified : Qualified q r w := ⟨.plain hne hname, .cell hr, hw⟩
  refine Unmistaken.kept ⟨?_, ?_⟩ hqualified b
  · intro v t z hsplit hz hrefers
    obtain ⟨dollar, letters, digits, -, -, hafter, -⟩ := liveRow?_eq_some hrefers.row_eq
    cases z with
    | nil => cases hafter
    | cons c z =>
      have hc : c ∈ q := by
        rw [← List.append_assoc] at hsplit
        rcases cases_append_cons hsplit with ⟨y, -, rfl⟩ | ⟨y, -, rfl⟩
        · exact List.mem_append_right _ List.mem_cons_self
        · simp only [List.length_cons, List.length_append] at hz
          omega
      rw [List.cons_append, List.head?_cons, Option.all_some, hclose c hc] at hafter
      cases hafter
  · rintro x t rfl -
    have hcolon := opensReference_of_mem_cell hr ':' (by simp)
    cases hcolon

/-- A reference into another sheet is kept by a move exactly if nothing in it is taken for a
reference to the row that is left. It then stands in the moved formula. -/
theorem kept_qualified_iff {q r w : List Char} (h : Qualified q r w) (a b : Nat) (u : List Char) :
    (Kept a b u (q ++ '!' :: r) w ↔ a = b ∨ Unmistaken a u q r w) ∧
      (a = b ∨ Unmistaken a u q r w →
        moveRow a b (String.ofList (u ++ ((q ++ '!' :: r) ++ w))) =
          String.ofList (movedPart a b [] u ((q ++ '!' :: r) ++ w) ++
            ((q ++ '!' :: r) ++ movedPart a b (u ++ (q ++ '!' :: r)) w []))) := by
  have hkept : a = b ∨ Unmistaken a u q r w → Kept a b u (q ++ '!' :: r) w := by
    rintro (rfl | hclear)
    · exact kept_iff.2 fun x d y hs => by simp [images, hs]
    · exact hclear.kept h b
  refine ⟨⟨fun h => Classical.or_iff_not_imp_left.2 fun hab => h.unmistaken hab, hkept⟩, ?_⟩
  exact fun hclear => (hkept hclear).moveRow_eq

theorem quoted_range_kept_iff : Qualified "'It''s A2'".toList "$B2:C$2".toList ")".toList ∧
    moveRow 2 3 "SUM('It''s A2'!$B2:C$2)" = "SUM('It''s A3'!$B2:C$2)" ∧
    ¬ Kept 2 3 "SUM(".toList ("'It''s A2'".toList ++ '!' :: "$B2:C$2".toList) ")".toList ∧
    (Kept 2 3 "SUM(".toList ("'It''s A2'".toList ++ '!' :: "$B2:C$2".toList) ")".toList ↔
      2 = 3 ∨ Unmistaken 2 "SUM(".toList "'It''s A2'".toList "$B2:C$2".toList ")".toList) := by
  have h : Qualified "'It''s A2'".toList "$B2:C$2".toList ")".toList := by
    refine ⟨.quoted "It's A2".toList, .range (x := "$B2".toList) (y := "C$2".toList)
      (by decide +kernel) (by decide +kernel), fun c hc => ?_⟩
    obtain rfl : ')' = c := Option.some.inj hc
    decide
  exact ⟨h, by decide +kernel, by decide +kernel, (kept_qualified_iff h 2 3 "SUM(".toList).1⟩

/-- The second corner of a range in another sheet is moved. -/
theorem second_corner_moved : Qualified "Data".toList "B2:C2".toList [] ∧
    ¬ Kept 2 3 [] ("Data".toList ++ '!' :: "B2:C2".toList) [] ∧
    moveRow 2 3 "Data!B2:C2" = "Data!B2:C3" := by
  refine ⟨⟨.plain (by decide) (List.all_eq_true.1 (by decide)),
    .range (x := "B2".toList) (y := "C2".toList) (by decide +kernel) (by decide +kernel),
    fun c hc => by cases hc⟩, by decide +kernel, by decide +kernel⟩

end SheetTemplate.Formula
