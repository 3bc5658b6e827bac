import Mathlib.Algebra.Group.Nat.Defs
import SheetTemplate.Grid.Range
import SheetTemplate.Proofs.Text.Blank
import SheetTemplate.Proofs.Text.Numeral
/-!
Names of columns, cells and ranges are read back as what they name, as far as three letters and 32
bits go.
-/
namespace SheetTemplate

namespace Column

private theorem letter_facts : ∀ d < 27, 0 < d →
    Text.isCapital (letter d) = true ∧ (letter d).toNat - 64 = d := by
  decide

theorem isCapital_letter {d : Nat} (hpos : 0 < d) (h : d ≤ 26) :
    Text.isCapital (letter d) = true :=
  (letter_facts d (by omega) hpos).1

private theorem toNat_letter {d : Nat} (hpos : 0 < d) (h : d ≤ 26) : (letter d).toNat - 64 = d :=
  (letter_facts d (by omega) hpos).2

theorem letters_ne_nil (column : Nat) : letters column ≠ [] := by
  rw [letters]
  split <;> simp

theorem isCapital_of_mem_letters {column : Nat} {c : Char} (h : c ∈ letters column) :
    Text.isCapital c = true := by
  induction column using letters.induct with
  | case1 column hc =>
    rw [letters, if_pos hc] at h
    rw [List.mem_singleton.1 h]
    exact isCapital_letter (by omega) (by omega)
  | case2 column hc ih =>
    rw [letters, if_neg hc] at h
    rcases List.mem_append.1 h with h | h
    · exact ih h
    · rw [List.mem_singleton.1 h]
      exact isCapital_letter (by omega) (by omega)

private theorem value?_append_letter {cs : List Char} {n d : Nat} (h : value? cs = some n)
    (hpos : 0 < d) (hd : d ≤ 26) : value? (cs ++ [letter d]) = some (n * 26 + d) := by
  unfold value? at h ⊢
  rw [List.foldlM_append, h]
  simp [isCapital_letter hpos hd, toNat_letter hpos hd]

theorem value?_letters {column : Nat} (h : 0 < column) : value? (letters column) = some column := by
  induction column using letters.induct with
  | case1 column hc =>
    rw [letters, if_pos hc, show max column 1 = column by omega]
    simpa using value?_append_letter (show value? [] = some 0 from rfl) h hc
  | case2 column hc ih =>
    rw [letters, if_neg hc, value?_append_letter (ih (by omega)) (by omega) (by omega)]
    exact congrArg some (by omega)

private theorem length_letters_of_le {column : Nat} (h : column ≤ 26) :
    (letters column).length = 1 := by
  rw [letters, if_pos h]
  rfl

private theorem length_letters_of_lt {column : Nat} (h : 26 < column) :
    (letters column).length = (letters ((column - 1) / 26)).length + 1 := by
  rw [letters, if_neg (by omega), List.length_append]
  rfl

/-- How many letters are enough. There are `(26 ^ (k + 2) - 26) / 25` names of up to `k + 1`
letters. -/
theorem length_letters_le_succ_iff (k : Nat) {column : Nat} :
    (letters column).length ≤ k + 1 ↔ 25 * column + 26 ≤ 26 ^ (k + 2) := by
  induction k generalizing column with
  | zero =>
    by_cases hcolumn : column ≤ 26
    · rw [length_letters_of_le hcolumn]
      omega
    · have := List.length_pos_iff.2 (letters_ne_nil ((column - 1) / 26))
      rw [length_letters_of_lt (by omega)]
      omega
  | succ k ih =>
    have hpower : 26 ^ (k + 1 + 2) = 26 * 26 ^ (k + 2) := Nat.pow_succ'
    have hmod : 26 ^ (k + 2) % 25 = 1 := by simp [Nat.pow_mod]
    by_cases hcolumn : column ≤ 26
    · have hpos : 26 ^ 2 ≤ 26 ^ (k + 2) := Nat.pow_le_pow_right (by decide) (by omega)
      rw [length_letters_of_le hcolumn]
      omega
    · have := @ih ((column - 1) / 26)
      rw [length_letters_of_lt (by omega)]
      omega

/-- Three letters are enough up to the column `ZZZ`, and not beyond. -/
theorem length_letters_le_iff {column : Nat} : (letters column).length ≤ 3 ↔ column ≤ 18278 := by
  rw [length_letters_le_succ_iff 2]
  omega

theorem ofLetters?_letters {column : Nat} (h : 0 < column) :
    ofLetters? (letters column) = if column ≤ 18278 then some column else none := by
  have hlength : (letters column).length ≤ 3 ↔ column ≤ 18278 := length_letters_le_iff
  rw [ofLetters?, value?_letters h]
  by_cases hcolumn : column ≤ 18278
  · rw [if_neg (by simp [letters_ne_nil]; omega), if_pos hcolumn]
  · rw [if_pos (by simp; omega), if_neg hcolumn]

theorem length_of_ofLetters? {cs : List Char} {column : Nat} (h : ofLetters? cs = some column) :
    1 ≤ cs.length ∧ cs.length ≤ 3 := by
  rw [ofLetters?, Option.ite_none_left_eq_some, Bool.not_eq_true, Bool.or_eq_false_iff,
    List.isEmpty_eq_false_iff, decide_eq_false_iff_not] at h
  exact ⟨List.length_pos_iff.2 h.1.1, Nat.not_lt.1 h.1.2⟩

theorem bounds_of_isCapital {c : Char} (h : Text.isCapital c = true) :
    1 ≤ c.toNat - 64 ∧ c.toNat - 64 ≤ 26 := by
  have hbounds := Text.bounds_of_isCapital h
  omega

/-- The number of letters bounds the number of the column, from below and from above. -/
theorem bounds_of_ofLetters? {cs : List Char} {column : Nat} (h : ofLetters? cs = some column) :
    0 < column ∧ column ≤ 18278 := by
  have hvalue (cs : List Char) : ∀ n column : Nat,
      cs.foldlM (fun n c =>
        if Text.isCapital c then some (n * 26 + (c.toNat - 64)) else none) n = some column →
      n + cs.length ≤ column ∧ 25 * column + 26 ≤ (25 * n + 26) * 26 ^ cs.length := by
    induction cs with
    | nil =>
      intro n column h
      cases h
      simp
    | cons c cs ih =>
      intro n column h
      obtain ⟨m, hm, hrest⟩ := Option.bind_eq_some_iff.1 h
      obtain ⟨hcapital, hm⟩ := Option.ite_none_right_eq_some.1 hm
      obtain rfl := Option.some.inj hm
      obtain ⟨hlow, hhigh⟩ := ih _ _ hrest
      obtain ⟨hpos, hlast⟩ := bounds_of_isCapital hcapital
      refine ⟨by rw [List.length_cons]; omega, Nat.le_trans hhigh ?_⟩
      rw [List.length_cons, Nat.pow_succ, Nat.mul_comm (26 ^ _) 26, ← Nat.mul_assoc]
      exact Nat.mul_le_mul_right _ (by omega)
  obtain ⟨hfirst, hlength⟩ := length_of_ofLetters? h
  rw [ofLetters?, Option.ite_none_left_eq_some] at h
  obtain ⟨hlow, hhigh⟩ := hvalue cs 0 column h.2
  have hpower : 26 ^ cs.length ≤ 26 ^ 3 := Nat.pow_le_pow_right (by decide) hlength
  omega

end Column

namespace CellRef

theorem dropDollar_of_not_mem {cs : List Char} (h : '$' ∉ cs) : dropDollar cs = cs := by
  unfold dropDollar
  split
  · exact absurd List.mem_cons_self h
  · rfl

theorem isCapital_or_isDigit {place : CellRef} {c : Char} (h : c ∈ place.chars) :
    Text.isCapital c = true ∨ Text.isDigit c = true :=
  (List.mem_append.1 h).imp Column.isCapital_of_mem_letters Text.isDigit_of_mem_digits

/-- A character that is no letter or digit is in no name. -/
theorem not_mem_chars {c : Char} (hcapital : Text.isCapital c = false)
    (hdigit : Text.isDigit c = false) (place : CellRef) : c ∉ place.chars := by
  intro h
  rcases isCapital_or_isDigit h with h | h <;> simp_all

theorem isBlank_of_mem_chars {place : CellRef} {c : Char} (h : c ∈ place.chars) :
    Text.isBlank c = false := by
  rcases isCapital_or_isDigit h with h | h
  · have hbounds := Text.bounds_of_isCapital h
    exact Text.isBlank_eq_false (by omega) hbounds.2
  · have hbounds := Text.bounds_of_isDigit h
    exact Text.isBlank_eq_false hbounds.1 (by omega)

private theorem isCapital_of_mem_head? {row : Nat} :
    ∀ c ∈ (Text.digits row).head?, Text.isCapital c = false := fun _ hc =>
  Text.isCapital_eq_false_of_isDigit (Text.isDigit_of_mem_digits (List.mem_of_mem_head? hc))

/-- The letters of a name are the capitals at its front. -/
theorem takeWhile_chars (place : CellRef) :
    place.chars.takeWhile Text.isCapital = Column.letters place.column := by
  rw [chars, List.takeWhile_append_of_pos fun c hc => Column.isCapital_of_mem_letters hc]
  cases hd : Text.digits place.row with
  | nil => simp
  | cons c cs => simp [isCapital_of_mem_head? c (by rw [hd]; rfl)]

theorem dropWhile_chars (place : CellRef) :
    place.chars.dropWhile Text.isCapital = Text.digits place.row := by
  rw [chars, List.dropWhile_append_of_pos fun c hc => Column.isCapital_of_mem_letters hc]
  cases hd : Text.digits place.row with
  | nil => rfl
  | cons c cs => simp [isCapital_of_mem_head? c (by rw [hd]; rfl)]

theorem ofChars?_chars {place : CellRef} (hrow : 0 < place.row) (hrow' : place.row < twoTo 32)
    (hcolumn : 0 < place.column) :
    ofChars? place.chars = if place.column ≤ 18278 then some place else none := by
  have hdollar : '$' ∉ Text.digits place.row := fun h => by
    have := Text.isDigit_of_mem_digits h
    revert this
    decide
  unfold ofChars?
  simp only [dropDollar_of_not_mem (not_mem_chars (by decide) (by decide) place),
    dropWhile_chars, takeWhile_chars, dropDollar_of_not_mem hdollar, Text.natural?_digits,
    Column.ofLetters?_letters hcolumn]
  by_cases hlast : place.column ≤ 18278
  · simp only [if_pos hlast]
    rw [if_pos ⟨hrow, hrow'⟩]
  · simp only [if_neg hlast]

def spelled (dollar : Bool) (letters : List Char) (dollar' : Bool) (digits : List Char) :
    List Char :=
  (if dollar then ['$'] else []) ++ (letters ++ ((if dollar' then ['$'] else []) ++ digits))

theorem exists_eq_append_dropDollar (cs : List Char) :
    ∃ dollar : Bool, cs = (if dollar then ['$'] else []) ++ dropDollar cs := by
  unfold dropDollar
  split
  · exact ⟨true, rfl⟩
  · exact ⟨false, rfl⟩

/-- Whatever names a cell is letters and digits with dollar signs in front of them. -/
theorem exists_spelled_of_ofChars? {cs : List Char} {place : CellRef}
    (h : ofChars? cs = some place) :
    ∃ dollar letters dollar' digits, cs = spelled dollar letters dollar' digits ∧
      (∀ c ∈ letters, Text.isCapital c = true) ∧
      Column.ofLetters? letters = some place.column ∧
      Text.natural? 10 digits = some place.row ∧ 0 < place.row ∧ place.row < twoTo 32 := by
  simp only [ofChars?] at h
  split at h
  · rename_i row column hrow hcolumn
    rw [Option.ite_none_right_eq_some, Option.some.injEq] at h
    obtain ⟨hbounds, rfl⟩ := h
    obtain ⟨dollar, hcs⟩ := exists_eq_append_dropDollar cs
    obtain ⟨dollar', hrest⟩ :=
      exists_eq_append_dropDollar ((dropDollar cs).dropWhile Text.isCapital)
    refine ⟨dollar, _, dollar', _, ?_, List.all_eq_true.1 List.all_takeWhile, hcolumn, hrow,
      hbounds⟩
    rw [spelled, ← hrest, List.takeWhile_append_dropWhile]
    exact hcs
  · cases h

theorem bounds_of_ofChars? {cs : List Char} {place : CellRef} (h : ofChars? cs = some place) :
    (0 < place.row ∧ place.row < twoTo 32) ∧ 0 < place.column ∧ place.column ≤ 18278 := by
  obtain ⟨_, _, _, _, -, -, hcolumn, -, hrow⟩ := exists_spelled_of_ofChars? h
  exact ⟨hrow, Column.bounds_of_ofLetters? hcolumn⟩

end CellRef

namespace Range

/-- Rows and columns are numbered from 1, rows in 32 bits. -/
structure Placed (r : Range) : Prop where
  top_pos : 0 < r.top
  left_pos : 0 < r.left
  bottom_lt : r.bottom < twoTo 32

/-- A range whose name is read back: its columns have names of up to three letters. -/
structure Nameable (r : Range) : Prop extends r.Placed where
  right_le : r.right ≤ 18278

private theorem trimChars_of_not_blank {cs : List Char} (h : ∀ c ∈ cs, Text.isBlank c = false) :
    Text.trimChars cs = cs :=
  Text.stripBoth_eq_self_of_forall h

theorem toList_text (r : Range) : r.text.toList =
    CellRef.chars ⟨r.top, r.left⟩ ++ ':' :: CellRef.chars ⟨r.bottom, r.right⟩ := by
  simp [text, CellRef.text]

theorem ofText?_text {r : Range} (h : r.Placed) :
    ofText? r.text = if r.right ≤ 18278 then some r else none := by
  have hle := r.top_le_bottom
  have hle' := r.left_le_right
  have hfirst : CellRef.ofChars? (CellRef.chars ⟨r.top, r.left⟩) =
      if r.left ≤ 18278 then some ⟨r.top, r.left⟩ else none :=
    CellRef.ofChars?_chars h.top_pos (Nat.lt_of_le_of_lt hle h.bottom_lt) h.left_pos
  have hlast : CellRef.ofChars? (CellRef.chars ⟨r.bottom, r.right⟩) =
      if r.right ≤ 18278 then some ⟨r.bottom, r.right⟩ else none :=
    CellRef.ofChars?_chars (Nat.lt_of_lt_of_le h.top_pos hle) h.bottom_lt
      (Nat.lt_of_lt_of_le h.left_pos hle')
  have hchars := toList_text r
  have htrim : Text.trimChars r.text.toList = r.text.toList := by
    refine trimChars_of_not_blank fun c hc => ?_
    rw [hchars] at hc
    rcases List.mem_append.1 hc with hc | hc
    · exact CellRef.isBlank_of_mem_chars hc
    · rcases List.mem_cons.1 hc with rfl | hc
      · decide
      · exact CellRef.isBlank_of_mem_chars hc
  have hcolon : ∀ c ∈ CellRef.chars ⟨r.top, r.left⟩, decide (c ≠ ':') = true := fun c hc =>
    decide_eq_true fun he => CellRef.not_mem_chars (by decide) (by decide) _ (he ▸ hc)
  have hdrop : r.text.toList.dropWhile (· ≠ ':') =
      ':' :: CellRef.chars ⟨r.bottom, r.right⟩ := by
    rw [hchars, List.dropWhile_append_of_pos hcolon]
    rfl
  have htake : r.text.toList.takeWhile (· ≠ ':') = CellRef.chars ⟨r.top, r.left⟩ := by
    rw [hchars, List.takeWhile_append_of_pos hcolon]
    simp
  unfold ofText?
  simp only [htrim, hdrop, htake, hfirst, hlast]
  by_cases hright : r.right ≤ 18278
  · simp only [if_pos hright, if_pos (Nat.le_trans hle' hright), ofCorners, Nat.min_eq_left hle,
      Nat.max_eq_right hle, Nat.min_eq_left hle', Nat.max_eq_right hle']
  · simp only [if_neg hright]
    split
    · rename_i hnone
      cases hnone
    · rfl

theorem nameable_ofCorners {a b : CellRef} {cs cs' : List Char}
    (ha : CellRef.ofChars? cs = some a) (hb : CellRef.ofChars? cs' = some b) :
    (ofCorners a b).Nameable := by
  obtain ⟨⟨hrow, hrow'⟩, hcolumn, hcolumn'⟩ := CellRef.bounds_of_ofChars? ha
  obtain ⟨⟨hlast, hlast'⟩, hright, hright'⟩ := CellRef.bounds_of_ofChars? hb
  refine ⟨⟨?_, ?_, ?_⟩, ?_⟩ <;> simp only [ofCorners] <;> omega

/-- A range that is read from a text can be named again. -/
theorem nameable_of_ofText? {s : String} {r : Range} (h : ofText? s = some r) : r.Nameable := by
  simp only [ofText?] at h
  split at h
  · cases h
  · split at h
    · rename_i a b ha hb
      obtain rfl := Option.some.inj h
      exact nameable_ofCorners ha hb
    · cases h

theorem Nameable.ofText?_text {r : Range} (h : r.Nameable) : ofText? r.text = some r := by
  rw [Range.ofText?_text h.toPlaced, if_pos h.right_le]

end Range

end SheetTemplate
