import Mathlib.Data.List.Basic
import SheetTemplate.Json.Reader
import SheetTemplate.Proofs.Text.Numeral
import SheetTemplate.Proofs.Text.Run
/-!
Strings and whole numbers of a JSON text: what is written for them is read back, and the reader
stops exactly where they end.
-/
namespace SheetTemplate.Json

/-! ## Strings -/

private theorem natural?_control : ∀ n < 32,
    Text.natural? 16 ['0', '0', hexDigit (n / 16), hexDigit (n % 16)] = some n := by
  decide

/-- An escaped character is read back as that character. -/
theorem inside?_escape (c : Char) (rest : List Char) :
    inside? (escape c ++ rest) = (inside? rest).map fun (cs, left) => (c :: cs, left) := by
  by_cases hnamed : c ∈ ['"', '\\', '\x08', '\x0c', '\n', '\r', '\t']
  · simp only [List.mem_cons, List.not_mem_nil, or_false] at hnamed
    rcases hnamed with rfl | rfl | rfl | rfl | rfl | rfl | rfl <;> rfl
  · simp only [List.mem_cons, List.not_mem_nil, or_false, not_or] at hnamed
    obtain ⟨hquote, hbackslash, hb, hf, hn, hr, ht⟩ := hnamed
    by_cases hlow : c.toNat < 32
    · have hshape : escape c =
          ['\\', 'u', '0', '0', hexDigit (c.toNat / 16), hexDigit (c.toNat % 16)] := by
        simp [escape, *]
      rw [hshape]
      simp only [List.cons_append, List.nil_append]
      rw [inside?, natural?_control _ hlow]
      simp only
      rw [if_neg (by omega), if_neg (by omega), Char.ofNat_toNat]
    · have hshape : escape c = [c] := by simp [escape, *]
      -- The cases of the definition that begin with a quote or a backslash do not apply.
      rw [hshape, List.singleton_append, inside?, if_neg (by simp [hlow, hbackslash])]
      · exact hquote
      · exact fun _ _ _ _ _ hc => absurd hc hbackslash
      · exact fun _ _ hc => absurd hc hbackslash

/-- What is written for a text is read back as the text. -/
theorem inside?_quoted (cs rest : List Char) :
    inside? (cs.flatMap escape ++ '"' :: rest) = some (cs, rest) := by
  induction cs with
  | nil => rfl
  | cons c cs ih =>
    rw [List.flatMap_cons, List.append_assoc, inside?_escape, ih]
    rfl

/-! ## Whole numbers -/

/-- What may follow a value without changing how it is read: nothing, a comma or the end of a
container. -/
def Ends (rest : List Char) : Prop :=
  ∀ c ∈ rest.head?, c ∈ [',', ']', '}']

variable {rest : List Char}

theorem Ends.nil : Ends [] := by
  simp [Ends]

theorem Ends.cons {c : Char} (h : c ∈ [',', ']', '}']) : Ends (c :: rest) := by
  simpa [Ends] using h

/-- The first character after a value belongs to no number. -/
theorem Ends.foreign (h : Ends rest) : ∀ c ∈ rest.head?,
    Text.isDigit c = false ∧ c ≠ '.' ∧ c ≠ 'e' ∧ c ≠ 'E' := by
  intro c hc
  have hmem := h c hc
  simp only [List.mem_cons, List.not_mem_nil, or_false] at hmem
  rcases hmem with rfl | rfl | rfl <;> decide

private theorem gather_of_ends (h : Ends rest) (n : Nat) : gather n rest = (n, rest) := by
  cases rest with
  | nil => rfl
  | cons c rest => simp [gather, (h.foreign c rfl).1]

/-- The value of the first digits is at most that of all digits. -/
private theorem valueOf_le_append (front ds : List Char) :
    Text.valueOf front ≤ Text.valueOf (front ++ ds) := by
  induction ds generalizing front with
  | nil => simp
  | cons c ds ih =>
    have hstep : Text.valueOf (front ++ [c]) = Text.valueOf front * 10 + (c.toNat - 48) := by
      simp [Text.valueOf]
    have hrest := ih (front ++ [c])
    rw [List.append_assoc, List.singleton_append] at hrest
    omega

/-- Digits are gathered to their value as long as that fits 64 bits. -/
theorem gather_append (front : List Char) {ds : List Char}
    (hds : ∀ c ∈ ds, Text.isDigit c = true) (hfit : Text.valueOf (front ++ ds) < twoTo 64)
    (h : Ends rest) :
    gather (Text.valueOf front) (ds ++ rest) = (Text.valueOf (front ++ ds), rest) := by
  induction ds generalizing front with
  | nil => simpa using gather_of_ends h (Text.valueOf front)
  | cons c ds ih =>
    obtain ⟨hc, hds⟩ := List.forall_mem_cons.1 hds
    have hstep : Text.valueOf front * 10 + (c.toNat - 48) = Text.valueOf (front ++ [c]) := by
      simp [Text.valueOf]
    have hsplit : front ++ c :: ds = front ++ [c] ++ ds := by simp
    rw [hsplit] at hfit ⊢
    have hnext := Nat.lt_of_le_of_lt (valueOf_le_append (front ++ [c]) ds) hfit
    rw [List.cons_append, gather, if_pos (by simp [hc, hstep, hnext]), hstep]
    exact ih (front ++ [c]) hds hfit

/-- The digits of a number other than zero do not begin with a zero. -/
theorem head?_digits_ne {n : Nat} (h : n ≠ 0) : (Text.digits n).head? ≠ some '0' := by
  induction n using Text.digits.induct with
  | case1 n hn =>
    rw [Text.digits, if_pos hn]
    have hdigit : ∀ d < 10, d ≠ 0 → Text.digitChar d ≠ '0' := by decide
    simpa using hdigit n hn h
  | case2 n hn ih =>
    rw [Text.digits, if_neg hn, List.head?_append_of_ne_nil _ (Text.digits_ne_nil _)]
    exact ih (by omega)

private theorem whole?_digits {n : Nat} (hfit : n < twoTo 64) (h : Ends rest) :
    whole? (Text.digits n ++ rest) = some (⟨true, n, 0⟩, rest) := by
  have hall : ∀ c ∈ Text.digits n, Text.isDigit c = true := fun c => Text.isDigit_of_mem_digits
  have hgather : gather 0 (Text.digits n ++ rest) = (n, rest) := by
    have := gather_append [] hall (by rwa [List.nil_append, Text.valueOf_digits]) h
    rwa [List.nil_append, Text.valueOf_digits] at this
  have hrest : rest.takeWhile Text.isDigit = [] ∧ rest.dropWhile Text.isDigit = rest := by
    cases rest with
    | nil => exact ⟨rfl, rfl⟩
    | cons c rest => simp [(h.foreign c rfl).1]
  obtain ⟨c, cs, hcs⟩ := List.exists_cons_of_ne_nil (Text.digits_ne_nil n)
  rw [hcs] at hgather hall ⊢
  have hc := hall c List.mem_cons_self
  rw [List.cons_append] at hgather ⊢
  rw [whole?.eq_def]
  dsimp only
  by_cases hn : n = 0
  · subst hn
    obtain ⟨rfl, rfl⟩ : c = '0' ∧ cs = [] := by
      have hzero : Text.digits 0 = ['0'] := by decide +kernel
      simpa [hzero, eq_comm] using hcs
    cases rest with
    | nil => rfl
    | cons d rest => simp [(h.foreign d rfl).1]
  · have hne : c ≠ '0' := by
      have := head?_digits_ne hn
      simpa [hcs] using this
    rw [if_neg hne, if_pos hc, hgather]
    simp [hrest]

private theorem fraction?_of_ends (g : Gathered) (h : Ends rest) :
    fraction? g rest = some (g, rest) := by
  cases rest with
  | nil => rfl
  | cons c rest =>
    rw [fraction?]
    rintro cs hcs
    exact (h.foreign c rfl).2.1 (List.cons.inj hcs).1

private theorem exponent?_of_ends (h : Ends rest) : exponent? rest = some (none, rest) := by
  cases rest with
  | nil => rfl
  | cons c rest =>
    obtain ⟨-, -, he, hE⟩ := h.foreign c rfl
    simp [exponent?, he, hE]

private theorem unsignedNumber?_digits (negative : Bool) {n : Nat} (hfit : n < twoTo 64)
    (h : Ends rest) : unsignedNumber? negative (Text.digits n ++ rest) =
      some (plainNumber negative n, rest) := by
  simp [unsignedNumber?, whole?_digits hfit h, fraction?_of_ends _ h, exponent?_of_ends h]

/-- Of the whole numbers, those of 64 bits with a sign stay whole. -/
theorem plainNumber_toInt (i : Int64) :
    plainNumber (decide (i.toInt < 0)) i.toInt.natAbs = int i := by
  have hlow : -(twoTo 63 : Int) ≤ i.toInt := i.le_toInt
  have hhigh : i.toInt < (twoTo 63 : Int) := i.toInt_lt
  rw [plainNumber]
  by_cases hsign : i.toInt < 0
  · rw [if_pos (by simp [hsign]), if_pos (by omega),
      show -(i.toInt.natAbs : Int) = i.toInt by omega, Int64.ofInt_toInt]
  · have hnat : Int64.ofNat i.toInt.natAbs = i := by
      rw [← Int64.ofInt_eq_ofNat, show (i.toInt.natAbs : Int) = i.toInt by omega, Int64.ofInt_toInt]
    rw [if_neg (by simp [hsign]), if_pos (by omega), hnat]

/-- A whole number of 64 bits is read back. -/
theorem number?_decimalInt (i : Int64) (h : Ends rest) :
    number? ((Text.decimalInt i.toInt).toList ++ rest) = some (int i, rest) := by
  have hfit : i.toInt.natAbs < twoTo 64 := by
    have hlow : -(twoTo 63 : Int) ≤ i.toInt := i.le_toInt
    have hhigh : i.toInt < (twoTo 63 : Int) := i.toInt_lt
    have hdouble : twoTo 64 = 2 * twoTo 63 := by decide +kernel
    omega
  have hread := unsignedNumber?_digits (decide (i.toInt < 0)) hfit h
  rw [plainNumber_toInt] at hread
  rw [Text.toList_decimalInt]
  by_cases hsign : i.toInt < 0
  · rw [if_pos hsign, List.cons_append, number?]
    simpa [hsign] using hread
  · have hfront : ∀ cs, Text.digits i.toInt.natAbs ++ rest ≠ '-' :: cs := by
      intro cs hcs
      obtain ⟨c, ds, hds⟩ := List.exists_cons_of_ne_nil (Text.digits_ne_nil i.toInt.natAbs)
      have hdigit : Text.isDigit c = true :=
        Text.isDigit_of_mem_digits (hds ▸ List.mem_cons_self)
      rw [hds, List.cons_append] at hcs
      rw [(List.cons.inj hcs).1] at hdigit
      exact absurd hdigit (by decide)
    rw [if_neg hsign, number?]
    · simpa [hsign] using hread
    · exact hfront

end SheetTemplate.Json
