import SheetTemplate.Text.Numeral
/-!
The decimal digits of a number are read back as that number, and only ASCII digits are read.
-/
namespace SheetTemplate.Text

private theorem digitChar_facts : ∀ d < 10, isDigit (digitChar d) = true ∧
    digitIn? 10 (digitChar d) = some d := by
  decide

theorem isDigit_digitChar {d : Nat} (h : d < 10) : isDigit (digitChar d) = true :=
  (digitChar_facts d h).1

theorem digitIn?_digitChar {d : Nat} (h : d < 10) : digitIn? 10 (digitChar d) = some d :=
  (digitChar_facts d h).2

theorem bounds_of_isDigit {c : Char} (h : isDigit c = true) : 48 ≤ c.toNat ∧ c.toNat ≤ 57 := by
  rw [isDigit, Bool.and_eq_true, decide_eq_true_eq, decide_eq_true_eq] at h
  exact h

theorem bounds_of_isCapital {c : Char} (h : isCapital c = true) :
    65 ≤ c.toNat ∧ c.toNat ≤ 90 := by
  rw [isCapital, Bool.and_eq_true, decide_eq_true_eq, decide_eq_true_eq] at h
  exact h

theorem isCapital_eq_false_of_isDigit {c : Char} (h : isDigit c = true) :
    isCapital c = false := by
  have hdigit := bounds_of_isDigit h
  refine Bool.eq_false_iff.2 fun hcapital => ?_
  have hbounds := bounds_of_isCapital hcapital
  omega

private theorem isDigit_of_digitIn? {c : Char} {d : Nat} (h : digitIn? 10 c = some d) :
    isDigit c = true := by
  obtain ⟨hv, hlt⟩ := Option.filter_eq_some_iff.1 h
  have hd : d < 10 := of_decide_eq_true hlt
  unfold digitValue at hv
  split at hv
  · assumption
  · split at hv
    · rename_i hc
      have lower := (bounds_of_isCapital hc).1
      have := Option.some.inj hv
      omega
    · split at hv
      · rename_i hc
        simp only [Bool.and_eq_true, decide_eq_true_eq] at hc
        have lower : 97 ≤ c.toNat := hc.1
        have := Option.some.inj hv
        omega
      · cases hv

theorem digits_ne_nil (n : Nat) : digits n ≠ [] := by
  rw [digits]
  split <;> simp

theorem isDigit_of_mem_digits {n : Nat} {c : Char} (h : c ∈ digits n) : isDigit c = true := by
  induction n using digits.induct with
  | case1 n hn =>
    rw [digits, if_pos hn] at h
    rw [List.mem_singleton.1 h]
    exact isDigit_digitChar hn
  | case2 n hn ih =>
    rw [digits, if_neg hn] at h
    rcases List.mem_append.1 h with h | h
    · exact ih h
    · rw [List.mem_singleton.1 h]
      exact isDigit_digitChar (Nat.mod_lt n (by decide))

private theorem foldlM_digits (n : Nat) :
    (digits n).foldlM (fun n c => (digitIn? 10 c).map (n * 10 + ·)) 0 = some n := by
  induction n using digits.induct with
  | case1 n hn =>
    rw [digits, if_pos hn]
    simp [digitIn?_digitChar hn]
  | case2 n hn ih =>
    have hmod : n % 10 < 10 := Nat.mod_lt n (by decide)
    rw [digits, if_neg hn, List.foldlM_append, ih]
    simp only [Option.bind_eq_bind, Option.bind_some, List.foldlM_cons, List.foldlM_nil,
      digitIn?_digitChar hmod, Option.map_some]
    exact congrArg some (by omega)

@[simp] theorem natural?_digits (n : Nat) : natural? 10 (digits n) = some n := by
  rw [natural?, if_neg (by simp [digits_ne_nil])]
  exact foldlM_digits n

theorem toList_decimalInt (i : Int) :
    (decimalInt i).toList = if i < 0 then '-' :: digits i.natAbs else digits i.natAbs := by
  unfold decimalInt
  split <;> simp [decimal]

/-- A decimal numeral that can be read has ASCII digits only. -/
theorem isDigit_of_natural? {cs : List Char} {n : Nat} (h : natural? 10 cs = some n) :
    ∀ c ∈ cs, isDigit c = true := by
  have hfold : ∀ (cs : List Char) (m n : Nat),
      cs.foldlM (fun n c => (digitIn? 10 c).map (n * 10 + ·)) m = some n →
        ∀ c ∈ cs, isDigit c = true := by
    intro cs
    induction cs with
    | nil => simp
    | cons a cs ih =>
      intro m n hm c hc
      obtain ⟨k, hk, hrest⟩ := Option.bind_eq_some_iff.1 hm
      obtain ⟨d, hd, rfl⟩ := Option.map_eq_some_iff.1 hk
      rcases List.mem_cons.1 hc with rfl | hc
      · exact isDigit_of_digitIn? hd
      · exact ih _ _ hrest c hc
  unfold natural? at h
  split at h
  · cases h
  · exact hfold cs 0 n h

def valueOf (digits : List Char) : Nat :=
  digits.foldl (fun n c => n * 10 + (c.toNat - 48)) 0

private theorem digitIn?_of_isDigit {c : Char} (h : isDigit c = true) :
    digitIn? 10 c = some (c.toNat - 48) := by
  have hbounds := bounds_of_isDigit h
  rw [digitIn?, digitValue, if_pos h, Option.filter_some, if_pos]
  exact decide_eq_true (by omega)

private theorem foldlM_of_isDigit {cs : List Char} (h : ∀ c ∈ cs, isDigit c = true) (m : Nat) :
    cs.foldlM (fun n c => (digitIn? 10 c).map (n * 10 + ·)) m =
      some (cs.foldl (fun n c => n * 10 + (c.toNat - 48)) m) := by
  induction cs generalizing m with
  | nil => rfl
  | cons c cs ih =>
    obtain ⟨hc, hcs⟩ := List.forall_mem_cons.1 h
    rw [List.foldlM_cons, digitIn?_of_isDigit hc, List.foldl_cons]
    exact ih hcs _

/-- A decimal numeral is read as the value of its digits. -/
theorem natural?_eq_some_iff {cs : List Char} {n : Nat} : natural? 10 cs = some n ↔
    cs ≠ [] ∧ (∀ c ∈ cs, isDigit c = true) ∧ valueOf cs = n := by
  have hread (hne : cs ≠ []) (h : ∀ c ∈ cs, isDigit c = true) :
      natural? 10 cs = some (valueOf cs) := by
    rw [natural?, if_neg (by simpa using hne), foldlM_of_isDigit h, valueOf]
  constructor
  · intro h
    have hne : cs ≠ [] := by
      rintro rfl
      cases h
    have hdigits := isDigit_of_natural? h
    rw [hread hne hdigits] at h
    exact ⟨hne, hdigits, Option.some.inj h⟩
  · rintro ⟨hne, hdigits, rfl⟩
    exact hread hne hdigits

theorem valueOf_digits (n : Nat) : valueOf (digits n) = n :=
  (natural?_eq_some_iff.1 (natural?_digits n)).2.2

/-! ## Numerals of a fixed width -/

private theorem length_digits_le {width n : Nat} (hwidth : 0 < width) (h : n < tenTo width) :
    (digits n).length ≤ width := by
  induction n using digits.induct generalizing width with
  | case1 n hn =>
    rw [digits, if_pos hn]
    exact hwidth
  | case2 n hn ih =>
    obtain ⟨width, rfl⟩ : ∃ w, width = w + 1 := ⟨width - 1, by omega⟩
    have hpower : tenTo (width + 1) = tenTo width * 10 := Nat.pow_succ ..
    have hpos : 0 < width := by
      refine Nat.pos_of_ne_zero ?_
      rintro rfl
      exact hn h
    have hlength := ih hpos (by omega)
    rw [digits, if_neg hn, List.length_append, List.length_singleton]
    omega

theorem isDigit_of_mem_padded {width n : Nat} {c : Char} (h : c ∈ (padded width n).toList) :
    isDigit c = true := by
  rw [padded, String.toList_ofList] at h
  rcases List.mem_append.1 h with h | h
  · rw [List.eq_of_mem_replicate h]
    decide
  · exact isDigit_of_mem_digits h

theorem padded_ne_nil (width n : Nat) : (padded width n).toList ≠ [] := by
  simp [padded, digits_ne_nil]

/-- Zeros in front do not change what a numeral stands for. -/
theorem natural?_padded (width n : Nat) : natural? 10 (padded width n).toList = some n := by
  refine natural?_eq_some_iff.2 ⟨padded_ne_nil width n, fun c => isDigit_of_mem_padded, ?_⟩
  have hzeros (k : Nat) :
      (List.replicate k '0').foldl (fun n c => n * 10 + (c.toNat - 48)) 0 = 0 := by
    induction k with
    | zero => rfl
    | succ k ih => exact ih
  rw [padded, String.toList_ofList, valueOf, List.foldl_append, hzeros]
  exact valueOf_digits n

theorem length_padded {width n : Nat} (hwidth : 0 < width) (h : n < tenTo width) :
    (padded width n).toList.length = width := by
  have hle := length_digits_le hwidth h
  rw [padded, String.toList_ofList, List.length_append, List.length_replicate]
  omega

end SheetTemplate.Text
