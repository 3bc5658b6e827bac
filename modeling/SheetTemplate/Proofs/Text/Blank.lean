import Mathlib.Data.List.DropRight
import SheetTemplate.Text.Blank
/-!
What is left of characters when those at both ends are taken off, and when nothing is.
-/
namespace SheetTemplate.Text
variable {p q : Char → Bool} {cs : List Char} {c : Char}

private theorem mem_of_mem_stripBoth (h : c ∈ stripBoth p cs) : c ∈ cs := by
  have hback := (List.dropWhile_sublist p).mem (List.mem_reverse.1 h)
  exact (List.dropWhile_sublist p).mem (List.mem_reverse.1 hback)

theorem mem_of_mem_trimChars (h : c ∈ trimChars cs) : c ∈ cs :=
  mem_of_mem_stripBoth h

theorem stripBoth_eq_rdropWhile (p : Char → Bool) (cs : List Char) :
    stripBoth p cs = (cs.dropWhile p).rdropWhile p := rfl

theorem length_stripBoth_le (p : Char → Bool) (cs : List Char) :
    (stripBoth p cs).length ≤ cs.length :=
  (List.rdropWhile_prefix p _).length_le.trans (List.dropWhile_suffix p).length_le

/-- Nothing is taken off if both ends stay. -/
theorem stripBoth_eq_self (hfirst : ∀ c, cs.head? = some c → p c = false)
    (hlast : ∀ c, cs.getLast? = some c → p c = false) : stripBoth p cs = cs := by
  cases cs with
  | nil => rfl
  | cons a as =>
    have hkeep : (a :: as).dropWhile p = a :: as :=
      List.dropWhile_cons_of_neg (by simp [hfirst a rfl])
    rw [stripBoth_eq_rdropWhile, hkeep, List.rdropWhile_eq_self_iff]
    intro hne
    simp [hlast _ (List.getLast?_eq_some_getLast hne)]

theorem stripBoth_between {a b : Char} (ha : p a = false) (hb : p b = false) (cs : List Char) :
    stripBoth p (a :: cs ++ [b]) = a :: cs ++ [b] := by
  apply stripBoth_eq_self
  · rintro c hc
    obtain rfl : a = c := Option.some.inj hc
    exact ha
  · rintro c hc
    rw [List.getLast?_concat, Option.some.injEq] at hc
    exact hc ▸ hb

private theorem ends_of_stripBoth_eq_self (h : stripBoth p cs = cs) :
    (∀ c, cs.head? = some c → p c = false) ∧ ∀ c, cs.getLast? = some c → p c = false := by
  have hpre : cs <+: cs.dropWhile p := by
    have := List.rdropWhile_prefix p (cs.dropWhile p)
    rwa [← stripBoth_eq_rdropWhile, h] at this
  have hfront : cs.dropWhile p = cs :=
    (List.dropWhile_suffix p).eq_of_length_le hpre.length_le
  have hback : cs.rdropWhile p = cs := by
    rwa [stripBoth_eq_rdropWhile, hfront] at h
  constructor
  · intro c hc
    cases cs with
    | nil => cases hc
    | cons a as =>
      obtain rfl : a = c := Option.some.inj hc
      exact Bool.eq_false_iff.2 (List.dropWhile_eq_self_iff.1 hfront (Nat.succ_pos _))
  · intro c hc
    have hne : cs ≠ [] := List.ne_nil_of_mem (List.mem_of_getLast? hc)
    have hend := List.rdropWhile_eq_self_iff.1 hback hne
    rw [List.getLast?_eq_some_getLast hne, Option.some.injEq] at hc
    simpa [hc] using hend

/-- What has nothing of a class at its ends has nothing of a smaller class there either. -/
theorem stripBoth_eq_self_of_subclass (hsub : ∀ c, p c = true → q c = true)
    (h : stripBoth q cs = cs) : stripBoth p cs = cs := by
  have hnot (c : Char) (hq : q c = false) : p c = false :=
    Bool.eq_false_iff.2 fun hp => by simp [hsub c hp] at hq
  obtain ⟨hfirst, hlast⟩ := ends_of_stripBoth_eq_self h
  exact stripBoth_eq_self (fun c hc => hnot c (hfirst c hc)) fun c hc => hnot c (hlast c hc)

theorem stripBoth_eq_self_of_forall (h : ∀ c ∈ cs, p c = false) : stripBoth p cs = cs :=
  stripBoth_eq_self (fun c hc => h c (List.mem_of_head? hc)) fun c hc =>
    h c (List.mem_of_getLast? hc)

/-- Digits and capitals are not blank, nor is what stands between them. -/
theorem isBlank_eq_false (hlow : 48 ≤ c.toNat) (hhigh : c.toNat ≤ 90) : isBlank c = false := by
  simp only [isBlank, Bool.or_eq_false_iff, Bool.and_eq_false_iff, decide_eq_false_iff_not,
    beq_eq_false_iff_ne]
  omega

end SheetTemplate.Text
