import SheetTemplate.Formula.Token
/-!
Cutting a formula into tokens loses nothing, and candidates for references have the form that the
cutting looks for.
-/
namespace SheetTemplate.Formula

/-- What a token of a formula looks like: a candidate has one to three capital letters and at
least one digit. -/
def Token.Proper : Token → Prop
  | .reference _ letters digits =>
    1 ≤ letters.length ∧ letters.length ≤ 3 ∧ (∀ c ∈ letters, Text.isCapital c = true) ∧
      digits ≠ [] ∧ ∀ c ∈ digits, Text.isDecimalDigit c = true
  | _ => True

theorem Token.Proper.chars_ne_nil {t : Token} (h : t.Proper) : t.chars ≠ [] := by
  cases t with
  | literal inside => simp [chars]
  | plain c => simp [chars]
  | reference dollar letters digits =>
    have hletters : letters ≠ [] := List.ne_nil_of_length_pos h.1
    simp [chars, hletters]

private theorem inside?_eq_some {cs inside : List Char} (h : inside? cs = some inside) :
    ∃ rest, cs = inside ++ '"' :: rest := by
  fun_induction inside? cs generalizing inside with
  | case1 => cases h
  | case2 rest inside' hrest ih =>
    cases h
    obtain ⟨tail, rfl⟩ := ih hrest
    exact ⟨tail, rfl⟩
  | case3 rest hrest =>
    cases h
    exact ⟨'"' :: rest, rfl⟩
  | case4 rest =>
    cases h
    exact ⟨rest, rfl⟩
  | case5 c rest hnot hc ih =>
    obtain ⟨inside', hrest, rfl⟩ := Option.map_eq_some_iff.1 h
    obtain ⟨tail, rfl⟩ := ih hrest
    exact ⟨tail, rfl⟩

theorem referenceAfter?_eq_some {dollar : Bool} {cs : List Char} {t : Token}
    (h : referenceAfter? dollar cs = some t) :
    t.Proper ∧ ∃ rest, (if dollar then ['$'] else []) ++ cs = t.chars ++ rest := by
  unfold referenceAfter? at h
  simp only [Option.ite_none_right_eq_some, Bool.and_eq_true, decide_eq_true_eq,
    Bool.not_eq_true', List.isEmpty_eq_false_iff, Option.some.injEq] at h
  obtain ⟨⟨⟨hlow, hhigh⟩, hdigits⟩, rfl⟩ := h
  refine ⟨⟨hlow, hhigh, List.all_eq_true.1 List.all_takeWhile, hdigits,
    List.all_eq_true.1 List.all_takeWhile⟩,
    (cs.dropWhile Text.isCapital).dropWhile Text.isDecimalDigit, ?_⟩
  simp only [Token.chars, List.append_assoc, List.takeWhile_append_dropWhile]

theorem front?_eq_some {cs : List Char} {t : Token} (h : front? cs = some t) :
    t.Proper ∧ ∃ rest, cs = t.chars ++ rest := by
  cases cs with
  | nil => cases h
  | cons c cs =>
    rw [front?] at h
    split at h
    · rename_i hc
      obtain ⟨inside, hinside, rfl⟩ := Option.map_eq_some_iff.1 h
      obtain ⟨rest, rfl⟩ := inside?_eq_some hinside
      exact ⟨trivial, rest, by simp [Token.chars, hc]⟩
    · split at h
      · rename_i hc
        obtain ⟨hproper, rest, hrest⟩ := referenceAfter?_eq_some h
        exact ⟨hproper, rest, by simpa [hc] using hrest⟩
      · obtain ⟨hproper, rest, hrest⟩ := referenceAfter?_eq_some h
        exact ⟨hproper, rest, by simpa using hrest⟩

/-- After the token at the front comes the rest that is cut next. -/
theorem eq_append_of_front? {c : Char} {cs : List Char} {t : Token}
    (h : front? (c :: cs) = some t) : c :: cs = t.chars ++ cs.drop (t.chars.length - 1) := by
  obtain ⟨hproper, rest, hrest⟩ := front?_eq_some h
  cases ht : t.chars with
  | nil => exact absurd ht hproper.chars_ne_nil
  | cons a as =>
    rw [ht] at hrest
    obtain ⟨rfl, rfl⟩ := List.cons.inj hrest
    simp

@[simp] theorem chars_tokens (cs : List Char) : chars (tokens cs) = cs := by
  fun_induction tokens cs with
  | case1 => rfl
  | case2 c cs hfront ih =>
    rw [chars, List.flatMap_cons, ← chars, ih]
    rfl
  | case3 c cs t hfront ih =>
    rw [chars, List.flatMap_cons, ← chars, ih]
    exact (eq_append_of_front? hfront).symm

theorem proper_of_mem_tokens {cs : List Char} : ∀ t ∈ tokens cs, t.Proper := by
  fun_induction tokens cs with
  | case1 => simp
  | case2 c cs hfront ih =>
    intro t ht
    rcases List.mem_cons.1 ht with rfl | ht
    · trivial
    · exact ih t ht
  | case3 c cs t hfront ih =>
    intro u hu
    rcases List.mem_cons.1 hu with rfl | hu
    · exact (front?_eq_some hfront).1
    · exact ih u hu

end SheetTemplate.Formula
