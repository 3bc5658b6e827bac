import Mathlib.Data.List.TakeWhile
/-!
Runs: the characters at the front that belong to a class, up to the first that does not.
-/
namespace SheetTemplate.Text

section classes
variable {p : Char → Bool} {run rest : List Char} {c : Char}

theorem takeWhile_append_cons (h : ∀ a ∈ run, p a = true) (hc : p c = false) :
    (run ++ c :: rest).takeWhile p = run := by
  rw [List.takeWhile_append_of_pos h, List.takeWhile_cons_of_neg (by simp [hc]), List.append_nil]

theorem dropWhile_append_cons (h : ∀ a ∈ run, p a = true) (hc : p c = false) :
    (run ++ c :: rest).dropWhile p = c :: rest := by
  rw [List.dropWhile_append_of_pos h, List.dropWhile_cons_of_neg (by simp [hc])]

end classes

/-- A fact about every character of a text, by checking one after the other. -/
theorem forall_mem_of_all {P : Char → Prop} [DecidablePred P] {cs : List Char}
    (h : (cs.all fun c => decide (P c)) = true) : ∀ c ∈ cs, P c :=
  fun c hc => of_decide_eq_true (List.all_eq_true.1 h c hc)

section mark
variable {c : Char} {run rest : List Char}

theorem ne_of_not_mem (h : c ∉ run) : ∀ a ∈ run, decide (a ≠ c) = true := by
  intro a ha
  apply decide_eq_true
  rintro rfl
  exact h ha

theorem takeWhile_ne_of_not_mem (h : c ∉ run) : run.takeWhile (· ≠ c) = run :=
  List.takeWhile_eq_self_iff.2 (ne_of_not_mem h)

theorem dropWhile_ne_of_not_mem (h : c ∉ run) : run.dropWhile (· ≠ c) = [] :=
  List.dropWhile_eq_nil_iff.2 (ne_of_not_mem h)

theorem takeWhile_ne_append_cons (h : c ∉ run) (rest : List Char) :
    (run ++ c :: rest).takeWhile (· ≠ c) = run :=
  takeWhile_append_cons (ne_of_not_mem h) (by simp)

theorem dropWhile_ne_append_cons (h : c ∉ run) (rest : List Char) :
    (run ++ c :: rest).dropWhile (· ≠ c) = c :: rest :=
  dropWhile_append_cons (ne_of_not_mem h) (by simp)

/-- Either the mark does not occur, or the text is cut at its first occurrence. -/
theorem dropWhile_ne_eq_cons_iff {d : Char} {cs : List Char} :
    cs.dropWhile (· ≠ c) = d :: rest ↔ d = c ∧ ∃ run, cs = run ++ c :: rest ∧ c ∉ run := by
  constructor
  · intro h
    obtain rfl : d = c := by
      have hhead := List.head?_dropWhile_not (· ≠ c) cs
      rw [h] at hhead
      simpa using hhead
    refine ⟨rfl, cs.takeWhile (· ≠ d), ?_, fun hmem => ?_⟩
    · rw [← h, List.takeWhile_append_dropWhile]
    · simpa using List.mem_takeWhile_imp hmem
  · rintro ⟨rfl, run, rfl, hout⟩
    exact dropWhile_ne_append_cons hout rest

end mark

end SheetTemplate.Text
