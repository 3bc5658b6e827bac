import SheetTemplate.Text.Numeral
/-!
Parts between separators: joining texts by the separator and splitting again gives the parts of
each text, and a text without the separator is a single part.
-/
namespace SheetTemplate.Text
variable {separator : Char}

theorem parts_ne_nil (separator : Char) (cs : List Char) : parts separator cs ≠ [] := by
  cases cs with
  | nil => simp [parts]
  | cons c cs =>
    rw [parts]
    split
    · simp
    · split <;> simp

theorem parts_append (as bs : List Char) :
    parts separator (as ++ separator :: bs) = parts separator as ++ parts separator bs := by
  induction as with
  | nil => simp [parts]
  | cons a as ih =>
    rw [List.cons_append, parts, parts, ih]
    by_cases ha : a = separator
    · rw [if_pos ha, if_pos ha]
      rfl
    · obtain ⟨part, rest, hparts⟩ := List.exists_cons_of_ne_nil (parts_ne_nil separator as)
      rw [if_neg ha, if_neg ha, hparts]
      rfl

theorem parts_of_not_mem {cs : List Char} (h : separator ∉ cs) : parts separator cs = [cs] := by
  induction cs with
  | nil => rfl
  | cons c cs ih =>
    rw [List.mem_cons, not_or] at h
    rw [parts, if_neg (Ne.symm h.1), ih h.2]

/-- The parts of joined texts are the parts of the texts. -/
theorem parts_intercalate {texts : List (List Char)} (h : texts ≠ []) :
    parts separator ([separator].intercalate texts) = texts.flatMap (parts separator) := by
  induction texts with
  | nil => exact absurd rfl h
  | cons text texts ih =>
    cases texts with
    | nil => rw [List.intercalate_singleton, List.flatMap_singleton]
    | cons next texts =>
      rw [List.intercalate_cons_cons, List.append_assoc, List.singleton_append, parts_append,
        ih (by simp), ← List.flatMap_cons]

/-- A text without separators is a single word. -/
theorem words_eq_singleton {p : Char → Bool} {s : String} (hne : s ≠ "")
    (h : ∀ c ∈ s.toList, p c = false) : words p s = [s] := by
  have hfold (step : Char → List Char × List (List Char) → List Char × List (List Char))
      (hstep : ∀ c word found, p c = false → step c (word, found) = (c :: word, found)) :
      ∀ cs : List Char, (∀ c ∈ cs, p c = false) → cs.foldr step ([], []) = (cs, []) := by
    intro cs
    induction cs with
    | nil => exact fun _ => rfl
    | cons c cs ih =>
      intro hcs
      obtain ⟨hc, hrest⟩ := List.forall_mem_cons.1 hcs
      rw [List.foldr_cons, ih hrest, hstep c cs [] hc]
  rw [words, hfold _ (fun c word found hc => by simp [hc]) s.toList h]
  simp [hne]

end SheetTemplate.Text
