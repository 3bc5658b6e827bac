import Mathlib.Data.List.DropRight
import SheetTemplate.Text.Blank
import SheetTemplate.Xml.Node
/-!
Entities: decoding undoes escaping, an escaped mark does not occur any more, and white space at the
ends is the same before and after.
-/
namespace SheetTemplate.Xml

def escapable : List Char := ['&', '<', '>', '"', '\n']

section marks
variable {marks : List Char}

@[simp] theorem escape_nil : escape marks [] = [] := rfl

theorem escape_cons (c : Char) (cs : List Char) :
    escape marks (c :: cs) = (if marks.contains c then entityOf c else [c]) ++ escape marks cs :=
  List.flatMap_cons

theorem escape_cons_of_mem {c : Char} (hc : c ∈ marks) (cs : List Char) :
    escape marks (c :: cs) = entityOf c ++ escape marks cs := by
  rw [escape_cons, if_pos (List.elem_eq_true_of_mem hc)]

theorem escape_cons_of_not_mem {c : Char} (hc : c ∉ marks) (cs : List Char) :
    escape marks (c :: cs) = c :: escape marks cs := by
  rw [escape_cons, if_neg (by simpa using hc), List.singleton_append]

@[simp] theorem escape_append (as bs : List Char) :
    escape marks (as ++ bs) = escape marks as ++ escape marks bs :=
  List.flatMap_append

theorem escape_eq_self {cs : List Char} (h : ∀ c ∈ cs, c ∉ marks) : escape marks cs = cs := by
  induction cs with
  | nil => rfl
  | cons c cs ih =>
    rw [escape_cons_of_not_mem (h c List.mem_cons_self),
      ih fun d hd => h d (List.mem_cons_of_mem _ hd)]

/-- An entity is decoded as the character that it stands for. -/
theorem decode?_entityOf {c : Char} (hc : c ∈ escapable) (cs : List Char) :
    decode? none (entityOf c ++ cs) = (decode? none cs).map (c :: ·) := by
  simp only [escapable, List.mem_cons, List.not_mem_nil, or_false] at hc
  rcases hc with rfl | rfl | rfl | rfl | rfl <;> rfl

/-- Decoding undoes escaping, provided that ampersands were escaped. -/
theorem decode?_escape (hsub : marks ⊆ escapable) (hamp : '&' ∈ marks) (cs : List Char) :
    decode? none (escape marks cs) = some cs := by
  induction cs with
  | nil => rfl
  | cons c cs ih =>
    by_cases hc : c ∈ marks
    · rw [escape_cons_of_mem hc, decode?_entityOf (hsub hc), ih]
      rfl
    · have hne : c ≠ '&' := fun h => hc (h ▸ hamp)
      rw [escape_cons_of_not_mem hc, decode?, if_neg hne, ih]
      rfl

private theorem not_mem_entityOf : ∀ c ∈ escapable, ∀ mark ∈ ['<', '>', '"'],
    mark ∉ entityOf c := by
  intro c hc
  simp only [escapable, List.mem_cons, List.not_mem_nil, or_false] at hc
  rcases hc with rfl | rfl | rfl | rfl | rfl <;> simp [entityOf]

/-- A bracket or quote that is escaped does not occur in the escaped text. -/
theorem not_mem_escape (hsub : marks ⊆ escapable) {mark : Char} (hmark : mark ∈ marks)
    (hkind : mark ∈ ['<', '>', '"']) (cs : List Char) : mark ∉ escape marks cs := by
  induction cs with
  | nil => exact List.not_mem_nil
  | cons c cs ih =>
    by_cases hc : c ∈ marks
    · rw [escape_cons_of_mem hc, List.mem_append, not_or]
      exact ⟨not_mem_entityOf c (hsub hc) mark hkind, ih⟩
    · rw [escape_cons_of_not_mem hc, List.mem_cons, not_or]
      exact ⟨fun h => hc (h ▸ hmark), ih⟩

private theorem entityOf_ends : ∀ c ∈ escapable, ∃ inner, entityOf c = '&' :: inner ++ [';'] := by
  intro c hc
  simp only [escapable, List.mem_cons, List.not_mem_nil, or_false] at hc
  rcases hc with rfl | rfl | rfl | rfl | rfl
  exacts [⟨"amp".toList, rfl⟩, ⟨"lt".toList, rfl⟩, ⟨"gt".toList, rfl⟩, ⟨"quot".toList, rfl⟩,
    ⟨"#xA".toList, rfl⟩]

section ends
variable {p : Char → Bool} (hsub : marks ⊆ escapable) (hplain : ∀ c ∈ marks, p c = false)
  (hamp : p '&' = false) (hsemi : p ';' = false)
include hsub hplain hamp hsemi

omit hsemi in
private theorem dropWhile_escape (cs : List Char) :
    (escape marks cs).dropWhile p = escape marks (cs.dropWhile p) := by
  induction cs with
  | nil => rfl
  | cons c cs ih =>
    by_cases hc : c ∈ marks
    · obtain ⟨inner, hent⟩ := entityOf_ends c (hsub hc)
      rw [List.dropWhile_cons_of_neg (by simp [hplain c hc]), escape_cons_of_mem hc, hent]
      exact List.dropWhile_cons_of_neg (by simp [hamp])
    · rw [escape_cons_of_not_mem hc]
      by_cases hp : p c = true
      · rw [List.dropWhile_cons_of_pos hp, List.dropWhile_cons_of_pos hp, ih]
      · rw [List.dropWhile_cons_of_neg hp, List.dropWhile_cons_of_neg hp,
          escape_cons_of_not_mem hc]

omit hamp in
private theorem rdropWhile_escape (cs : List Char) :
    (escape marks cs).rdropWhile p = escape marks (cs.rdropWhile p) := by
  induction cs using List.reverseRecOn with
  | nil => rfl
  | append_singleton cs c ih =>
    rw [escape_append]
    by_cases hc : c ∈ marks
    · obtain ⟨inner, hent⟩ := entityOf_ends c (hsub hc)
      rw [List.rdropWhile_concat_neg _ _ _ (by simp [hplain c hc]), escape_append,
        escape_cons_of_mem hc, hent, escape_nil, List.append_nil,
        ← List.append_assoc]
      exact List.rdropWhile_concat_neg _ _ _ (by simp [hsemi])
    · rw [escape_cons_of_not_mem hc, escape_nil]
      by_cases hp : p c = true
      · rw [List.rdropWhile_concat_pos _ _ _ hp, List.rdropWhile_concat_pos _ _ _ hp, ih]
      · rw [List.rdropWhile_concat_neg _ _ _ hp, List.rdropWhile_concat_neg _ _ _ hp,
          escape_append, escape_cons_of_not_mem hc, escape_nil]

/-- Stripping goes through escaping when no mark belongs to what is stripped. -/
theorem stripBoth_escape (cs : List Char) :
    Text.stripBoth p (escape marks cs) = escape marks (Text.stripBoth p cs) :=
  (congrArg (List.rdropWhile p) (dropWhile_escape hsub hplain hamp cs)).trans
    (rdropWhile_escape hsub hplain hsemi _)

end ends

end marks

theorem stripBoth_escapeText (s : String) : Text.stripBoth isSpace (escapeText s) =
    escapeText (String.ofList (Text.stripBoth isSpace s.toList)) := by
  rw [escapeText, escapeText, String.toList_ofList]
  exact stripBoth_escape (by decide) (by simp [isSpace]) (by decide) (by decide) _

theorem unescape?_escapeText (s : String) : unescape? (escapeText s) = some s := by
  rw [unescape?, escapeText, decode?_escape (by decide) (by decide), Option.map_some,
    String.ofList_toList]

theorem unescape?_escapeValue (s : String) : unescape? (escapeValue s) = some s := by
  rw [unescape?, escapeValue, decode?_escape (by decide) (by decide), Option.map_some,
    String.ofList_toList]

theorem lt_not_mem_escapeText (s : String) : '<' ∉ escapeText s :=
  not_mem_escape (by decide) (by decide) (by decide) _

theorem quote_not_mem_escapeValue (s : String) : '"' ∉ escapeValue s :=
  not_mem_escape (by decide) (by decide) (by decide) _

end SheetTemplate.Xml
