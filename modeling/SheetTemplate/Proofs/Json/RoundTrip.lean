import SheetTemplate.Proofs.Grid.Table
import SheetTemplate.Proofs.Json.Token
/-!
The compact text of a tree is read back as the tree. The induction is on the tree, and on the
containers that may still be opened inside each other; what follows a value is left alone.
-/
namespace SheetTemplate.Json

/-- A tree that its compact text determines: no floating numbers, the keys of every record
ascending, and at most a number of containers inside each other. -/
inductive Canonical : Nat → Json → Prop
  | null {n : Nat} : Canonical n null
  | bool {n : Nat} (b : Bool) : Canonical n (bool b)
  | int {n : Nat} (i : Int64) : Canonical n (int i)
  | text {n : Nat} (s : String) : Canonical n (text s)
  | list {n : Nat} {items : List Json} : (∀ v ∈ items, Canonical n v) →
      Canonical (n + 1) (list items)
  | record {n : Nat} {fields : List (String × Json)} :
      fields.Pairwise (fun a b => compare a.1 b.1 = .lt) → (∀ f ∈ fields, Canonical n f.2) →
      Canonical (n + 1) (record fields)

variable {rest : List Char} {n : Nat}

/-! ## How a value begins -/

/-- Characters that stand between values and behind the last one. -/
def outer : List Char :=
  [' ', '\n', '\t', '\r', ']', '}']

theorem skip_cons {c : Char} (h : c ∉ outer) (cs : List Char) : skip (c :: cs) = c :: cs := by
  simp only [outer, List.mem_cons, List.not_mem_nil, or_false, not_or] at h
  simp [skip, isSpace, h]

theorem skip_of_ends (h : Ends rest) : skip rest = rest := by
  cases rest with
  | nil => rfl
  | cons c rest =>
    have hc := h c rfl
    simp only [List.mem_cons, List.not_mem_nil, or_false] at hc
    rcases hc with rfl | rfl | rfl <;> rfl

/-- A numeral begins with a digit or a minus sign. -/
theorem exists_decimalInt_eq (i : Int) : ∃ c cs, (Text.decimalInt i).toList = c :: cs ∧
    (c = '-' ∨ Text.isDigit c = true) := by
  rw [Text.toList_decimalInt]
  split
  · exact ⟨_, _, rfl, Or.inl rfl⟩
  · obtain ⟨c, cs, hcs⟩ := List.exists_cons_of_ne_nil (Text.digits_ne_nil i.natAbs)
    exact ⟨c, cs, hcs, Or.inr (Text.isDigit_of_mem_digits (hcs ▸ List.mem_cons_self))⟩

private theorem not_mem_of_isDigit {c : Char} (h : c = '-' ∨ Text.isDigit c = true) :
    c ∉ outer ∧ c ∉ ['[', '{', '"', 'n', 't', 'f'] := by
  have hoff : (outer ++ ['[', '{', '"', 'n', 't', 'f']).all
      (fun d => d ≠ '-' && !Text.isDigit d) = true := by decide
  rw [← not_or, ← List.mem_append]
  intro hmem
  have hneither := List.all_eq_true.1 hoff c hmem
  rcases h with rfl | h
  · cases hneither
  · simp [h] at hneither

/-- A value begins with a character that is none of those around it. -/
theorem exists_compact_eq {v : Json} (h : Canonical n v) :
    ∃ c cs, compact v = c :: cs ∧ c ∉ outer := by
  cases h with
  | null => exact ⟨'n', _, rfl, by decide⟩
  | bool b => cases b <;> exact ⟨_, _, rfl, by decide⟩
  | int i =>
    obtain ⟨c, cs, hcs, hc⟩ := exists_decimalInt_eq i.toInt
    exact ⟨c, cs, hcs, (not_mem_of_isDigit hc).1⟩
  | text s => exact ⟨'"', _, rfl, by decide⟩
  | list => exact ⟨'[', _, rfl, by decide⟩
  | record => exact ⟨'{', _, rfl, by decide⟩

/-! ## Values without parts -/

/-- Where no container begins, the depth does not matter. -/
theorem value?_of_scalar {c : Char} (h : c ∉ outer) (hlist : c ≠ '[') (hrecord : c ≠ '{')
    (cs : List Char) : value? n (c :: cs) = scalar? (c :: cs) := by
  cases n with
  | zero => rw [value?, skip_cons h]
  | succ n =>
    rw [value?.eq_def]
    simp only [skip_cons h]
    split
    · simp_all
    · simp_all
    · rfl

private theorem value?_text (s : String) : value? n (quoted s ++ rest) = some (text s, rest) := by
  have hinside := inside?_quoted s.toList rest
  rw [quoted, List.cons_append, value?_of_scalar (by decide) (by decide) (by decide), scalar?,
    List.append_assoc, List.singleton_append, hinside]
  simp

private theorem value?_int (i : Int64) (h : Ends rest) :
    value? n ((Text.decimalInt i.toInt).toList ++ rest) = some (int i, rest) := by
  have hnumber := number?_decimalInt i h
  obtain ⟨c, cs, hcs, hc⟩ := exists_decimalInt_eq i.toInt
  obtain ⟨hout, hother⟩ := not_mem_of_isDigit hc
  simp only [List.mem_cons, List.not_mem_nil, or_false, not_or] at hother
  rw [hcs, List.cons_append] at hnumber ⊢
  rw [value?_of_scalar hout hother.1 hother.2.1, scalar?.eq_def]
  split <;> simp_all

/-! ## Containers -/

section items
variable {α : Type} {item? : List Char → Option (α × List Char)} {close : Char}
  {print : α → List Char}

/-- Items that are read back one by one are read back with commas between them. -/
theorem items?_intercalate (rest : List Char) (hclose : close = ']' ∨ close = '}') {as : List α}
    (hne : as ≠ [])
    (hread : ∀ a ∈ as, ∀ rest, Ends rest → item? (print a ++ rest) = some (a, rest)) :
    items? item? close ([','].intercalate (as.map print) ++ close :: rest) = some (as, rest) := by
  have hends : Ends (close :: rest) := Ends.cons (by rcases hclose with rfl | rfl <;> decide)
  induction as with
  | nil => exact absurd rfl hne
  | cons a as ih =>
    obtain ⟨ha, has⟩ := List.forall_mem_cons.1 hread
    cases as with
    | nil =>
      rw [List.map_singleton, List.intercalate_singleton, items?, ha _ hends]
      simp [skip_of_ends hends]
    | cons b as =>
      have hcomma : Ends (',' :: ([','].intercalate ((b :: as).map print) ++ close :: rest)) :=
        Ends.cons (by decide)
      have hother : (',' : Char) ≠ close := by rcases hclose with rfl | rfl <;> decide
      rw [List.map_cons, List.map_cons, List.intercalate_cons_cons, ← List.map_cons,
        List.append_assoc, List.append_assoc, List.singleton_append, items?, ha _ hcomma]
      simp only [skip_of_ends hcomma, if_neg hother]
      rw [if_pos (by simp; omega), ih (by simp) has]
      rfl

end items

private theorem compactItems_eq (items : List Json) :
    compactItems items = [','].intercalate (items.map compact) := by
  induction items with
  | nil => rfl
  | cons v items ih =>
    cases items with
    | nil => rw [compactItems, List.map_singleton, List.intercalate_singleton]
    | cons w items =>
      rw [compactItems, ih]
      simp only [List.map_cons, List.intercalate_cons_cons, List.append_assoc,
        List.singleton_append]

def memberChars (f : String × Json) : List Char :=
  quoted f.1 ++ ':' :: compact f.2

private theorem compactFields_eq (fields : List (String × Json)) :
    compactFields fields = [','].intercalate (fields.map memberChars) := by
  induction fields with
  | nil => rfl
  | cons f fields ih =>
    cases fields with
    | nil => rw [compactFields, List.map_singleton, List.intercalate_singleton, memberChars]
    | cons g fields =>
      rw [compactFields, ih]
      simp only [List.map_cons, List.intercalate_cons_cons, memberChars, List.append_assoc,
        List.cons_append, List.nil_append]

/-- A field is read back if its value is. -/
theorem member?_memberChars {value? : List Char → Option (Json × List Char)}
    {f : String × Json} (h : value? (compact f.2 ++ rest) = some (f.2, rest)) :
    member? value? (memberChars f ++ rest) = some (f, rest) := by
  have hinside := inside?_quoted f.1.toList (':' :: (compact f.2 ++ rest))
  have hshape : memberChars f ++ rest =
      '"' :: (f.1.toList.flatMap escape ++ '"' :: ':' :: (compact f.2 ++ rest)) := by
    simp [memberChars, quoted]
  rw [hshape, member?, skip_cons (by decide)]
  simp only [hinside, skip_cons (show ':' ∉ outer by decide), h]
  simp

/-- A record of ascending fields is made of these fields. -/
theorem ofFields_eq {fields : List (String × Json)}
    (h : fields.Pairwise fun a b => compare a.1 b.1 = .lt) : ofFields fields = record fields := by
  have htable : Table.ofList fields = ⟨fields, h⟩ := by
    apply Table.ext
    intro key
    rw [Table.find?_ofList, Table.lookup_reverse h]
    rfl
  rw [ofFields, htable]

/-- Joined texts begin as the first of them does. -/
private theorem exists_intercalate_eq (c : Char) (cs : List Char) (texts : List (List Char)) :
    ∃ more, [','].intercalate ((c :: cs) :: texts) = c :: more := by
  cases texts with
  | nil => exact ⟨cs, List.intercalate_singleton⟩
  | cons text texts =>
    rw [List.intercalate_cons_cons]
    exact ⟨_, rfl⟩

/-! ## Trees -/

/-- A list of values that are read back is read back. -/
theorem value?_list {items : List Json} (hitems : ∀ v ∈ items, Canonical n v)
    (hread : ∀ v ∈ items, ∀ rest, Ends rest → value? n (compact v ++ rest) = some (v, rest)) :
    value? (n + 1) (compact (list items) ++ rest) = some (list items, rest) := by
  rw [compact, compactItems_eq, List.cons_append, List.append_assoc, List.singleton_append]
  cases items with
  | nil => rfl
  | cons v items =>
    have hall := items?_intercalate rest (Or.inl rfl) (List.cons_ne_nil v items) hread
    obtain ⟨c, cs, hcs, hc⟩ := exists_compact_eq (hitems v List.mem_cons_self)
    obtain ⟨more, hmore⟩ := exists_intercalate_eq c cs (items.map compact)
    have hclose : c ≠ ']' := fun h => hc (h ▸ by decide)
    rw [List.map_cons, hcs, hmore, List.cons_append] at hall ⊢
    rw [value?, skip_cons (by decide)]
    simp only [skip_cons hc]
    split
    · simp_all
    · rw [hall, Option.map_some]

/-- A record of values that are read back is read back. -/
theorem value?_record {fields : List (String × Json)}
    (hsorted : fields.Pairwise fun a b => compare a.1 b.1 = .lt)
    (hread : ∀ f ∈ fields, ∀ rest, Ends rest →
      value? n (compact f.2 ++ rest) = some (f.2, rest)) :
    value? (n + 1) (compact (record fields) ++ rest) = some (record fields, rest) := by
  rw [compact, compactFields_eq, List.cons_append, List.append_assoc, List.singleton_append]
  cases fields with
  | nil =>
    rw [← ofFields_eq hsorted]
    rfl
  | cons f fields =>
    have hall := items?_intercalate rest (Or.inr rfl) (List.cons_ne_nil f fields)
      fun g hg rest hrest => member?_memberChars (hread g hg rest hrest)
    obtain ⟨more, hmore⟩ := exists_intercalate_eq '"'
      ((f.1.toList.flatMap escape ++ ['"']) ++ ':' :: compact f.2) (fields.map memberChars)
    have hfirst : memberChars f =
        '"' :: ((f.1.toList.flatMap escape ++ ['"']) ++ ':' :: compact f.2) := rfl
    rw [List.map_cons, hfirst, hmore, List.cons_append] at hall ⊢
    rw [value?, skip_cons (by decide)]
    simp only [skip_cons (show '"' ∉ outer by decide), hall, Option.map_some, ofFields_eq hsorted]
    rfl

/-- A tree is read back from its compact text, and the reader stops where the text ends. -/
theorem value?_compact {v : Json} (h : Canonical n v) (hrest : Ends rest) :
    value? n (compact v ++ rest) = some (v, rest) := by
  induction h generalizing rest with
  | null => exact value?_of_scalar (by decide) (by decide) (by decide) _
  | bool b => cases b <;> exact value?_of_scalar (by decide) (by decide) (by decide) _
  | int i => exact value?_int i hrest
  | text s => exact value?_text s
  | list hitems ih => exact value?_list hitems fun v hv _ => ih v hv
  | record hsorted _ ih => exact value?_record hsorted fun f hf _ => ih f hf

/-- The compact text of a tree spells the tree. -/
theorem ofText?_compactText {v : Json} (h : Canonical maxDepth v) :
    ofText? v.compactText = some v := by
  have hread := value?_compact h Ends.nil
  rw [List.append_nil] at hread
  rw [ofText?, compactText, String.toList_ofList, hread]
  rfl

end SheetTemplate.Json
