import SheetTemplate.Proofs.Text.Run
import SheetTemplate.Proofs.Xml.Escape
import SheetTemplate.Package.Basic
/-!
Attributes of a printed tag: they are found again in their order, each with its escaped value, and
decoded they are the values that were printed.
-/
namespace SheetTemplate.Xml

def isNameChar (c : Char) : Bool :=
  Text.isAlphanumeric c || c = ':'

def isPlainName (name : String) : Bool :=
  !name.toList.isEmpty && name.toList.all isNameChar

def arePlainNames (names : List String) : Bool :=
  names.all isPlainName && decide names.Nodup

/-- The names of the attributes need no care and differ. -/
def Fields.Plain (fields : Fields) : Prop :=
  arePlainNames (fields.map Prod.fst) = true

section names
variable {c : Char} {name : String}

/-- A character that belongs to no name. -/
theorem ne_of_isNameChar {d : Char} (h : isNameChar c = true) (hd : isNameChar d = false) :
    c ≠ d := by
  rintro rfl
  rw [h] at hd
  cases hd

theorem isSpace_of_isNameChar (h : isNameChar c = true) : isSpace c = false := by
  have hne {d : Char} (hd : isNameChar d = false) : decide (c = d) = false :=
    decide_eq_false (ne_of_isNameChar h hd)
  simp only [isSpace, hne (d := ' ') (by decide), hne (d := '\t') (by decide),
    hne (d := '\n') (by decide), hne (d := '\r') (by decide), Bool.or_self]

theorem isNameChar_of_mem (h : isPlainName name = true) :
    ∀ c ∈ name.toList, isNameChar c = true := by
  simp only [isPlainName, Bool.and_eq_true] at h
  exact List.all_eq_true.1 h.2

theorem exists_cons_of_isPlainName (h : isPlainName name = true) :
    ∃ c cs, name.toList = c :: cs ∧ isNameChar c = true ∧ ∀ d ∈ cs, isNameChar d = true := by
  have hall := isNameChar_of_mem h
  cases hcs : name.toList with
  | nil => simp [isPlainName, hcs] at h
  | cons c cs =>
    rw [hcs, List.forall_mem_cons] at hall
    exact ⟨c, cs, rfl, hall⟩

theorem ne_of_mem_name (h : isPlainName name = true) {d : Char} (hd : isNameChar d = false) :
    ∀ c ∈ name.toList, c ≠ d :=
  fun c hc => ne_of_isNameChar (isNameChar_of_mem h c hc) hd

theorem isSpace_of_mem_name (h : isPlainName name = true) :
    ∀ c ∈ name.toList, isSpace c = false :=
  fun c hc => isSpace_of_isNameChar (isNameChar_of_mem h c hc)

end names

namespace Fields
variable {f : String × String} {fields : Fields}

theorem plain_nil : Plain [] := rfl

theorem plain_cons (h : Plain (f :: fields)) :
    isPlainName f.1 = true ∧ f.1 ∉ fields.map Prod.fst ∧ Plain fields := by
  simp only [Plain, arePlainNames, List.map_cons, List.all_cons, Bool.and_eq_true,
    decide_eq_true_eq, List.nodup_cons] at h ⊢
  exact ⟨h.1.1, h.2.1, h.1.2, h.2.2⟩

theorem chars_cons (f : String × String) (fields : Fields) :
    chars (f :: fields) =
      ' ' :: f.1.toList ++ '=' :: '"' :: escapeValue f.2 ++ '"' :: chars fields := by
  simp [chars]

end Fields

def Fields.written (fields : Fields) : List Attribute :=
  fields.map fun f => .pair f.1 (escapeValue f.2)

/-- One attribute is read, and its name from then on counts as seen. -/
theorem attributesFrom_cons {f : String × String} (hname : isPlainName f.1 = true)
    {seen : List String} (hnew : f.1 ∉ seen) (fields : Fields) (fuel : Nat) :
    attributesFrom seen (fuel + 1) (Fields.chars (f :: fields)) =
      .pair f.1 (escapeValue f.2) :: attributesFrom (f.1 :: seen) fuel fields.chars := by
  obtain ⟨c, cs, hcs, hc, hall⟩ := exists_cons_of_isPlainName hname
  have hin : ∀ d ∈ cs, (d ≠ '=' && !isSpace d) = true := fun d hd => by
    simp [ne_of_isNameChar (d := '=') (hall d hd) (by decide), isSpace_of_isNameChar (hall d hd)]
  obtain ⟨rest, hrest⟩ : ∃ rest, rest = escapeValue f.2 ++ '"' :: fields.chars := ⟨_, rfl⟩
  have hchars : Fields.chars (f :: fields) = ' ' :: c :: (cs ++ '=' :: '"' :: rest) := by
    rw [Fields.chars_cons, hcs, hrest]
    simp
  have hfront : (' ' :: c :: (cs ++ '=' :: '"' :: rest)).dropWhile isSpace =
      c :: (cs ++ '=' :: '"' :: rest) := by
    rw [List.dropWhile_cons_of_pos (by decide),
      List.dropWhile_cons_of_neg (by simp [isSpace_of_isNameChar hc])]
  have hequals : (cs ++ '=' :: '"' :: rest).dropWhile (fun x => x ≠ '=' && !isSpace x) =
      '=' :: '"' :: rest :=
    Text.dropWhile_append_cons hin (by decide)
  have hname : String.ofList
      (c :: (cs ++ '=' :: '"' :: rest).takeWhile fun x => x ≠ '=' && !isSpace x) = f.1 := by
    rw [Text.takeWhile_append_cons hin (by decide), ← hcs, String.ofList_toList]
  rw [hchars, attributesFrom, hfront]
  simp only [hequals, hname]
  rw [List.dropWhile_cons_of_neg (by decide)]
  simp only [if_neg (show ¬seen.contains f.1 = true by simpa using hnew)]
  rw [List.dropWhile_cons_of_neg (by decide)]
  simp only [decide_true, Bool.true_or, if_true, hrest,
    Text.dropWhile_ne_append_cons (quote_not_mem_escapeValue f.2),
    Text.takeWhile_ne_append_cons (quote_not_mem_escapeValue f.2)]

private theorem attributesFrom_chars {fields : Fields} (hplain : fields.Plain) {seen : List String}
    (hseen : ∀ f ∈ fields, f.1 ∉ seen) {fuel : Nat} (hfuel : fields.length ≤ fuel) :
    attributesFrom seen fuel fields.chars = fields.written := by
  induction fields generalizing seen fuel with
  | nil => cases fuel <;> rfl
  | cons f fields ih =>
    obtain ⟨hname, hnew, hrest⟩ := Fields.plain_cons hplain
    obtain ⟨fuel, rfl⟩ : ∃ n, fuel = n + 1 := ⟨fuel - 1, by simp at hfuel; omega⟩
    rw [attributesFrom_cons hname (hseen f List.mem_cons_self),
      ih hrest (fun g hg => ?_) (by simpa using hfuel)]
    · rfl
    · rw [List.mem_cons, not_or]
      exact ⟨fun h => hnew (h ▸ List.mem_map_of_mem hg), hseen g (List.mem_cons_of_mem _ hg)⟩

private theorem length_le_length_chars (fields : Fields) : fields.length ≤ fields.chars.length := by
  induction fields with
  | nil => exact Nat.le_refl 0
  | cons f fields ih =>
    rw [Fields.chars_cons]
    simp only [List.length_cons, List.length_append]
    omega

/-- The attributes of a printed tag. -/
theorem attributes_chars {fields : Fields} (hplain : fields.Plain) :
    attributes fields.chars = fields.written :=
  attributesFrom_chars hplain (fun _ _ => List.not_mem_nil) (length_le_length_chars fields)

theorem localName_eq_self {name : String} (h : ':' ∉ name.toList) : localName name = name := by
  rw [localName, Text.dropWhile_ne_of_not_mem h]

def Fields.localNames (fields : Fields) : Fields :=
  fields.map fun f => (localName f.1, f.2)

private theorem fieldsOf?_written (fields : Fields) :
    fieldsOf? fields.written = some fields.localNames := by
  unfold Fields.written Fields.localNames
  induction fields with
  | nil => rfl
  | cons f fields ih =>
    rw [List.map_cons, fieldsOf?, unescape?_escapeValue, ih]
    rfl

/-- A printed tag has the values that were printed. -/
theorem fields?_chars {fields : Fields} (hplain : fields.Plain) :
    fields? fields.chars = some fields.localNames := by
  rw [fields?, attributes_chars hplain, fieldsOf?_written]

theorem rawAttribute?_written (name : String) (fields : Fields) :
    Package.rawAttribute? name fields.written =
      some ((fields.find? fun f => f.1 = name).map fun f => escapeValue f.2) := by
  unfold Fields.written
  induction fields with
  | nil => rfl
  | cons f fields ih =>
    rw [List.map_cons, Package.rawAttribute?, ih, List.find?_cons]
    by_cases h : f.1 = name <;> simp [h]

end SheetTemplate.Xml
