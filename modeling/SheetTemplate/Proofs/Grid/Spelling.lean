import SheetTemplate.Proofs.Grid.Naming
import SheetTemplate.Proofs.Text.Run
/-!
What the names of columns and cells look like. A column has one name, and a cell is named by the
name of its column and any numeral of its row.
-/
namespace SheetTemplate

namespace Column

theorem letter_of_isCapital {c : Char} (h : Text.isCapital c = true) :
    letter (c.toNat - 64) = c := by
  have hbounds := Text.bounds_of_isCapital h
  rw [letter, show 64 + (c.toNat - 64) = c.toNat by omega, Char.ofNat_toNat]

private theorem value?_append_eq_some {cs : List Char} {c : Char} {n : Nat}
    (h : value? (cs ++ [c]) = some n) :
    ∃ m, value? cs = some m ∧ Text.isCapital c = true ∧ n = m * 26 + (c.toNat - 64) := by
  rw [value?, List.foldlM_append] at h
  obtain ⟨m, hm, hlast⟩ := Option.bind_eq_some_iff.1 h
  obtain ⟨k, hk, hn⟩ := Option.bind_eq_some_iff.1 hlast
  obtain ⟨hc, hk⟩ := Option.ite_none_right_eq_some.1 hk
  exact ⟨m, hm, hc, (Option.some.inj (hk.trans hn)).symm⟩

/-- Capital letters are the name of the column whose number they spell. -/
theorem letters_of_value? {cs : List Char} {column : Nat} (hne : cs ≠ [])
    (h : value? cs = some column) : 0 < column ∧ letters column = cs := by
  induction cs using List.reverseRecOn generalizing column with
  | nil => exact absurd rfl hne
  | append_singleton cs c ih =>
    obtain ⟨m, hm, hc, rfl⟩ := value?_append_eq_some h
    obtain ⟨hlow, hhigh⟩ := bounds_of_isCapital hc
    refine ⟨by omega, ?_⟩
    by_cases hcs : cs = []
    · subst hcs
      obtain rfl := Option.some.inj hm
      rw [letters, if_pos (by omega), show max (0 * 26 + (c.toNat - 64)) 1 = c.toNat - 64 by omega,
        letter_of_isCapital hc, List.nil_append]
    · obtain ⟨hpos, hletters⟩ := ih hcs hm
      rw [letters, if_neg (by omega),
        show (m * 26 + (c.toNat - 64) - 1) / 26 = m by omega, hletters,
        show (m * 26 + (c.toNat - 64) - 1) % 26 + 1 = c.toNat - 64 by omega,
        letter_of_isCapital hc]

theorem letters_of_ofLetters? {cs : List Char} {column : Nat} (h : ofLetters? cs = some column) :
    letters column = cs := by
  obtain ⟨hlength, -⟩ := length_of_ofLetters? h
  rw [ofLetters?, Option.ite_none_left_eq_some] at h
  exact (letters_of_value? (List.ne_nil_of_length_pos hlength) h.2).2

theorem name_of_number? {s : String} {column : Nat} (h : number? s = some column) :
    name column = s := by
  rw [name, letters_of_ofLetters? h, String.ofList_toList]

theorem number?_name {column : Nat} (h : 0 < column) :
    number? (name column) = if column ≤ 18278 then some column else none := by
  rw [number?, name, String.toList_ofList, ofLetters?_letters h]

theorem name_inj {column column' : Nat} (h : 0 < column) (h' : 0 < column')
    (heq : name column = name column') : column = column' := by
  have hvalue := value?_letters h
  rw [String.ofList_injective heq, value?_letters h'] at hvalue
  exact (Option.some.inj hvalue).symm

end Column

namespace CellRef

/-- The characters spell the cell: an optional dollar sign, the one to three capital letters of the
column, an optional dollar sign, and digits whose value is the row, from 1 and in 32 bits. -/
def Spells (cs : List Char) (place : CellRef) : Prop :=
  ∃ dollar letters dollar' digits, cs = spelled dollar letters dollar' digits ∧
    ((1 ≤ letters.length ∧ letters.length ≤ 3) ∧ (∀ c ∈ letters, Text.isCapital c = true) ∧
      0 < place.column ∧ Column.letters place.column = letters) ∧
    (digits ≠ [] ∧ (∀ c ∈ digits, Text.isDigit c = true) ∧ Text.valueOf digits = place.row) ∧
    1 ≤ place.row ∧ place.row < twoTo 32

theorem dropDollar_append {dollar : Bool} {cs : List Char} (h : cs.head? ≠ some '$') :
    dropDollar ((if dollar then ['$'] else []) ++ cs) = cs := by
  cases dollar with
  | true => rfl
  | false =>
    rw [if_neg Bool.false_ne_true, List.nil_append]
    unfold dropDollar
    split
    · exact absurd rfl h
    · rfl

/-- What follows the letters begins with no letter. -/
theorem exists_cons_of_isDigit (dollar : Bool) {digits : List Char} (hne : digits ≠ [])
    (h : ∀ c ∈ digits, Text.isDigit c = true) : ∃ c rest,
      (if dollar then ['$'] else []) ++ digits = c :: rest ∧ Text.isCapital c = false := by
  cases dollar with
  | true => exact ⟨'$', digits, rfl, by decide⟩
  | false =>
    obtain ⟨d, ds, rfl⟩ := List.exists_cons_of_ne_nil hne
    exact ⟨d, ds, rfl, Text.isCapital_eq_false_of_isDigit (h d List.mem_cons_self)⟩

theorem head?_ne_dollar {cs : List Char} (h : ∀ c ∈ cs.head?, Text.isAlphanumeric c = true) :
    cs.head? ≠ some '$' := by
  intro hdollar
  have hletter := h '$' hdollar
  cases hletter

/-- A text is read as a cell exactly if it spells that cell. -/
theorem ofChars?_eq_some_iff {cs : List Char} {place : CellRef} :
    ofChars? cs = some place ↔ Spells cs place := by
  constructor
  · intro h
    obtain ⟨dollar, letters, dollar', digits, hcs, hcapitals, hcolumn, hdigits, hrow⟩ :=
      exists_spelled_of_ofChars? h
    exact ⟨dollar, letters, dollar', digits, hcs,
      ⟨Column.length_of_ofLetters? hcolumn, hcapitals, (Column.bounds_of_ofLetters? hcolumn).1,
        Column.letters_of_ofLetters? hcolumn⟩, Text.natural?_eq_some_iff.1 hdigits, hrow⟩
  · rintro ⟨dollar, _, dollar', digits, rfl, ⟨⟨-, hlength⟩, hcapitals, hpos, rfl⟩, hdigits, hrow⟩
    have hdrop : dropDollar (spelled dollar (Column.letters place.column) dollar' digits) =
        Column.letters place.column ++ ((if dollar' then ['$'] else []) ++ digits) := by
      refine dropDollar_append (head?_ne_dollar fun c hc => ?_)
      rw [List.head?_append_of_ne_nil _ (Column.letters_ne_nil _)] at hc
      simp [Text.isAlphanumeric, hcapitals c (List.mem_of_mem_head? hc)]
    have hdrop' : dropDollar ((if dollar' then ['$'] else []) ++ digits) = digits := by
      refine dropDollar_append (head?_ne_dollar fun c hc => ?_)
      simp [Text.isAlphanumeric, hdigits.2.1 c (List.mem_of_mem_head? hc)]
    obtain ⟨c, rest, hrest, hc⟩ := exists_cons_of_isDigit dollar' hdigits.1 hdigits.2.1
    have htake : (Column.letters place.column ++
        ((if dollar' then ['$'] else []) ++ digits)).takeWhile Text.isCapital =
          Column.letters place.column := by
      rw [hrest, Text.takeWhile_append_cons hcapitals hc]
    have hskip : (Column.letters place.column ++
        ((if dollar' then ['$'] else []) ++ digits)).dropWhile Text.isCapital =
          (if dollar' then ['$'] else []) ++ digits := by
      rw [hrest, Text.dropWhile_append_cons hcapitals hc]
    simp only [ofChars?, hdrop, htake, hskip, hdrop', Text.natural?_eq_some_iff.2 hdigits,
      Column.ofLetters?_letters hpos, if_pos (Column.length_letters_le_iff.1 hlength)]
    exact if_pos hrow

end CellRef

end SheetTemplate
