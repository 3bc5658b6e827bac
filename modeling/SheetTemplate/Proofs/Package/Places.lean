import SheetTemplate.Package.Basic
import SheetTemplate.Proofs.Grid.Naming
import SheetTemplate.Proofs.Text.Parts
import SheetTemplate.Proofs.Xml.Attribute
/-!
Names of rows, cells and ranges in a package. They are written without entities, and a tolerant
reader takes them for what they name.
-/
namespace SheetTemplate

namespace Xml

/-- Names need no entities. -/
theorem escapeValue_eq_toList {s : String} (h : ∀ c ∈ s.toList, isNameChar c = true) :
    escapeValue s = s.toList := by
  refine escape_eq_self fun c hc => ?_
  have hname := h c hc
  simp only [List.mem_cons, List.not_mem_nil, or_false, not_or]
  exact ⟨ne_of_isNameChar hname (by decide), ne_of_isNameChar hname (by decide),
    ne_of_isNameChar hname (by decide), ne_of_isNameChar hname (by decide),
    ne_of_isNameChar hname (by decide)⟩

theorem isNameChar_of_isDigit {c : Char} (h : Text.isDigit c = true) : isNameChar c = true := by
  simp [isNameChar, Text.isAlphanumeric, h]

theorem isNameChar_of_mem_chars {place : CellRef} {c : Char} (h : c ∈ place.chars) :
    isNameChar c = true := by
  rcases CellRef.isCapital_or_isDigit h with h | h
  · simp [isNameChar, Text.isAlphanumeric, h]
  · exact isNameChar_of_isDigit h

end Xml

namespace Package
open Xml

theorem escapeValue_decimal (n : Nat) : escapeValue (Text.decimal n) = Text.digits n := by
  have hchars : (Text.decimal n).toList = Text.digits n := String.toList_ofList
  rw [escapeValue_eq_toList fun c hc => isNameChar_of_isDigit
    (Text.isDigit_of_mem_digits (hchars ▸ hc)), hchars]

theorem escapeValue_cell (place : CellRef) : escapeValue place.text = place.chars := by
  have hchars : place.text.toList = place.chars := String.toList_ofList
  rw [escapeValue_eq_toList fun c hc => isNameChar_of_mem_chars (hchars ▸ hc), hchars]

theorem escapeValue_range (r : Range) : escapeValue r.text = r.text.toList := by
  refine escapeValue_eq_toList fun c hc => ?_
  rw [Range.toList_text, List.mem_append, List.mem_cons] at hc
  rcases hc with hc | rfl | hc
  · exact isNameChar_of_mem_chars hc
  · decide
  · exact isNameChar_of_mem_chars hc

/-- Only small letters change. -/
theorem capital_eq_self {c : Char} (h : Text.isCapital c = true ∨ Text.isDigit c = true) :
    capital c = c := by
  refine if_neg fun hsmall => ?_
  rw [Bool.and_eq_true, decide_eq_true_eq, decide_eq_true_eq] at hsmall
  have hlow : 97 ≤ c.toNat := hsmall.1
  rcases h with h | h
  · have hbounds := Text.bounds_of_isCapital h
    omega
  · have hbounds := Text.bounds_of_isDigit h
    omega

theorem map_capital {cs : List Char}
    (h : ∀ c ∈ cs, Text.isCapital c = true ∨ Text.isDigit c = true) : cs.map capital = cs :=
  (List.map_congr_left fun c hc => capital_eq_self (h c hc)).trans (List.map_id cs)

/-- A number without letters is a row. -/
theorem rowAndColumn?_digits {row : Nat} (h : 0 < row) :
    rowAndColumn? (Text.digits row) = some (row, none) := by
  have hdigit : ∀ c ∈ Text.digits row, Text.isCapital c = false := fun c hc =>
    Text.isCapital_eq_false_of_isDigit (Text.isDigit_of_mem_digits hc)
  obtain ⟨c, cs, hcs⟩ := List.exists_cons_of_ne_nil (Text.digits_ne_nil row)
  have hc := hdigit c (by rw [hcs]; exact List.mem_cons_self)
  have hdrop : (Text.digits row).dropWhile Text.isCapital = Text.digits row := by
    rw [hcs, List.dropWhile_cons_of_neg (by simp [hc])]
  have htake : (Text.digits row).takeWhile Text.isCapital = [] := by
    rw [hcs, List.takeWhile_cons_of_neg (by simp [hc])]
  rw [rowAndColumn?, map_capital fun c hc => Or.inr (Text.isDigit_of_mem_digits hc)]
  simp only [hdrop, htake, Text.natural?_digits, if_neg (Nat.ne_of_gt h)]
  rfl

/-- A cell is read by its name. -/
theorem cellRef?_chars {place : CellRef} (hrow : 0 < place.row) (hcolumn : 0 < place.column) :
    cellRef? place.chars = some place := by
  have hread : rowAndColumn? place.chars = some (place.row, some place.column) := by
    rw [rowAndColumn?, map_capital fun c hc => CellRef.isCapital_or_isDigit hc]
    simp only [CellRef.dropWhile_chars, CellRef.takeWhile_chars, Text.natural?_digits,
      if_neg (Nat.ne_of_gt hrow), Column.value?_letters hcolumn]
    simp [Column.letters_ne_nil]
  rw [cellRef?, hread]

/-- A range is read by its corners. -/
theorem corners?_text {r : Range} (htop : 0 < r.top) (hleft : 0 < r.left) :
    corners? r.text.toList = some (⟨r.top, r.left⟩, ⟨r.bottom, r.right⟩) := by
  have hcolon (place : CellRef) : ':' ∉ place.chars :=
    CellRef.not_mem_chars (by decide) (by decide) place
  have hfirst : cellRef? (CellRef.chars ⟨r.top, r.left⟩) = some ⟨r.top, r.left⟩ :=
    cellRef?_chars htop hleft
  have hlast : cellRef? (CellRef.chars ⟨r.bottom, r.right⟩) = some ⟨r.bottom, r.right⟩ :=
    cellRef?_chars (Nat.lt_of_lt_of_le htop r.top_le_bottom)
      (Nat.lt_of_lt_of_le hleft r.left_le_right)
  have hparts : Text.parts ':' r.text.toList =
      [CellRef.chars ⟨r.top, r.left⟩, CellRef.chars ⟨r.bottom, r.right⟩] := by
    rw [Range.toList_text, Text.parts_append, Text.parts_of_not_mem (hcolon _),
      Text.parts_of_not_mem (hcolon _)]
    rfl
  simp only [corners?, hparts, hfirst, hlast]

end Package

end SheetTemplate
