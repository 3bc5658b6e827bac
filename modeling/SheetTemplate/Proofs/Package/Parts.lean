import SheetTemplate.Package.Load
import SheetTemplate.Package.Save
import SheetTemplate.Proofs.Text.Numeral
import SheetTemplate.Proofs.Text.Parts
import SheetTemplate.Proofs.Text.Run
/-!
The parts of a written package, as both kinds of readers look them up. The part of a sheet is told
from the others by its number.
-/
namespace SheetTemplate

theorem Text.digits_injective {a b : Nat} (h : Text.digits a = Text.digits b) : a = b := by
  have := Text.natural?_digits a
  rw [h, Text.natural?_digits, Option.some.injEq] at this
  exact this.symm

namespace Package
variable {sheets : List WrittenSheet}

def sheetPart (index : Nat) : String :=
  "xl/" ++ sheetTarget index

theorem toList_sheetTarget (index : Nat) : (sheetTarget index).toList =
    "worksheets".toList ++ '/' :: ("sheet".toList ++ Text.digits (index + 1) ++ ".xml".toList) := by
  have hfolder : "worksheets/sheet".toList = "worksheets".toList ++ '/' :: "sheet".toList := rfl
  have hnumber : (Text.decimal (index + 1)).toList = Text.digits (index + 1) := String.toList_ofList
  show ("worksheets/sheet" ++ Text.decimal (index + 1) ++ ".xml").toList = _
  rw [String.toList_append, String.toList_append, hnumber, hfolder, List.append_assoc,
    List.append_assoc, List.append_assoc, List.cons_append]

/-- Apart from its number the name of the part is always the same. -/
theorem mem_sheetTarget {index : Nat} {c : Char} (h : c ∈ (sheetTarget index).toList) :
    c ∈ "worksheets/sheet.xml".toList ∨ Text.isDigit c = true := by
  have hfixed : "worksheets/sheet.xml".toList =
      "worksheets".toList ++ '/' :: ("sheet".toList ++ ".xml".toList) := rfl
  rw [toList_sheetTarget] at h
  rw [hfixed]
  simp only [List.mem_append, List.mem_cons] at h ⊢
  rcases h with h | h | (h | h) | h
  · exact Or.inl (Or.inl h)
  · exact Or.inl (Or.inr (Or.inl h))
  · exact Or.inl (Or.inr (Or.inr (Or.inl h)))
  · exact Or.inr (Text.isDigit_of_mem_digits h)
  · exact Or.inl (Or.inr (Or.inr (Or.inr h)))

theorem toList_sheetPart (index : Nat) :
    (sheetPart index).toList = "xl".toList ++ '/' :: (sheetTarget index).toList := by
  simp [sheetPart]

theorem toList_sheetLink (index : Nat) :
    (sheetLink index).toList = "rId".toList ++ Text.digits (index + 1) := by
  simp [sheetLink, Text.decimal]

theorem sheetTarget_injective {i j : Nat} (h : sheetTarget i = sheetTarget j) : i = j := by
  have hchars := congrArg String.toList h
  rw [toList_sheetTarget, toList_sheetTarget] at hchars
  have hnumbered : "sheet".toList ++ (Text.digits (i + 1) ++ ".xml".toList) =
      "sheet".toList ++ (Text.digits (j + 1) ++ ".xml".toList) := by
    simpa using hchars
  have := Text.digits_injective (List.append_cancel_right (List.append_cancel_left hnumbered))
  omega

theorem sheetPart_injective {i j : Nat} (h : sheetPart i = sheetPart j) : i = j := by
  apply sheetTarget_injective
  have hchars := congrArg String.toList h
  rw [toList_sheetPart, toList_sheetPart] at hchars
  exact String.toList_inj.1 (List.cons.inj (List.append_cancel_left hchars)).2

theorem sheetLink_injective {i j : Nat} (h : sheetLink i = sheetLink j) : i = j := by
  have hchars := congrArg String.toList h
  rw [toList_sheetLink, toList_sheetLink] at hchars
  have := Text.digits_injective (List.append_cancel_left hchars)
  omega

def IsFolded (c : Char) : Prop :=
  Text.isCapital c = false ∧ c ≠ '\\'

instance (c : Char) : Decidable (IsFolded c) :=
  inferInstanceAs (Decidable (_ ∧ _))

private theorem foldName_eq_self {name : String} (h : ∀ c ∈ name.toList, IsFolded c) :
    foldName name = name := by
  have hlower : (Text.lowerAscii name).toList = name.toList := by
    rw [Text.lowerAscii, String.toList_ofList]
    refine (List.map_congr_left fun c hc => ?_).trans (List.map_id _)
    simp [Text.lowerChar, (h c hc).1]
  have hslash : (name.toList.map fun c => if c = '\\' then '/' else c) = name.toList := by
    refine (List.map_congr_left fun c hc => ?_).trans (List.map_id _)
    simp [(h c hc).2]
  rw [foldName, hlower, hslash, String.ofList_toList]

/-- The name of the part of a sheet is the same for a tolerant look-up. -/
theorem foldName_sheetPart (index : Nat) : foldName (sheetPart index) = sheetPart index := by
  apply foldName_eq_self
  intro c hc
  rw [toList_sheetPart, List.append_cons, List.mem_append] at hc
  rcases hc with hc | hc
  · exact Text.forall_mem_of_all (P := IsFolded) (by decide) c hc
  · rcases mem_sheetTarget hc with hc | hdigit
    · exact Text.forall_mem_of_all (P := IsFolded) (by decide) c hc
    · refine ⟨Text.isCapital_eq_false_of_isDigit hdigit, ?_⟩
      rintro rfl
      exact absurd hdigit (by decide)

def textsBefore (sheets : List WrittenSheet) (index : Nat) : Nat :=
  ((sheets.take index).flatMap WrittenSheet.texts).length

/-- The texts of a sheet are some of all texts, from their number on. -/
theorem textsBefore_add_le {i : Nat} {s : WrittenSheet} (hs : sheets[i]? = some s) :
    textsBefore sheets i + s.texts.length ≤ (sheets.flatMap WrittenSheet.texts).length := by
  obtain ⟨hi, rfl⟩ := List.getElem?_eq_some_iff.1 hs
  have hsplit := congrArg (fun l => (l.flatMap WrittenSheet.texts).length)
    (List.take_append_drop i sheets)
  rw [List.drop_eq_getElem_cons hi] at hsplit
  simp only [List.flatMap_append, List.flatMap_cons, List.length_append] at hsplit
  rw [textsBefore]
  omega

/-- The part of a sheet, among the parts of sheets. -/
theorem find?_sheetParts {q : String → Bool} (formats : List Format) (firstText index : Nat)
    {i : Nat} {s : WrittenSheet} (hs : sheets[i]? = some s)
    (hq : ∀ j, q (sheetPart j) = decide (j = index + i)) :
    ((sheetParts formats firstText index sheets).find? fun e => q e.1) =
      some (sheetPart (index + i),
        { text := Xml.document (s.node formats (firstText + textsBefore sheets i)) }) := by
  induction sheets generalizing firstText index i with
  | nil => cases hs
  | cons first sheets ih =>
    rw [sheetParts]
    cases i with
    | zero =>
      obtain rfl : first = s := Option.some.inj hs
      have hhere : q ("xl/" ++ sheetTarget index) = true := by
        rw [← sheetPart, hq]
        simp
      simp only [List.find?_cons, hhere, sheetPart, Nat.add_zero, textsBefore, List.take_zero,
        List.flatMap_nil, List.length_nil]
    | succ i =>
      have hother : q ("xl/" ++ sheetTarget index) = false := by
        rw [← sheetPart, hq]
        simp
      have hrest := ih (firstText + first.texts.length) (index + 1) hs
        fun j => by rw [hq, Nat.add_right_comm, Nat.add_assoc]
      simp only [List.find?_cons, hother, hrest, Nat.add_right_comm index 1 i,
        Nat.add_assoc index i 1, textsBefore, List.take_succ_cons, List.flatMap_cons,
        List.length_append, Nat.add_assoc]

section lookups

/-- The formats of a package, the standard one first. -/
def formatsOf (sheets : List WrittenSheet) : List Format :=
  ({} :: sheets.flatMap WrittenSheet.formats).eraseDups

def frontNames : List String :=
  ["[Content_Types].xml", "_rels/.rels", "xl/workbook.xml", "xl/_rels/workbook.xml.rels",
    "xl/styles.xml", "xl/sharedStrings.xml"]

theorem part?_workbook : (ofSheets sheets).part? "xl/workbook.xml" =
    some { text := Xml.document (workbookNode (sheets.map WrittenSheet.name)) } :=
  rfl

theorem part?_links : (ofSheets sheets).part? "xl/_rels/workbook.xml.rels" =
    some { text := Xml.document (workbookLinks sheets.length) } :=
  rfl

theorem part?_styles : (ofSheets sheets).part? StyleTable.partName =
    some { text := Xml.document (Format.stylesNode (formatsOf sheets)) } :=
  rfl

private theorem foldName_front :
    foldName "[Content_Types].xml" = "[content_types].xml" ∧
      foldName "_rels/.rels" = "_rels/.rels" ∧ foldName "xl/workbook.xml" = "xl/workbook.xml" ∧
      foldName "xl/_rels/workbook.xml.rels" = "xl/_rels/workbook.xml.rels" ∧
      foldName "xl/styles.xml" = "xl/styles.xml" ∧
      foldName "xl/sharedStrings.xml" = "xl/sharedstrings.xml" := by
  decide +kernel

theorem similarPart?_workbook : (ofSheets sheets).similarPart? "xl/workbook.xml" =
    some { text := Xml.document (workbookNode (sheets.map WrittenSheet.name)) } := by
  simp [similarPart?, ofSheets, foldName_front]

theorem similarPart?_links : (ofSheets sheets).similarPart? "xl/_rels/workbook.xml.rels" =
    some { text := Xml.document (workbookLinks sheets.length) } := by
  simp [similarPart?, ofSheets, foldName_front]

theorem similarPart?_styles : (ofSheets sheets).similarPart? "xl/styles.xml" =
    some { text := Xml.document (Format.stylesNode (formatsOf sheets)) } := by
  simp [similarPart?, ofSheets, foldName_front, formatsOf]

theorem similarPart?_texts : (ofSheets sheets).similarPart? "xl/sharedStrings.xml" =
    some { text := sharedTexts (sheets.flatMap WrittenSheet.texts) } := by
  simp [similarPart?, ofSheets, foldName_front]

/-- A look-up that takes none of the parts in front finds the part of the sheet that it names. -/
theorem find?_parts {q : String → Bool} {i : Nat} {s : WrittenSheet} (hs : sheets[i]? = some s)
    (hfront : ∀ name ∈ frontNames, q name = false) (hq : ∀ j, q (sheetPart j) = decide (j = i)) :
    ((ofSheets sheets).parts.find? fun e => q e.1).map (·.2) =
      some { text := Xml.document (s.node (formatsOf sheets) (textsBefore sheets i)) } := by
  obtain ⟨front, hparts, hnames⟩ : ∃ front, (ofSheets sheets).parts =
      front ++ sheetParts (formatsOf sheets) 0 0 sheets ∧ front.map Prod.fst = frontNames :=
    ⟨_, rfl, rfl⟩
  have hnone : (front.find? fun e => q e.1) = none := by
    rw [List.find?_eq_none]
    intro e he
    rw [hfront e.1 (hnames ▸ List.mem_map_of_mem he)]
    exact Bool.false_ne_true
  rw [hparts, List.find?_append, hnone, Option.none_or,
    find?_sheetParts (formatsOf sheets) 0 0 hs (by simpa using hq), Option.map_some, Nat.zero_add,
    Nat.zero_add]

/-- The name of the part of a sheet begins with its folder, and no other name does. -/
theorem folder_isPrefixOf (index : Nat) :
    "xl/worksheets/".toList.isPrefixOf (sheetPart index).toList = true := by
  rw [toList_sheetPart, toList_sheetTarget]
  rfl

private theorem folder_front : ∀ name ∈ frontNames,
    "xl/worksheets/".toList.isPrefixOf name.toList = false ∧
      "xl/worksheets/".toList.isPrefixOf (foldName name).toList = false := by
  decide +kernel

theorem part?_sheet {i : Nat} {s : WrittenSheet} (hs : sheets[i]? = some s) :
    (ofSheets sheets).part? (sheetPart i) =
      some { text := Xml.document (s.node (formatsOf sheets) (textsBefore sheets i)) } := by
  refine find?_parts (q := fun name => decide (name = sheetPart i)) hs ?_ fun j => ?_
  · intro name hname
    apply decide_eq_false
    intro h
    have hfolder := folder_isPrefixOf i
    rw [← h, (folder_front name hname).1] at hfolder
    cases hfolder
  · rw [decide_eq_decide]
    exact ⟨sheetPart_injective, fun h => h ▸ rfl⟩

theorem similarPart?_sheet {i : Nat} {s : WrittenSheet} (hs : sheets[i]? = some s) :
    (ofSheets sheets).similarPart? (sheetPart i) =
      some { text := Xml.document (s.node (formatsOf sheets) (textsBefore sheets i)) } := by
  refine find?_parts (q := fun name => decide (foldName name = foldName (sheetPart i))) hs ?_
    fun j => ?_
  · intro name hname
    apply decide_eq_false
    intro h
    have hfolder := folder_isPrefixOf i
    rw [← foldName_sheetPart, ← h, (folder_front name hname).2] at hfolder
    cases hfolder
  · rw [decide_eq_decide, foldName_sheetPart, foldName_sheetPart]
    exact ⟨sheetPart_injective, fun h => h ▸ rfl⟩

end lookups

end Package

end SheetTemplate
