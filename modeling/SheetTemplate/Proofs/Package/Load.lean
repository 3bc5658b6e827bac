import SheetTemplate.Proofs.Package.Looks
import SheetTemplate.Proofs.Package.SharedTexts
import SheetTemplate.Proofs.Package.WrittenLook
import SheetTemplate.Proofs.Package.WrittenValues
/-!
Loading a written package. Its sheets come back under their names and in their order, each with the
look of its own part; nothing but its shared texts can keep it from being loaded.
-/
namespace SheetTemplate

def Sheet.validation? (s : Sheet) (place : CellRef) : Option Validation :=
  (s.cell? place).bind (·.presentation.validation)

/-- Validations come from the look alone. -/
theorem Sheet.validation?_overlay (name : String) (values : Table CellRef CellValue)
    (formulas : Table CellRef String) (merges : List Range) (look : SheetLook) (place : CellRef) :
    (Sheet.overlay name values formulas merges look).validation? place =
      (look.cells.find? place).bind (·.validation) := by
  rw [validation?, cell?, overlay, Table.find?_mergeWith, Table.find?_mapValues,
    Table.find?_mapValues]
  cases Table.find? _ place <;> cases look.cells.find? place <;> rfl

namespace Package
open Xml

section sheets
variable {p : Package} {shelf : Shelf} {entries : List SheetEntry}

def lookOf (looks : List (String × SheetLook)) (name : String) : SheetLook :=
  ((looks.find? fun e => e.1 = name).map (·.2)).getD plainLook

/-- Another sheet leaves the look of a name. -/
theorem lookOf_filter {name other : String} (h : other ≠ name) (looks : List (String × SheetLook)) :
    lookOf (looks.filter fun e => e.1 ≠ name) other = lookOf looks other := by
  rw [lookOf, lookOf, List.find?_filter]
  congr 3
  funext e
  rw [decide_eq_decide, decide_eq_true_eq, decide_eq_true_eq]
  exact ⟨And.right, fun he => ⟨he ▸ h, he⟩⟩

private theorem sheets_cons_of_none {looks : List (String × SheetLook)} {name : String}
    {names : List String} (h : p.sheet? shelf entries name (lookOf looks name) = none) :
    p.sheets shelf entries looks (name :: names) = .error (.read (.worksheet name)) := by
  rw [lookOf] at h
  rw [sheets]
  simp only [h]

theorem sheets_cons_of_some {looks : List (String × SheetLook)} {name : String}
    {names : List String} {s : Sheet}
    (h : p.sheet? shelf entries name (lookOf looks name) = some s) :
    p.sheets shelf entries looks (name :: names) =
      (p.sheets shelf entries (looks.filter fun e => e.1 ≠ name) names).map (s :: ·) := by
  rw [lookOf] at h
  rw [sheets]
  simp only [h]

/-- The sheet in the place of each name was read under that name and with its look. -/
theorem exists_of_sheets_eq_ok {looks : List (String × SheetLook)} {names : List String}
    {found : List Sheet} (hnames : names.Nodup)
    (h : p.sheets shelf entries looks names = .ok found) {i : Nat} {name : String}
    (hname : names[i]? = some name) :
    ∃ s, found[i]? = some s ∧ p.sheet? shelf entries name (lookOf looks name) = some s := by
  induction names generalizing looks found i with
  | nil => cases hname
  | cons first names ih =>
    obtain ⟨hfirst, hrest⟩ := List.nodup_cons.1 hnames
    cases hs : p.sheet? shelf entries first (lookOf looks first) with
    | none =>
      rw [sheets_cons_of_none hs] at h
      cases h
    | some s =>
      rw [sheets_cons_of_some hs] at h
      cases hothers : p.sheets shelf entries (looks.filter fun e => e.1 ≠ first) names with
      | error e =>
        rw [hothers] at h
        cases h
      | ok others =>
        rw [hothers] at h
        cases h
        cases i with
        | zero =>
          obtain rfl := Option.some.inj hname
          exact ⟨s, rfl, hs⟩
        | succ i =>
          have hother : name ≠ first := fun he =>
            hfirst (he ▸ List.mem_of_getElem? hname)
          obtain ⟨s', hs', hread⟩ := ih hrest hothers hname
          exact ⟨s', hs', lookOf_filter hother looks ▸ hread⟩

/-- Sheets that can all be read make a workbook. -/
theorem exists_sheets_eq_ok (looks : List (String × SheetLook)) {names : List String}
    (h : ∀ name ∈ names, ∀ look, (p.sheet? shelf entries name look).isSome) :
    ∃ found, p.sheets shelf entries looks names = .ok found := by
  induction names generalizing looks with
  | nil => exact ⟨[], rfl⟩
  | cons name names ih =>
    obtain ⟨hname, hrest⟩ := List.forall_mem_cons.1 h
    obtain ⟨s, hs⟩ := Option.isSome_iff_exists.1 (hname (lookOf looks name))
    obtain ⟨found, hfound⟩ := ih (looks.filter fun e => e.1 ≠ name) hrest
    refine ⟨s :: found, ?_⟩
    rw [sheets_cons_of_some hs, hfound]
    rfl

/-- A sheet that is read has the validations of its look. -/
theorem validation?_of_sheet? {name : String} {look : SheetLook} {s : Sheet}
    (h : p.sheet? shelf entries name look = some s) (place : CellRef) :
    s.validation? place = (look.cells.find? place).bind (·.validation) := by
  obtain ⟨events, -, h⟩ := Option.bind_eq_some_iff.1 h
  obtain ⟨values, -, h⟩ := Option.bind_eq_some_iff.1 h
  cases h
  exact Sheet.validation?_overlay ..

end sheets

/-- A package of which every source is read. -/
theorem load_eq {p : Package} {texts : List String} {kinds : List NumberKind}
    {entries : List SheetEntry} {looks : List (String × SheetLook)}
    (htexts : RichText.ofPackage? p = some texts) (hkinds : NumberKind.ofPackage? p = some kinds)
    (hentries : SheetEntry.ofPackage? p = some entries)
    (hmerges :
      ((entries.filterMap fun e => p.tolerantEvents? e.part).all StoredMerge.readable) = true)
    (hlooks : p.looks = .ok looks) :
    p.load = (p.sheets ⟨texts.toArray, kinds.toArray⟩ entries looks
      ((entries.filter SheetEntry.isWorksheet).map SheetEntry.name)).map Workbook.mk := by
  simp only [load, htexts, hkinds, hentries, hmerges, hlooks]
  rfl

section written
variable {sources : List Sheet} {sheets : List WrittenSheet}

theorem worksheets_numbered (names : List String) :
    (((SheetEntry.numbered names).filter SheetEntry.isWorksheet).map SheetEntry.name) = names := by
  have hall : (SheetEntry.numbered names).filter SheetEntry.isWorksheet =
      SheetEntry.numbered names := by
    rw [List.filter_eq_self]
    intro e he
    obtain ⟨_, -, rfl⟩ := List.mem_map.1 he
    rfl
  rw [hall, SheetEntry.numbered, List.map_map]
  exact List.zipIdx_map_fst 0 names

theorem exists_of_mem_numbered {e : SheetEntry}
    (h : e ∈ SheetEntry.numbered (sheets.map WrittenSheet.name)) :
    ∃ i s, sheets[i]? = some s ∧ e.part = sheetPart i := by
  obtain ⟨⟨name, i⟩, hmem, rfl⟩ := List.mem_map.1 h
  rw [List.mem_zipIdx_iff_getElem?, List.getElem?_map, Option.map_eq_some_iff] at hmem
  obtain ⟨s, hs, -⟩ := hmem
  exact ⟨i, s, hs, rfl⟩

/-- The values under a name are found in the part of some sheet. -/
theorem partOf?_numbered {name : String} (h : name ∈ sheets.map WrittenSheet.name) :
    ∃ i s, sheets[i]? = some s ∧
      partOf? (SheetEntry.numbered (sheets.map WrittenSheet.name)) name = some (sheetPart i) := by
  rw [← worksheets_numbered (sheets.map WrittenSheet.name)] at h
  obtain ⟨e, he, rfl⟩ := List.mem_map.1 h
  have hmem := (List.mem_filter.1 he).1
  rw [partOf?]
  cases hfind : (SheetEntry.numbered (sheets.map WrittenSheet.name)).find? fun d =>
      d.name = e.name with
  | none => exact absurd (List.find?_eq_none.1 hfind e hmem) (by simp)
  | some d =>
    obtain ⟨i, s, hs, hpart⟩ := exists_of_mem_numbered (List.mem_of_find?_eq_some hfind)
    exact ⟨i, s, hs, congrArg some hpart⟩

/-- Among entries made from names that differ, in any order, a name finds the one of its number. -/
theorem find?_numbered {α : Type} {names : List String} (hnames : names.Nodup) {i : Nat}
    {name : String} (h : names[i]? = some name) {f : String × Nat → α} {key : α → String}
    (hkey : ∀ e, key (f e) = e.1) {l : List α} (hl : ∀ d, d ∈ l ↔ d ∈ names.zipIdx.map f) :
    l.find? (fun d => key d = name) = some (f (name, i)) := by
  have hmem : f (name, i) ∈ l :=
    (hl _).2 (List.mem_map_of_mem (List.mem_zipIdx_iff_getElem?.2 h))
  cases hfind : l.find? fun d => key d = name with
  | none => exact absurd (List.find?_eq_none.1 hfind _ hmem) (by simp [hkey])
  | some d =>
    obtain ⟨⟨name', j⟩, hj, rfl⟩ := List.mem_map.1 ((hl d).1 (List.mem_of_find?_eq_some hfind))
    have hsame : name' = name := by simpa [hkey] using List.find?_some hfind
    rw [List.mem_zipIdx_iff_getElem?] at hj
    have hlt := (List.getElem?_eq_some_iff.1 h).1
    have hij : i = j := (List.getElem?_inj hlt hnames).1 (h.trans (hsame ▸ hj.symm))
    rw [hsame, hij]

/-- The look that was found for the sheet with a number is that of its name. -/
theorem lookOf_numbered {names : List String} (hnames : names.Nodup) {i : Nat} {name : String}
    (h : names[i]? = some name) (look : Nat → SheetLook) :
    lookOf (names.zipIdx.map fun e => (e.1, look e.2)).reverse name = look i := by
  rw [lookOf, find?_numbered (f := fun e => (e.1, look e.2)) hnames h (fun _ => rfl)
    fun _ => List.mem_reverse]
  rfl

theorem tolerantEvents?_sheet {i : Nat} {s : WrittenSheet} (hs : sheets[i]? = some s) :
    (ofSheets sheets).tolerantEvents? (sheetPart i) =
      some (tolerantEvents (partText sheets i s)) := by
  rw [tolerantEvents?, similarPart?_sheet hs]
  rfl

private theorem readable_parts (h : ∀ s ∈ sheets, s.Sound) :
    (((SheetEntry.numbered (sheets.map WrittenSheet.name)).filterMap fun e =>
      (ofSheets sheets).tolerantEvents? e.part).all StoredMerge.readable) = true := by
  rw [List.all_eq_true]
  intro events hevents
  obtain ⟨e, he, hread⟩ := List.mem_filterMap.1 hevents
  obtain ⟨i, s, hs, hpart⟩ := exists_of_mem_numbered he
  rw [hpart, tolerantEvents?_sheet hs, Option.some.injEq] at hread
  rw [← hread]
  exact StoredMerge.readable_written (h s (List.mem_of_getElem? hs)) _ _

private theorem exists_numberKinds (sheets : List WrittenSheet) :
    ∃ kinds, NumberKind.ofPackage? (ofSheets sheets) = some kinds := by
  obtain ⟨r, hread, hdone⟩ := NumberKind.exists_foldlM_styles (formatsOf sheets)
  rw [NumberKind.ofPackage?, tolerantEvents?, similarPart?_styles, Option.map_some]
  simp only [hread, hdone, if_true]
  exact ⟨_, rfl⟩

/-- What a written package needs for being loaded, apart from its shared texts. -/
theorem load_ofSheets (h : ∀ s ∈ sheets, s.Sound) {looks : List (String × SheetLook)}
    (hlooks : (ofSheets sheets).looks = .ok looks) :
    ∃ kinds, ∀ texts, RichText.ofPackage? (ofSheets sheets) = some texts →
      (ofSheets sheets).load = ((ofSheets sheets).sheets ⟨texts.toArray, kinds⟩
        (SheetEntry.numbered (sheets.map WrittenSheet.name)) looks
          (sheets.map WrittenSheet.name)).map Workbook.mk := by
  obtain ⟨kinds, hkinds⟩ := exists_numberKinds sheets
  refine ⟨kinds.toArray, fun texts htexts => ?_⟩
  rw [load_eq htexts hkinds (SheetEntry.ofPackage?_ofSheets sheets) (readable_parts h) hlooks,
    worksheets_numbered]

end written

end Package

end SheetTemplate
