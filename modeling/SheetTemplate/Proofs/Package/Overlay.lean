import SheetTemplate.Package.Load
import SheetTemplate.Proofs.Grid.Area
import SheetTemplate.Proofs.Grid.Range
/-!
A sheet is laid over from three sources, cell by cell. One after the other, the values of one area,
the formulas of another, the merged regions and the presentations are put into an empty sheet; each
has a start of its own.
-/
namespace SheetTemplate

/-- What a cell stores as its value. -/
inductive StoredValue where
  | empty
  | text (s : String)
  | number (x : Binary64)
  | whole (i : Int64)
  | bool (b : Bool)
  | serial (x : Binary64) (isDuration : Bool)
  | isoDate (s : String)
  | isoDuration (s : String)
  | error (s : String)
deriving DecidableEq

/-- The value that is shown for a stored one, if there is one. Serial numbers out of range and those
of durations stay numbers, and dates that cannot be read stay texts. -/
def StoredValue.shown? : StoredValue → Option CellValue
  | empty => none
  | text s => some (.text s)
  | number x => some (.number x)
  | whole i => some (.number (Binary64.ofInt i.toInt))
  | bool b => some (.bool b)
  | serial x isDuration =>
    match Serial.toDateTime? x with
    | some d => some (if isDuration then .number x else .date d)
    | none => some (.number x)
  | isoDate s =>
    match Iso.read? s with
    | some d => some (.date d)
    | none => some (.text s)
  | isoDuration s => some (.text s)
  | error s => some (.text s)

theorem StoredValue.isSome_shown? (v : StoredValue) : v.shown?.isSome = true ↔ v ≠ .empty := by
  cases v with
  | serial x isDuration => cases h : Serial.toDateTime? x <;> simp [shown?, h]
  | isoDate s => cases h : Iso.read? s <;> simp [shown?, h]
  | _ => simp [shown?]

def formulaText? (text : String) : Option String :=
  if text.isEmpty then none else some text

/-- A merged region by two of its corners, counted from 0. -/
structure StoredRegion where
  first : Nat × Nat
  last : Nat × Nat

def StoredRegion.range (r : StoredRegion) : Range :=
  Range.ofCorners ⟨r.first.1 + 1, r.first.2 + 1⟩ ⟨r.last.1 + 1, r.last.2 + 1⟩

/-- The rectangle between the corners, whichever of its corners they are, counted from 1. -/
def StoredRegion.normalised (r : StoredRegion) : Range where
  top := min r.first.1 r.last.1 + 1
  left := min r.first.2 r.last.2 + 1
  bottom := max r.first.1 r.last.1 + 1
  right := max r.first.2 r.last.2 + 1
  top_le_bottom := by omega
  left_le_right := by omega

theorem StoredRegion.range_eq_normalised (r : StoredRegion) : r.range = r.normalised := by
  simp only [range, normalised, Range.ofCorners, Range.mk.injEq]
  omega

namespace Sheet

/-- The sheet with the values of an area, without those that are empty. -/
def loadValues (s : Sheet) (values : Area StoredValue) : Sheet :=
  values.cells.foldl (fun s e =>
    match e.2.shown? with
    | some value => s.setValue e.1 value
    | none => s) s

def loadFormulas (s : Sheet) (formulas : Area String) : Sheet :=
  formulas.cells.foldl (fun s e =>
    if e.2.isEmpty then s else s.setValue e.1 (.ofFormula e.2)) s

def loadRegions (s : Sheet) (regions : List StoredRegion) : Sheet :=
  regions.foldl (fun s r => s.merge r.range) s

def applyLook (s : Sheet) (look : SheetLook) : Sheet :=
  look.widths.entries.foldl (fun s e => s.setWidth e.1 e.2)
    (look.cells.entries.foldl (fun s e => s.setPresentation e.1 e.2) s)

/-- The sheet with a name after all sources were put in. -/
def imported (name : String) (values : Area StoredValue) (formulas : Area String)
    (regions : List StoredRegion) (look : SheetLook) : Sheet :=
  ((((named name).loadValues values).loadFormulas formulas).loadRegions regions).applyLook look

/-! ## One source after the other -/

section update
variable {β : Type}

/-- Each cell that a table has an entry for is changed once, and the others are left. -/
theorem cell?_foldl_update (t : Table CellRef β) (f : β → Cell → Cell) (s : Sheet)
    (place : CellRef) :
    (t.entries.foldl (fun s e => s.update e.1 (f e.2)) s).cell? place =
      ((t.find? place).map fun v => f v (s.cellOrEmpty place)).or (s.cell? place) := by
  have hcells : t.entries.foldl (fun u e => u.insert e.1 (f e.2 ((u.find? e.1).getD {}))) s.cells =
      (t.entries.foldl (fun s e => s.update e.1 (f e.2)) s).cells :=
    List.foldl_hom Sheet.cells fun _ _ => rfl
  rw [cell?, ← hcells]
  exact t.find?_foldl_insert (fun v cell => f v (cell.getD {})) s.cells place

def rest (s : Sheet) : String × List Range × Table Nat Binary64 :=
  (s.name, s.merges, s.widths)

private theorem eq_of_cell? {s t : Sheet} (hcells : ∀ place, s.cell? place = t.cell? place)
    (hrest : s.rest = t.rest) : s = t := by
  obtain ⟨name, cells, merges, widths⟩ := s
  obtain ⟨name', cells', merges', widths'⟩ := t
  obtain rfl : cells = cells' := Table.ext hcells
  cases hrest
  rfl

theorem rest_foldl_update (entries : List (CellRef × β)) (f : β → Cell → Cell) (s : Sheet) :
    (entries.foldl (fun s e => s.update e.1 (f e.2)) s).rest = s.rest := by
  induction entries generalizing s with
  | nil => rfl
  | cons e entries ih => exact ih _

def putValues (s : Sheet) (values : Table CellRef CellValue) : Sheet :=
  values.entries.foldl (fun s e => s.setValue e.1 e.2) s

theorem cell?_putValues (s : Sheet) (values : Table CellRef CellValue) (place : CellRef) :
    (s.putValues values).cell? place =
      ((values.find? place).map fun value => { s.cellOrEmpty place with value }).or
        (s.cell? place) :=
  cell?_foldl_update values (fun value cell => { cell with value }) s place

theorem rest_putValues (s : Sheet) (values : Table CellRef CellValue) :
    (s.putValues values).rest = s.rest :=
  rest_foldl_update values.entries (fun value cell => { cell with value }) s

/-- The loop over an area of values puts those that are shown. -/
theorem loadValues_eq (s : Sheet) (values : Area StoredValue) :
    s.loadValues values = s.putValues (values.table StoredValue.shown?) := by
  rw [loadValues, putValues, Area.table, List.foldl_filterMap]
  congr 1
  funext s e
  cases e.2.shown? <;> rfl

/-- The loop over an area of formulas puts those with a text. -/
theorem loadFormulas_eq (s : Sheet) (formulas : Area String) :
    s.loadFormulas formulas =
      s.putValues ((formulas.table formulaText?).mapValues fun _ f => .ofFormula f) := by
  rw [loadFormulas, putValues, Table.mapValues, List.foldl_map, Area.table, List.foldl_filterMap]
  congr 1
  funext s e
  rw [formulaText?]
  split <;> rfl

private theorem loadRegions_eq (s : Sheet) (regions : List StoredRegion) :
    s.loadRegions regions =
      { s with merges := (regions.map StoredRegion.range).foldl pushRange s.merges } := by
  induction regions generalizing s with
  | nil => rfl
  | cons r regions ih => exact ih _

theorem foldl_setWidth_eq (entries : List (Nat × Binary64)) (s : Sheet) :
    entries.foldl (fun s e => s.setWidth e.1 e.2) s =
      { s with widths := entries.foldl (fun u e => u.insert e.1 e.2) s.widths } := by
  induction entries generalizing s with
  | nil => rfl
  | cons e entries ih => exact ih _

theorem cell?_applyLook (s : Sheet) (look : SheetLook) (place : CellRef) :
    (s.applyLook look).cell? place =
      ((look.cells.find? place).map fun presentation =>
        { s.cellOrEmpty place with presentation }).or (s.cell? place) := by
  rw [applyLook, foldl_setWidth_eq]
  exact cell?_foldl_update look.cells (fun presentation cell => { cell with presentation }) s place

theorem rest_applyLook {s : Sheet} (look : SheetLook) (h : s.widths = Table.empty) :
    (s.applyLook look).rest = (s.name, s.merges, look.widths) := by
  have hwidths : look.widths.entries.foldl (fun u e => u.insert e.1 e.2) Table.empty =
      look.widths := by
    refine Table.ext fun column => ?_
    rw [look.widths.find?_foldl_insert (fun v _ => v)]
    cases look.widths.find? column <;> rfl
  have hrest : (look.cells.entries.foldl (fun s e => s.setPresentation e.1 e.2) s).rest = s.rest :=
    rest_foldl_update look.cells.entries (fun presentation cell => { cell with presentation }) s
  rw [applyLook, foldl_setWidth_eq]
  generalize look.cells.entries.foldl (fun s e => s.setPresentation e.1 e.2) s = s' at hrest
  simp only [rest, Prod.mk.injEq] at hrest ⊢
  obtain ⟨hname, hmerges, hempty⟩ := hrest
  exact ⟨hname, hmerges, by rw [hempty, h, hwidths]⟩

end update

/-! ## All sources -/

section imported
variable (name : String) (values : Area StoredValue) (formulas : Area String)
  (regions : List StoredRegion) (look : SheetLook)

/-- A cell that is laid over from three sources. -/
theorem cell?_overlay (values : Table CellRef CellValue) (formulas : Table CellRef String)
    (merges : List Range) (place : CellRef) :
    (overlay name values formulas merges look).cell? place =
      Option.merge (fun cell look => { cell with presentation := look.presentation })
        ((((formulas.find? place).map CellValue.ofFormula).or (values.find? place)).map
          fun value => { value })
        ((look.cells.find? place).map fun presentation => { presentation }) := by
  rw [cell?, overlay, Table.find?_mergeWith]
  simp

/-- Putting in the sources one after the other lays them over each other. -/
theorem imported_eq_overlay : imported name values formulas regions look =
    overlay name (values.table StoredValue.shown?) (formulas.table formulaText?)
      (regions.map StoredRegion.range) look := by
  have hrest : (((named name).loadValues values).loadFormulas formulas).rest =
      (named name).rest := by
    rw [loadFormulas_eq, rest_putValues, loadValues_eq, rest_putValues]
  have hcells (place : CellRef) :
      (((named name).loadValues values).loadFormulas formulas).cell? place =
        ((((formulas.table formulaText?).find? place).map CellValue.ofFormula).or
          ((values.table StoredValue.shown?).find? place)).map fun value => { value } := by
    rw [loadFormulas_eq, cell?_putValues, cellOrEmpty, loadValues_eq, cell?_putValues,
      Table.find?_mapValues]
    cases (formulas.table formulaText?).find? place <;>
      cases (values.table StoredValue.shown?).find? place <;> rfl
  rw [imported, loadRegions_eq]
  generalize ((named name).loadValues values).loadFormulas formulas = loaded at hrest hcells
  obtain ⟨name', cells, merges, widths⟩ := loaded
  cases hrest
  refine eq_of_cell? (fun place => ?_) (rest_applyLook look rfl)
  rw [cell?_applyLook, cell?_overlay, ← hcells, cellOrEmpty]
  simp only [cell?]
  cases cells.find? place <;> cases look.cells.find? place <;> rfl

/-! ## What a sheet that is laid over shows -/

/-- The value at a place that areas of values and formulas make: the formula, if its text is not
empty, else the value that is shown. -/
def valueOver (values : Area StoredValue) (formulas : Area String) (place : CellRef) : CellValue :=
  if formulas.getD "" place ≠ "" then .ofFormula (formulas.getD "" place)
  else (values.getD .empty place).shown?.getD .empty

/-- The regions of a list in their order, without single cells and repetitions. -/
def distinctRegions (rs : List Range) : List Range :=
  (rs.filter fun r => r.top ≠ r.bottom ∨ r.left ≠ r.right).eraseDups

/-- The sheet has a cell exactly where one of the sources has something, and each cell has the value
and the presentation of its place. An equals sign in front is no part of a formula. The merged
regions are those of the source, in their order, without single cells and repetitions. -/
structure LaidOver (s : Sheet) (name : String) (values : Area StoredValue) (formulas : Area String)
    (regions : List StoredRegion) (look : SheetLook) : Prop where
  name_eq : s.name = name
  isSome_cell?_iff : ∀ place, (s.cell? place).isSome = true ↔
    values.getD .empty place ≠ .empty ∨ formulas.getD "" place ≠ "" ∨
      (look.cells.find? place).isSome = true
  value_of_equals : ∀ place cell text, s.cell? place = some cell →
    formulas.getD "" place = "=" ++ text → cell.value = .formula text
  value_of_formula : ∀ place cell, s.cell? place = some cell → formulas.getD "" place ≠ "" →
    (∀ text, formulas.getD "" place ≠ "=" ++ text) → cell.value = .formula (formulas.getD "" place)
  value_of_stored : ∀ place cell, s.cell? place = some cell → formulas.getD "" place = "" →
    cell.value = (values.getD .empty place).shown?.getD .empty
  presentation_eq : ∀ place cell, s.cell? place = some cell →
    cell.presentation = (look.cells.find? place).getD {}
  merges_eq : s.merges = distinctRegions (regions.map StoredRegion.normalised)
  widths_eq : s.widths = look.widths

theorem ofFormula_equals (text : String) : CellValue.ofFormula ("=" ++ text) = .formula text := by
  simp [CellValue.ofFormula, CellValue.dropEquals]

theorem ofFormula_of_ne {s : String} (h : ∀ text, s ≠ "=" ++ text) :
    CellValue.ofFormula s = .formula s := by
  rw [CellValue.ofFormula, CellValue.dropEquals]
  split
  · rename_i cs hcs
    refine absurd ?_ (h (String.ofList cs))
    simp [← String.toList_inj, hcs]
  · rfl

private theorem find?_values (values : Area StoredValue) (place : CellRef) :
    (values.table StoredValue.shown?).find? place = (values.getD .empty place).shown? := by
  rw [Area.find?_table, Area.getD]
  cases values.at? place <;> rfl

private theorem find?_formulas (formulas : Area String) (place : CellRef) :
    (formulas.table formulaText?).find? place = formulaText? (formulas.getD "" place) := by
  rw [Area.find?_table, Area.getD]
  cases formulas.at? place <;> rfl

private theorem pushRange_distinctRegions (rs : List Range) (r : Range) :
    pushRange (distinctRegions rs) r = distinctRegions (rs ++ [r]) := by
  rw [pushRange, distinctRegions, distinctRegions, List.filter_append, List.eraseDups_append]
  cases hsingle : r.isSingle with
  | true =>
    have hsides := Range.isSingle_iff.1 hsingle
    simp [hsides, List.removeAll]
  | false =>
    have hsides := Range.isSingle_eq_false_iff.1 hsingle
    have hkept : [r].filter (fun r => r.top ≠ r.bottom ∨ r.left ≠ r.right) = [r] :=
      List.filter_eq_self.2 fun r' hr' => List.mem_singleton.1 hr' ▸ decide_eq_true hsides
    rw [hkept]
    generalize rs.filter _ = before
    by_cases hmem : r ∈ before <;> simp [hmem, List.removeAll, List.eraseDups_cons]

/-- Regions are added one by one to those that are distinct so far. -/
theorem foldl_pushRange_eq_distinctRegions (before rs : List Range) :
    rs.foldl pushRange (distinctRegions before) = distinctRegions (before ++ rs) := by
  induction rs generalizing before with
  | nil => rw [List.foldl_nil, List.append_nil]
  | cons r rs ih =>
    rw [List.foldl_cons, pushRange_distinctRegions, ih, List.append_assoc, List.singleton_append]

/-- The cell at a place, where there is one. -/
theorem cell?_imported (place : CellRef) :
    (imported name values formulas regions look).cell? place =
    if values.getD .empty place ≠ .empty ∨ formulas.getD "" place ≠ "" ∨
        (look.cells.find? place).isSome = true then
      some ⟨valueOver values formulas place, (look.cells.find? place).getD {}⟩
    else none := by
  rw [imported_eq_overlay, cell?_overlay, find?_values, find?_formulas, valueOver, formulaText?]
  generalize formulas.getD "" place = text
  generalize values.getD .empty place = stored
  have hstored := stored.isSome_shown?
  by_cases htext : text = ""
  · subst htext
    cases hshown : stored.shown? <;> cases look.cells.find? place <;> simp_all
  · have hsome : text.isEmpty = false := by simpa using htext
    cases stored.shown? <;> cases look.cells.find? place <;>
      simp [hsome, htext, CellValue.ofFormula]

theorem laidOver_imported :
    LaidOver (imported name values formulas regions look) name values formulas regions look := by
  have hcell (place : CellRef) (cell : Cell)
      (h : (imported name values formulas regions look).cell? place = some cell) :
      cell = ⟨valueOver values formulas place, (look.cells.find? place).getD {}⟩ := by
    rw [cell?_imported] at h
    exact (Option.some.inj (Option.ite_none_right_eq_some.1 h).2).symm
  refine ⟨?_, fun place => ?_, fun place cell text h htext => ?_,
    fun place cell h hsome hplain => ?_, fun place cell h hnone => ?_, fun place cell h => ?_, ?_,
    ?_⟩
  · rw [imported_eq_overlay, overlay]
  · rw [cell?_imported]
    split <;> simp_all
  · rw [hcell place cell h, valueOver, htext, if_pos (by simp), ofFormula_equals]
  · rw [hcell place cell h, valueOver, if_pos hsome, ofFormula_of_ne hplain]
  · rw [hcell place cell h, valueOver, if_neg (not_not_intro hnone)]
  · rw [hcell place cell h]
  · rw [imported_eq_overlay, overlay, ← funext StoredRegion.range_eq_normalised]
    exact foldl_pushRange_eq_distinctRegions [] _
  · rw [imported_eq_overlay, overlay]

end imported

end Sheet

end SheetTemplate
