import SheetTemplate.Package.WrittenSheet
import SheetTemplate.Proofs.Grid.Table
import SheetTemplate.Proofs.Package.StoredValidation
/-!
What is known of a sheet that could be written: its places are those of a package, and it has a
stored validation for each of its cells with one.
-/
namespace SheetTemplate

theorem bind_eq_ok {ε α β : Type} {x : Except ε α} {f : α → Except ε β} {b : β}
    (h : x >>= f = .ok b) : ∃ a, x = .ok a ∧ f a = .ok b := by
  cases x with
  | error e => cases h
  | ok a => exact ⟨a, rfl, h⟩

theorem toOption_eq_some {ε α : Type} {x : Except ε α} {a : α} (h : x.toOption = some a) :
    x = .ok a := by
  cases x with
  | error e => cases h
  | ok b => rw [Option.some.inj h]

namespace WrittenSheet

def Placed (place : CellRef) : Prop :=
  0 < place.row ∧ 0 < place.column

theorem checkRow_eq_ok {row : Nat} (h : checkRow row = .ok ()) : 0 < row := by
  unfold checkRow at h
  split at h
  · cases h
  · omega

theorem checkColumn_eq_ok {column : Nat} (h : checkColumn column = .ok ()) : 0 < column := by
  unfold checkColumn at h
  split at h
  · cases h
  · omega

theorem checkCell_eq_ok {place : CellRef} {c : Cell} (h : checkCell place c = .ok ()) :
    Placed place ∧ (isWritten c = true → place.row ≤ lastRow ∧ place.column ≤ lastColumn) := by
  obtain ⟨⟨⟩, hrow, h⟩ := bind_eq_ok h
  obtain ⟨⟨⟩, hcolumn, h⟩ := bind_eq_ok h
  refine ⟨⟨checkRow_eq_ok hrow, checkColumn_eq_ok hcolumn⟩, fun hwritten => ?_⟩
  rw [if_pos hwritten] at h
  split at h
  · cases h
  · rename_i hlimits
    omega

theorem checkMerge_eq_ok {r : Range} (h : checkMerge r = .ok ()) : 0 < r.top ∧ 0 < r.left := by
  obtain ⟨⟨⟩, hrow, h⟩ := bind_eq_ok h
  obtain ⟨⟨⟩, hcolumn, -⟩ := bind_eq_ok h
  exact ⟨checkRow_eq_ok hrow, checkColumn_eq_ok hcolumn⟩

def storedValidation? (e : CellRef × Cell) : Option StoredValidation :=
  e.2.presentation.validation.bind fun v => (StoredValidation.store v e.1).toOption

private theorem validationsOf_eq_ok {entries : List (CellRef × Cell)} {vs : List StoredValidation}
    (h : validationsOf entries = .ok vs) :
    vs = entries.filterMap storedValidation? ∧ ∀ e ∈ entries, checkCell e.1 e.2 = .ok () ∧
      ∀ v, e.2.presentation.validation = some v → ∃ sv, StoredValidation.store v e.1 = .ok sv := by
  induction entries generalizing vs with
  | nil =>
    cases h
    exact ⟨rfl, fun _ he => absurd he List.not_mem_nil⟩
  | cons e entries ih =>
    obtain ⟨place, c⟩ := e
    obtain ⟨⟨⟩, hcheck, h⟩ := bind_eq_ok h
    cases hv : c.presentation.validation with
    | none =>
      rw [hv] at h
      obtain ⟨rfl, hall⟩ := ih h
      refine ⟨?_, List.forall_mem_cons.2 ⟨⟨hcheck, fun v hv' => ?_⟩, hall⟩⟩
      · rw [List.filterMap_cons_none]
        simp [storedValidation?, hv]
      · rw [hv] at hv'
        cases hv'
    | some v =>
      rw [hv] at h
      obtain ⟨stored, hstored, h⟩ := bind_eq_ok h
      obtain ⟨rest, hrest, h⟩ := bind_eq_ok h
      obtain ⟨rfl, hall⟩ := ih hrest
      refine ⟨?_, List.forall_mem_cons.2 ⟨⟨hcheck, fun v' hv' => ?_⟩, hall⟩⟩
      · have hhead : storedValidation? (place, c) = some stored := by
          simp [storedValidation?, hv, hstored, Except.toOption]
        rw [List.filterMap_cons_some hhead]
        exact (Except.ok.inj h).symm
      · obtain rfl : v = v' := Option.some.inj (hv.symm.trans hv')
        exact ⟨stored, hstored⟩

private theorem forM_eq_ok {α ε : Type} {f : α → Except ε Unit} {l : List α}
    (h : l.forM f = .ok ()) :
    ∀ a ∈ l, f a = .ok () := by
  induction l with
  | nil => exact fun _ ha => absurd ha List.not_mem_nil
  | cons a l ih =>
    obtain ⟨⟨⟩, ha, hrest⟩ := bind_eq_ok h
    exact List.forall_mem_cons.2 ⟨ha, ih hrest⟩

/-- What was checked of a sheet before it was written, and what was written. -/
structure IsOf (s : Sheet) (written : WrittenSheet) : Prop where
  name_eq : written.name = s.name
  cells_eq : written.cells = cellsOf s
  validations_eq : written.validations = s.cells.entries.filterMap storedValidation?
  cells_checked : ∀ e ∈ s.cells.entries, checkCell e.1 e.2 = .ok ()
  validations_stored : ∀ e ∈ s.cells.entries, ∀ v, e.2.presentation.validation = some v →
    ∃ sv, StoredValidation.store v e.1 = .ok sv
  merges_eq : written.merges = mergesOf s
  merges_checked : ∀ r ∈ mergesOf s, checkMerge r = .ok ()

theorem isOf_of_ofSheet {s : Sheet} {written : WrittenSheet} (h : ofSheet s = .ok written) :
    IsOf s written := by
  simp only [ofSheet] at h
  split at h
  · cases h
  obtain ⟨widths, -, h⟩ := bind_eq_ok h
  obtain ⟨⟨⟩, hmerges, h⟩ := bind_eq_ok h
  obtain ⟨validations, hvalidations, h⟩ := bind_eq_ok h
  obtain ⟨hstored, hcells⟩ := validationsOf_eq_ok hvalidations
  cases h
  exact ⟨rfl, rfl, hstored, fun e he => (hcells e he).1, fun e he => (hcells e he).2, rfl,
    forM_eq_ok hmerges⟩

/-- The places of a written sheet are those of a package. -/
structure Sound (s : WrittenSheet) : Prop where
  cells : ∀ e ∈ s.cells.entries, Placed e.1
  merges : ∀ r ∈ s.merges, 0 < r.top ∧ 0 < r.left
  validations : ∀ v ∈ s.validations,
    Xml.Fields.Plain v.fields ∧ Xml.Fields.localNames v.fields = v.fields

private theorem placed_of_mem_blanks {s : Sheet} {r : Range} (htop : 0 < r.top) (hleft : 0 < r.left)
    {e : CellRef × WrittenCell} (h : e ∈ blanks s r) : Placed e.1 := by
  simp only [blanks] at h
  split at h
  · cases h
  · obtain ⟨place, hplace, rfl⟩ := List.mem_map.1 h
    simp only [Range.cells, List.mem_flatMap, List.mem_map, List.mem_range'_1] at hplace
    obtain ⟨row, hrow, column, hcolumn, rfl⟩ := hplace
    exact ⟨by show 0 < row; omega, by show 0 < column; omega⟩

/-- What is written at a place comes from a cell of the sheet or from a merged region. -/
theorem mem_cellsOf {s : Sheet} {e : CellRef × WrittenCell} (h : e ∈ (cellsOf s).entries) :
    (∃ c, (e.1, c) ∈ s.cells.entries ∧ e.2 = writtenCell c) ∨
      ∃ r ∈ mergesOf s, e ∈ blanks s r := by
  obtain ⟨place, written⟩ := e
  simp only [← Table.find?_eq_some_iff, cellsOf, Table.find?_mergeWith_new,
    Table.find?_mapValues, Table.find?_ofList, Option.or_eq_some_iff] at h
  rcases h with h | ⟨-, h⟩
  · obtain ⟨c, hc, rfl⟩ := Option.map_eq_some_iff.1 h
    exact Or.inl ⟨c, (List.mem_filter.1 (Table.find?_eq_some_iff.1 hc)).1, rfl⟩
  · exact Or.inr (List.mem_flatMap.1 (List.mem_reverse.1 (Table.mem_of_lookup h)))

theorem IsOf.sound {s : Sheet} {written : WrittenSheet} (h : IsOf s written) : written.Sound where
  cells := by
    intro e he
    rw [h.cells_eq] at he
    rcases mem_cellsOf he with ⟨c, hc, -⟩ | ⟨r, hr, hblank⟩
    · exact (checkCell_eq_ok (h.cells_checked _ hc)).1
    · obtain ⟨htop, hleft⟩ := checkMerge_eq_ok (h.merges_checked r hr)
      exact placed_of_mem_blanks htop hleft hblank
  merges := fun r hr => checkMerge_eq_ok (h.merges_checked r (h.merges_eq ▸ hr))
  validations := by
    intro v hv
    rw [h.validations_eq] at hv
    obtain ⟨e, -, he⟩ := List.mem_filterMap.1 hv
    obtain ⟨own, -, hstored⟩ := Option.bind_eq_some_iff.1 he
    obtain ⟨_, _, _, _, -, hfields, -⟩ := StoredValidation.store_eq_ok (toOption_eq_some hstored)
    rw [hfields]
    exact ⟨StoredValidation.attributes_plain .., StoredValidation.localNames_attributes ..⟩

end WrittenSheet

end SheetTemplate
