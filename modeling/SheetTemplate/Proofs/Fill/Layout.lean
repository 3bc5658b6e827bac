import SheetTemplate.Proofs.Fill.Replacement
/-!
Where the cells of a filled sheet stand and what they hold. Every row with cells is found again in
the block that the plan gives it, with its columns and presentations, and nothing else is there.
-/
namespace SheetTemplate

/-- The value of a cell in a row that is not replaced: only texts are filled. -/
def CellValue.kept (data : Data) : CellValue → CellValue
  | .text t => .text (data.fillRoot t)
  | value => value

/-- The value of a cell in the copy of row `row` for its element number `i`. Texts are filled from
the element and twice from the root, formulas move as if no row above had grown. -/
def CellValue.copied (data : Data) (key : String) (row i : Nat) (item : Data) :
    CellValue → CellValue
  | .text t => .text (data.fillRoot (data.fillRoot (Data.fillElement key item t)))
  | .formula f => .formula (Formula.moveRow row (row + i) f)
  | value => value

/-- The cells of a filled sheet in terms of those it was filled from. -/
structure RowLayout (data : Data) (s filled : Sheet) : Prop where
  /-- A row moves by one less than the elements of each replaced row above it. -/
  landing_eq : ∀ row, ((s.plan data).landing row : Int) =
    row + ∑ r ∈ Finset.range row, (s.plan data).growth r
  /-- The rows with cells are the blocks of the rows that had cells. -/
  rows : ∀ p, p ∈ filled.rowNumbers ↔ ∃ row ∈ s.rowNumbers, ∃ i < (s.plan data).height row,
    p = (s.plan data).landing row + i
  /-- No row number is taken twice. -/
  unique : ∀ row i row' i', i < (s.plan data).height row → i' < (s.plan data).height row' →
    (s.plan data).landing row + i = (s.plan data).landing row' + i' → row = row' ∧ i = i'
  kept : ∀ row, s.plan data row = none → ∀ column,
    filled.cell? ⟨(s.plan data).landing row, column⟩ =
      (s.cell? ⟨row, column⟩).map fun cell => { cell with value := cell.value.kept data }
  copied : ∀ row b, s.plan data row = some b → ∀ i item, b.items[i]? = some item → ∀ column,
    filled.cell? ⟨(s.plan data).landing row + i, column⟩ =
      (s.cell? ⟨row, column⟩).map fun cell =>
        { cell with value := cell.value.copied data b.directive.key row i item }

namespace Sheet
variable {data : Data} {s filled : Sheet} {summary : SheetSummary}

/-- Each cell of the filled sheet comes from the row whose block it stands in. -/
theorem cell?_expand (h : s.expand data = .ok (summary, filled)) {row i : Nat}
    (hi : i < (s.plan data).height row) (column : Nat) :
    filled.cell? ⟨(s.plan data).landing row + i, column⟩ =
      (s.cell? ⟨row, column⟩).map fun cell =>
        { (s.plan data).copyCell data row i cell with
          value := ((s.plan data).copyCell data row i cell).value.kept data } := by
  rw [← ofList_boundRows] at hi ⊢
  rw [expand_eq_ok h, cell?_fillRoot,
    cell?_foldl_expandRow data s.mergeTexts (boundRows_descending data s) s hi, Option.map_map]
  congr 1
  funext cell
  simp only [Function.comp_apply]
  cases hv : ((Plan.ofList (s.boundRows data)).copyCell data row i cell).value <;>
    simp only [CellValue.kept] <;> rw [← hv]

theorem cell?_expand_of_none (h : s.expand data = .ok (summary, filled)) {row : Nat}
    (hplan : s.plan data row = none) (column : Nat) :
    filled.cell? ⟨(s.plan data).landing row, column⟩ =
      (s.cell? ⟨row, column⟩).map fun cell => { cell with value := cell.value.kept data } := by
  have hheight : 0 < (s.plan data).height row := by
    simp [hplan]
  have hcell := cell?_expand h hheight column
  rw [Plan.copyCell_of_none data hplan] at hcell
  exact hcell

theorem cell?_expand_of_some (h : s.expand data = .ok (summary, filled)) {row i : Nat}
    {b : BoundRow} (hplan : s.plan data row = some b) (hi : i < b.items.length) (column : Nat) :
    filled.cell? ⟨(s.plan data).landing row + i, column⟩ =
      (s.cell? ⟨row, column⟩).map fun cell =>
        { cell with value := cell.value.copied data b.directive.key row i b.items[i] } := by
  have hcell := cell?_expand h (by rwa [Plan.height_of_some hplan]) column
  rw [hcell, Plan.copyCell_of_some data hplan (List.getElem?_eq_getElem hi)]
  congr 1
  funext cell
  obtain ⟨value, presentation⟩ := cell
  cases value <;> simp only [copyValue, CellValue.kept, CellValue.copied, plan_row hplan]

/-- Every row number lies in the block of a row. -/
theorem exists_landing (data : Data) (s : Sheet) (p : Nat) :
    ∃ row i, i < (s.plan data).height row ∧ p = (s.plan data).landing row + i := by
  obtain ⟨n, hn⟩ := Plan.exists_lt_landing (s.boundRows data) p
  simp only [ofList_boundRows] at hn
  obtain ⟨row, -, i, hi, hp⟩ := Plan.exists_of_lt_landing hn
  exact ⟨row, i, hi, hp⟩

theorem isSome_cell?_expand (h : s.expand data = .ok (summary, filled)) {row i : Nat}
    (hi : i < (s.plan data).height row) (column : Nat) :
    (filled.cell? ⟨(s.plan data).landing row + i, column⟩).isSome =
      (s.cell? ⟨row, column⟩).isSome := by
  rw [cell?_expand h hi, Option.isSome_map]

theorem mem_rowNumbers_expand (h : s.expand data = .ok (summary, filled)) (p : Nat) :
    p ∈ filled.rowNumbers ↔ ∃ row ∈ s.rowNumbers, ∃ i < (s.plan data).height row,
      p = (s.plan data).landing row + i := by
  simp only [mem_rowNumbers, ← Option.isSome_iff_exists]
  constructor
  · rintro ⟨column, hc⟩
    obtain ⟨row, i, hi, rfl⟩ := exists_landing data s p
    rw [isSome_cell?_expand h hi] at hc
    exact ⟨row, ⟨column, hc⟩, i, hi, rfl⟩
  · rintro ⟨row, ⟨column, hc⟩, i, hi, rfl⟩
    exact ⟨column, by rw [isSome_cell?_expand h hi, hc]⟩

/-- Filling lays the rows of a sheet out by its plan, whatever lists are long, empty or missing. -/
theorem expand_rowLayout (h : s.expand data = .ok (summary, filled)) :
    RowLayout data s filled where
  landing_eq := (s.plan data).landing_eq
  rows := mem_rowNumbers_expand h
  unique := fun _ _ _ _ hi hi' heq => Plan.landing_unique hi hi' heq
  kept := fun _ hrow column => cell?_expand_of_none h hrow column
  copied := fun row b hrow i item hitem column => by
    have hi : i < b.items.length := (List.getElem?_eq_some_iff.1 hitem).1
    rw [cell?_expand h (by rwa [Plan.height_of_some hrow]), Plan.copyCell_of_some data hrow hitem]
    congr 1
    funext cell
    obtain ⟨value, presentation⟩ := cell
    cases value <;> simp only [copyValue, CellValue.kept, CellValue.copied, ← plan_row hrow]

/-- A heading, a row that repeats with a formula in it, a row that vanishes, and a row below a
gap. -/
def stacked : Sheet :=
  (((((named "S").setValue ⟨1, 1⟩ (.text "{{t}}")).setValue ⟨2, 1⟩ (.text "[[a]]")).setValue
    ⟨2, 2⟩ (.formula "A2*A1")).setValue ⟨3, 2⟩ (.text "[[b]]")).setValue ⟨5, 1⟩ (.bool true)

def stackedData : Data :=
  .record [("a", .list [.bool true, .null, .text "{{t}}"]), ("b", .list []), ("t", .text "Sum")]

theorem stacked_rowLayout : ∃ summary filled,
    stacked.expand stackedData = .ok (summary, filled) ∧
      filled.cells.entries =
        [(⟨1, 1⟩, { value := .text "Sum" }), (⟨2, 1⟩, { value := .text "true" }),
          (⟨2, 2⟩, { value := .formula "A2*A1" }), (⟨3, 1⟩, { value := .text "" }),
          (⟨3, 2⟩, { value := .formula "A3*A1" }), (⟨4, 1⟩, { value := .text "Sum" }),
          (⟨4, 2⟩, { value := .formula "A4*A1" }), (⟨6, 1⟩, { value := .bool true })] ∧
      RowLayout stackedData stacked filled :=
  exists_expand_of_map (by decide +kernel) fun _ _ h _ => expand_rowLayout h

end Sheet

end SheetTemplate
