import SheetTemplate.Proofs.Fill.Success
/-!
The cells of a sheet while its rows are replaced. One replacement puts the copies of a row in its
place and moves the rows below; a run of replacements from the bottom up puts the copies of every
row into the block that the plan gives it.
-/
namespace SheetTemplate

/-- The cell that a cell becomes in one of the rows that its row becomes. -/
def Plan.copyCell (plan : Plan) (data : Data) (row i : Nat) (cell : Cell) : Cell :=
  match plan row with
  | none => cell
  | some b =>
    match b.items[i]? with
    | none => cell
    | some item =>
      { cell with value := Sheet.copyValue data b.directive (row + i) item cell.value }

namespace Plan
variable {plan : Plan} {row : Nat} (data : Data)

theorem copyCell_of_none (h : plan row = none) (i : Nat) : plan.copyCell data row i = id := by
  funext cell
  simp [copyCell, h]

theorem copyCell_of_some {b : BoundRow} {i : Nat} {item : Data} (h : plan row = some b)
    (hi : b.items[i]? = some item) :
    plan.copyCell data row i = fun cell =>
      { cell with value := Sheet.copyValue data b.directive (row + i) item cell.value } := by
  funext cell
  simp [copyCell, h, hi]

theorem copyCell_congr {other : Plan} (h : plan row = other row) (i : Nat) :
    plan.copyCell data row i = other.copyCell data row i := by
  funext cell
  simp only [copyCell, h]

end Plan

namespace Sheet
variable (data : Data) (merges : List String)

@[simp] theorem cell?_insertRows (s : Sheet) (row n p column : Nat) :
    (s.insertRows row n).cell? ⟨p, column⟩ =
      if p < row then s.cell? ⟨p, column⟩
      else if p < row + n then none else s.cell? ⟨p - n, column⟩ := by
  induction n generalizing s row with
  | zero => by_cases h : p < row <;> simp [insertRows, h]
  | succ n ih =>
    rw [insertRows, ih, cell?_insertRow, cell?_insertRow]
    by_cases h : p < row
    · rw [if_pos (by omega), if_pos h, if_pos h]
    · rw [if_neg h, if_neg h]
      by_cases hrow : p = row
      · rw [if_pos (by omega), if_pos hrow, if_pos (by omega)]
      · rw [if_neg (by omega : ¬ p < row + 1)]
        by_cases hn : p < row + 1 + n
        · rw [if_pos hn, if_pos (by omega)]
        · rw [if_neg hn, if_neg (by omega), if_neg (by omega), if_neg (by omega),
            Nat.sub_sub]

def withoutMerges (s : Sheet) : Sheet :=
  { s with merges := [] }

@[simp] theorem withoutMerges_mergeText (s : Sheet) (text : String) :
    (s.mergeText text).withoutMerges = s.withoutMerges := by
  unfold mergeText
  split <;> rfl

@[simp] theorem withoutMerges_mergeCopies (s : Sheet) (ranges : List Range) (offset : Nat) :
    (s.mergeCopies ranges offset).withoutMerges = s.withoutMerges := by
  unfold mergeCopies
  induction ranges.filterMap (·.shifted? offset) generalizing s with
  | nil => rfl
  | cons range rest ih => simp [ih]

@[simp] theorem withoutMerges_foldl_mergeCopies (s : Sheet) (ranges : List Range)
    (offsets : List Nat) :
    (offsets.foldl (fun s offset => s.mergeCopies ranges offset) s).withoutMerges =
      s.withoutMerges := by
  induction offsets generalizing s with
  | nil => rfl
  | cons offset rest ih => simp [ih]

@[simp] theorem cells_foldl_mergeCopies (s : Sheet) (ranges : List Range) (offsets : List Nat) :
    (offsets.foldl (fun s offset => s.mergeCopies ranges offset) s).cells = s.cells := by
  have hcells := congrArg cells (withoutMerges_foldl_mergeCopies s ranges offsets)
  exact hcells

private theorem lookup_row (template : List (Nat × Cell)) (row p column : Nat)
    (f : Cell → Cell) :
    Table.lookup (⟨p, column⟩ : CellRef) (template.map fun e => (⟨row, e.1⟩, f e.2)) =
      if row = p then (Table.lookup column template).map f else none := by
  induction template with
  | nil => simp [Table.lookup]
  | cons e rest ih =>
    obtain ⟨c, cell⟩ := e
    rw [List.map_cons, Table.lookup_cons, Table.lookup_cons, ih]
    simp only [CellRef.mk.injEq]
    by_cases hrow : row = p <;> by_cases hc : c = column <;> simp [hrow, hc]

/-- The copies of a row hold, in each of their rows, the row filled from that row's element. -/
theorem lookup_copies (d : Directive) (template : List (Nat × Cell)) (row : Nat)
    (items : List Data) (p column : Nat) :
    Table.lookup ⟨p, column⟩ (copies data d template row items).reverse =
      if p < row then none
      else (items[p - row]?).bind fun item =>
        (Table.lookup column template.reverse).map fun cell =>
          { cell with value := copyValue data d p item cell.value } := by
  induction items generalizing row with
  | nil => simp [copies, Table.lookup]
  | cons item rest ih =>
    rw [copies, List.reverse_append, Table.lookup_append, ih, ← List.map_reverse,
      lookup_row template.reverse row p column fun cell =>
        { cell with value := copyValue data d row item cell.value }]
    rcases Nat.lt_trichotomy p row with h | rfl | h
    · rw [if_pos (by omega), if_neg (by omega), if_pos h]
      rfl
    · simp
    · rw [if_neg (by omega), if_neg (by omega), if_neg (by omega),
        show p - row = p - (row + 1) + 1 by omega, List.getElem?_cons_succ, Option.or_none]

/-- One replacement: rows above stay, the row becomes its copies, and rows below follow. -/
theorem cell?_expandRow (s : Sheet) (b : BoundRow) (p column : Nat) :
    (expandRow data merges s b).cell? ⟨p, column⟩ =
      if p < b.directive.row then s.cell? ⟨p, column⟩
      else match b.items[p - b.directive.row]? with
        | some item => (s.cell? ⟨b.directive.row, column⟩).map fun cell =>
          { cell with value := copyValue data b.directive p item cell.value }
        | none => s.cell? ⟨p + 1 - b.items.length, column⟩ := by
  rw [cell?, expandRow, cells_foldl_mergeCopies, Table.find?_mergeWith_new, Table.find?_ofList,
    lookup_copies, Table.lookup_reverse (s.rowCells_ascending _), lookup_rowCells]
  change Option.or _ (((s.deleteRow _).insertRows _ _).cell? ⟨p, column⟩) = _
  rw [cell?_insertRows, cell?_deleteRow, cell?_deleteRow]
  by_cases h : p < b.directive.row
  · simp [h]
  · rw [if_neg h, if_neg h, if_neg h]
    by_cases hp : p < b.directive.row + b.items.length
    · have hi : p - b.directive.row < b.items.length := by omega
      rw [if_pos hp, Option.or_none, List.getElem?_eq_getElem hi, Option.bind_some]
    · have hi : b.items.length ≤ p - b.directive.row := by omega
      rw [if_neg hp, List.getElem?_eq_none hi, if_neg (by omega),
        show p - b.items.length + 1 = p + 1 - b.items.length by omega]
      rfl

/-- A run of replacements from the bottom up: each row becomes the rows of its block. -/
theorem cell?_foldl_expandRow {bound : List BoundRow} (h : Plan.Descending bound) (s : Sheet)
    {row i : Nat} (hi : i < (Plan.ofList bound).height row) (column : Nat) :
    (bound.foldl (expandRow data merges) s).cell?
        ⟨(Plan.ofList bound).landing row + i, column⟩ =
      (s.cell? ⟨row, column⟩).map ((Plan.ofList bound).copyCell data row i) := by
  induction bound generalizing s row i with
  | nil =>
    obtain rfl : i = 0 := by simpa using hi
    simp [Plan.copyCell_of_none data (Plan.ofList_nil row)]
  | cons b rest ih =>
    have hrest := (List.pairwise_cons.1 h).2
    -- At and below the row replaced first nothing else is replaced.
    have hfree {r : Nat} (hr : b.directive.row ≤ r) : Plan.ofList rest r = none :=
      Plan.ofList_eq_none fun c hc => by
        have := (List.pairwise_cons.1 h).1 c hc
        omega
    rw [List.foldl_cons]
    rcases Nat.lt_trichotomy row b.directive.row with hrow | rfl | hrow
    · have hplan : Plan.ofList (b :: rest) row = Plan.ofList rest row := by
        rw [Plan.ofList_cons, if_neg (by omega)]
      rw [Plan.height, hplan] at hi
      rw [Plan.landing_cons_of_le (Nat.le_of_lt hrow), ih hrest _ hi, cell?_expandRow,
        if_pos hrow, Plan.copyCell_congr data hplan]
    · have hplan : Plan.ofList (b :: rest) b.directive.row = some b := by
        simp
      rw [Plan.height_of_some hplan] at hi
      have hland := Plan.landing_rest_add h (Nat.le_refl _) i
      have hone := Plan.height_of_none (hfree (Nat.le_add_right b.directive.row i))
      rw [Plan.landing_cons_of_le (Nat.le_refl _), ← hland,
        ← Nat.add_zero ((Plan.ofList rest).landing (b.directive.row + i)),
        ih hrest _ (by omega), Plan.copyCell_of_none data (hfree (Nat.le_add_right _ i)),
        Option.map_id, id, cell?_expandRow, if_neg (by omega), Nat.add_sub_cancel_left,
        Plan.copyCell_of_some data hplan (List.getElem?_eq_getElem hi),
        List.getElem?_eq_getElem hi]
    · have hplan : Plan.ofList (b :: rest) row = none := by
        rw [Plan.ofList_cons, if_neg (by omega)]
        exact hfree (Nat.le_of_lt hrow)
      obtain rfl : i = 0 := by simpa [hplan] using hi
      have hland := Plan.landing_cons h row
      rw [Plan.landing_singleton_of_lt hrow] at hland
      have hone := Plan.height_of_none (hfree (r := row - 1 + b.items.length) (by omega))
      have hout : b.items.length ≤ row - 1 + b.items.length - b.directive.row := by omega
      rw [hland, ih hrest _ (by omega), Plan.copyCell_of_none data (hfree (by omega)),
        Option.map_id, id, cell?_expandRow, if_neg (by omega), List.getElem?_eq_none hout,
        Plan.copyCell_of_none data hplan, Option.map_id, id,
        show row - 1 + b.items.length + 1 - b.items.length = row by omega]

@[simp] theorem cell?_fillRoot (s : Sheet) (place : CellRef) :
    (s.fillRoot data).cell? place = (s.cell? place).map fun cell =>
      match cell.value with
      | .text t => { cell with value := .text (data.fillRoot t) }
      | _ => cell :=
  Table.find?_mapValues _ _ _

end Sheet

end SheetTemplate
