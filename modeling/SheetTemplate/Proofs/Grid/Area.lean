import SheetTemplate.Grid.CellRef
import SheetTemplate.Proofs.Grid.Table
/-!
Rectangles of cells, held row by row. Where a rectangle stands is counted from 0; its cells have
places, which are counted from 1 and ascend.
-/
namespace SheetTemplate

/-- What stands in the cells of a rectangle, row by row. Its first row and its first column are
counted from 0. -/
structure Area (α : Type) where
  row : Nat
  column : Nat
  height : Nat
  width : Nat
  items : List α
  isFull : items.length = height * width

namespace Area
variable {α β : Type} {a : Area α}

def Covers (a : Area α) (place : CellRef) : Prop :=
  (a.row < place.row ∧ place.row ≤ a.row + a.height) ∧
    a.column < place.column ∧ place.column ≤ a.column + a.width

instance (place : CellRef) : Decidable (a.Covers place) :=
  inferInstanceAs (Decidable (_ ∧ _))

def at? (a : Area α) (place : CellRef) : Option α :=
  if a.Covers place then
    a.items[(place.row - 1 - a.row) * a.width + (place.column - 1 - a.column)]?
  else none

/-- What stands at a place, `blank` outside of the area. -/
def getD (a : Area α) (blank : α) (place : CellRef) : α :=
  (a.at? place).getD blank

def place (a : Area α) (i : Nat) : CellRef :=
  ⟨a.row + i / a.width + 1, a.column + i % a.width + 1⟩

def cells (a : Area α) : List (CellRef × α) :=
  a.items.zipIdx.map fun (item, i) => (a.place i, item)

/-- Only an area with some width has cells. -/
theorem width_pos {i : Nat} (h : i < a.items.length) : 0 < a.width := by
  rw [a.isFull] at h
  exact Nat.pos_of_mul_pos_left (Nat.zero_lt_of_lt h)

/-- A cell stands at its place. -/
theorem at?_place {i : Nat} (h : i < a.items.length) : a.at? (a.place i) = a.items[i]? := by
  have hwidth := width_pos h
  have hcolumn := Nat.mod_lt i hwidth
  have hrow : i / a.width < a.height := (Nat.div_lt_iff_lt_mul hwidth).2 (a.isFull ▸ h)
  have hindex : i / a.width * a.width + i % a.width = i := by
    rw [Nat.mul_comm]
    exact Nat.div_add_mod i a.width
  have hcovers : a.Covers (a.place i) := by
    simp only [Covers, place]
    generalize i / a.width = down at hrow
    omega
  rw [at?, if_pos hcovers]
  simp only [place]
  rw [Nat.add_sub_cancel, Nat.add_sub_cancel, Nat.add_sub_cancel_left, Nat.add_sub_cancel_left,
    hindex]

/-- Every place that the area covers is the place of a cell. -/
theorem exists_place_eq {place : CellRef} (h : a.Covers place) :
    a.place ((place.row - 1 - a.row) * a.width + (place.column - 1 - a.column)) = place := by
  obtain ⟨⟨htop, hbottom⟩, hleft, hright⟩ := h
  have hwidth : 0 < a.width := by omega
  have hcolumn : place.column - 1 - a.column < a.width := by omega
  rw [Area.place, Nat.add_comm (_ * _), Nat.add_mul_div_right _ _ hwidth,
    Nat.add_mul_mod_self_right, Nat.div_eq_of_lt hcolumn, Nat.mod_eq_of_lt hcolumn]
  obtain ⟨row, column⟩ := place
  simp only [CellRef.mk.injEq]
  simp only at htop hleft
  omega

/-- The cells are what stands at the places. -/
theorem mem_cells_iff {place : CellRef} {item : α} :
    (place, item) ∈ a.cells ↔ a.at? place = some item := by
  simp only [cells, List.mem_map, Prod.exists, List.mem_zipIdx_iff_getElem?, Prod.mk.injEq]
  constructor
  · rintro ⟨item', i, hitem, rfl, rfl⟩
    rw [at?_place (List.getElem?_eq_some_iff.1 hitem).1, hitem]
  · intro h
    rw [at?] at h
    split at h
    · rename_i hcovers
      exact ⟨item, _, h, exists_place_eq hcovers, rfl⟩
    · cases h

theorem place_lt {i j : Nat} (h : i < j) : compare (a.place i) (a.place j) = .lt := by
  have hle : i / a.width ≤ j / a.width := Nat.div_le_div_right (Nat.le_of_lt h)
  have hi := Nat.div_add_mod i a.width
  have hj := Nat.div_add_mod j a.width
  rw [CellRef.compare_eq_lt]
  simp only [place]
  rcases Nat.lt_or_eq_of_le hle with hlt | heq
  · left
    omega
  · right
    rw [heq] at hi ⊢
    omega

/-- The places ascend. -/
theorem cells_sorted (a : Area α) :
    a.cells.Pairwise fun d e => compare d.1 e.1 = .lt := by
  refine List.pairwise_map.2 (List.pairwise_iff_getElem.2 fun i j hi hj hij => ?_)
  rw [List.getElem_zipIdx, List.getElem_zipIdx, Nat.zero_add, Nat.zero_add]
  exact place_lt hij

def table (a : Area α) (f : α → Option β) : Table CellRef β where
  entries := a.cells.filterMap fun e => (f e.2).map (e.1, ·)
  sorted := by
    refine a.cells_sorted.filterMap _ fun d e hde d' hd e' he => ?_
    obtain ⟨_, -, rfl⟩ := Option.map_eq_some_iff.1 hd
    obtain ⟨_, -, rfl⟩ := Option.map_eq_some_iff.1 he
    exact hde

theorem lookup_cells (a : Area α) (place : CellRef) :
    Table.lookup place a.cells = a.at? place :=
  Table.lookup_eq_of_mem_iff fun _ => mem_cells_iff

@[simp] theorem find?_table (a : Area α) (f : α → Option β) (place : CellRef) :
    (a.table f).find? place = (a.at? place).bind f := by
  rw [Table.find?, table, Table.lookup_filterMap a.cells_sorted fun e => f e.2, lookup_cells]

/-! ## Areas of cells -/

def tabulate (row column height width : Nat) (f : CellRef → α) : Area α where
  row := row
  column := column
  height := height
  width := width
  items := (List.range (height * width)).map fun i =>
    f ⟨row + i / width + 1, column + i % width + 1⟩
  isFull := by rw [List.length_map, List.length_range]

theorem at?_tabulate {row column height width : Nat} {f : CellRef → α} {place : CellRef}
    (h : (tabulate row column height width f).Covers place) :
    (tabulate row column height width f).at? place = some (f place) := by
  have hplace := exists_place_eq h
  obtain ⟨⟨htop, hbottom⟩, hleft, hright⟩ := id h
  have hrow : place.row - 1 - row + 1 ≤ height := by
    simp only [tabulate] at htop hbottom
    omega
  have hindex : (place.row - 1 - row) * width + (place.column - 1 - column) < height * width := by
    refine Nat.lt_of_lt_of_le ?_ (Nat.mul_le_mul_right width hrow)
    simp only [tabulate] at hleft hright
    rw [Nat.add_mul, Nat.one_mul]
    omega
  rw [at?, if_pos h]
  simp only [tabulate, Area.place] at hplace ⊢
  rw [List.getElem?_map, List.getElem?_range hindex, Option.map_some, hplace]

/-- The smallest area that has all of some cells. The last cell with a place counts, and other
places are blank. -/
def ofCells (blank : α) (cells : List (CellRef × α)) : Area α :=
  let rows := cells.map (·.1.row)
  let columns := cells.map (·.1.column)
  let top := rows.min?.getD 1 - 1
  let left := columns.min?.getD 1 - 1
  tabulate top left (rows.max?.getD 0 - top) (columns.max?.getD 0 - left) fun place =>
    (Table.lookup place cells.reverse).getD blank

theorem getD_ofCells {blank : α} {cells : List (CellRef × α)}
    (h : ∀ c ∈ cells, 0 < c.1.row ∧ 0 < c.1.column) (place : CellRef) :
    (ofCells blank cells).getD blank place = (Table.lookup place cells.reverse).getD blank := by
  by_cases hcovers : (ofCells blank cells).Covers place
  · rw [getD, ofCells, at?_tabulate hcovers, Option.getD_some]
  · rw [getD, at?, if_neg hcovers]
    cases hlookup : Table.lookup place cells.reverse with
    | none => rfl
    | some value =>
      have hmem : (place, value) ∈ cells := List.mem_reverse.1 (Table.mem_of_lookup hlookup)
      have hrow : 0 < place.row := (h _ hmem).1
      have hcolumn : 0 < place.column := (h _ hmem).2
      have hrows : place.row ∈ cells.map (·.1.row) := List.mem_map.2 ⟨_, hmem, rfl⟩
      have hcolumns : place.column ∈ cells.map (·.1.column) := List.mem_map.2 ⟨_, hmem, rfl⟩
      have htop := List.min?_getD_le_of_mem (k := 1) hrows
      have hbottom := List.le_max?_getD_of_mem (k := 0) hrows
      have hleft := List.min?_getD_le_of_mem (k := 1) hcolumns
      have hright := List.le_max?_getD_of_mem (k := 0) hcolumns
      refine absurd ?_ hcovers
      simp only [Covers, ofCells, tabulate]
      omega

/-- What a function keeps of an area of cells, if it keeps all but the blanks. -/
theorem table_ofCells {blank : α} {cells : List (CellRef × α)} {f : α → Option β} {g : α → β}
    (h : ∀ c ∈ cells, 0 < c.1.row ∧ 0 < c.1.column) (hblank : f blank = none)
    (hcells : ∀ c ∈ cells, f c.2 = some (g c.2)) :
    (ofCells blank cells).table f = Table.ofList (cells.map fun c => (c.1, g c.2)) := by
  refine Table.ext fun place => ?_
  have hgetD : ((ofCells blank cells).at? place).bind f =
      f ((ofCells blank cells).getD blank place) := by
    rw [getD]
    cases (ofCells blank cells).at? place with
    | none => exact hblank.symm
    | some item => rfl
  rw [find?_table, hgetD, getD_ofCells h, Table.find?_ofList, ← List.map_reverse, Table.lookup_map]
  cases hlookup : Table.lookup place cells.reverse with
  | none => exact hblank
  | some item => exact hcells _ (List.mem_reverse.1 (Table.mem_of_lookup hlookup))

end Area

end SheetTemplate
