import SheetTemplate.Sheet.Basic
/-!
Opening and removing rows. Cells below move, merged regions move, grow or shrink with the cells
that they cover.
-/
namespace SheetTemplate

namespace CellRef

def opened (row : Nat) (c : CellRef) : CellRef :=
  if row ≤ c.row then ⟨c.row + 1, c.column⟩ else c

/-- The place of a cell after `row` was removed, unless the cell was in it. -/
def closed? (row : Nat) (c : CellRef) : Option CellRef :=
  if c.row = row then none
  else if row < c.row then some ⟨c.row - 1, c.column⟩
  else some c

theorem opened_mono {row : Nat} (a b a' b' : CellRef) (h : compare a b = .lt)
    (ha : some (opened row a) = some a') (hb : some (opened row b) = some b') :
    compare a' b' = .lt := by
  obtain rfl := Option.some.inj ha
  obtain rfl := Option.some.inj hb
  rw [compare_eq_lt] at h ⊢
  simp only [opened]
  split <;> split <;> grind

theorem closed?_mono {row : Nat} (a b a' b' : CellRef) (h : compare a b = .lt)
    (ha : closed? row a = some a') (hb : closed? row b = some b') :
    compare a' b' = .lt := by
  rw [compare_eq_lt] at h ⊢
  grind [closed?]

end CellRef

namespace Range

/-- The range after a row was opened at `row`: it moves if it lies below, and grows if the row is
opened inside it. -/
def opened (row : Nat) (r : Range) : Range :=
  if row ≤ r.top then r.down 1
  else if row ≤ r.bottom then
    { r with bottom := r.bottom + 1, top_le_bottom := Nat.le_succ_of_le r.top_le_bottom }
  else r

/-- The range after `row` was removed: it moves if it lies below, and shrinks if it covers the
row. A single cell or nothing is no range any more. -/
def closed? (row : Nat) (r : Range) : Option Range :=
  if r.bottom < row then some r
  else if row < r.top then r.shifted? (-1)
  else if h : r.top < r.bottom then
    let shrunk := { r with bottom := r.bottom - 1, top_le_bottom := by omega }
    if shrunk.isSingle then none else some shrunk
  else none

end Range

namespace Sheet

/-- The sheet with an empty row at `row`; that row and those below move down. -/
def insertRow (s : Sheet) (row : Nat) : Sheet :=
  { s with
    cells := s.cells.mapKeys? (fun c => some (c.opened row)) CellRef.opened_mono
    merges := s.merges.map (Range.opened row) }

def deleteRow (s : Sheet) (row : Nat) : Sheet :=
  { s with
    cells := s.cells.mapKeys? (CellRef.closed? row) CellRef.closed?_mono
    merges := s.merges.filterMap (Range.closed? row) }

end Sheet

end SheetTemplate
