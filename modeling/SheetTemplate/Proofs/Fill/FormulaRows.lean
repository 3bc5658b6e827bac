import SheetTemplate.Proofs.Fill.Layout
import SheetTemplate.Proofs.Formula.Live
/-!
Formulas of replaced rows. A copy's formula moves by the place of the copy in its own block only,
so it refers to the row that the copy stands in only if the rows above have not grown or shrunk
on balance.
-/
namespace SheetTemplate

/-- Each copy of a formula refers to the row that the copy stands in wherever the formula refers to
its own row. -/
def FormulasFollow (data : Data) (s filled : Sheet) : Prop :=
  ∀ row b, s.plan data row = some b → ∀ column cell f, s.cell? ⟨row, column⟩ = some cell →
    cell.value = .formula f → ∀ i < b.items.length, ∀ p : Nat,
      (p : Int) = row + i + ∑ r ∈ Finset.range row, (s.plan data).growth r →
        ∃ copy, filled.cell? ⟨p, column⟩ = some copy ∧
          copy.value = .formula (Formula.moveRow row p f)

namespace Sheet
variable {data : Data} {s filled : Sheet} {summary : SheetSummary}

private theorem formula_copy (h : s.expand data = .ok (summary, filled)) {row column i : Nat}
    {b : BoundRow} {cell : Cell} {f : String} (hplan : s.plan data row = some b)
    (hi : i < b.items.length) (hcell : s.cell? ⟨row, column⟩ = some cell)
    (hf : cell.value = .formula f) :
    filled.cell? ⟨(s.plan data).landing row + i, column⟩ =
      some { cell with value := .formula (Formula.moveRow row (row + i) f) } := by
  rw [cell?_expand h (by rwa [Plan.height_of_some hplan]),
    Plan.copyCell_of_some data hplan (List.getElem?_eq_getElem hi), hcell, Option.map_some]
  simp only [copyValue, hf, CellValue.kept, plan_row hplan]

/-- A copy in row `p` refers to that row if and only if the rows above add none on balance, or the
formula does not refer to its own row at all. -/
theorem formula_copy_follows_iff (h : s.expand data = .ok (summary, filled))
    {row column i p : Nat} {b : BoundRow} {cell : Cell} {f : String}
    (hplan : s.plan data row = some b) (hi : i < b.items.length)
    (hcell : s.cell? ⟨row, column⟩ = some cell) (hf : cell.value = .formula f)
    (hp : (p : Int) = row + i + ∑ r ∈ Finset.range row, (s.plan data).growth r) :
    (∃ copy, filled.cell? ⟨p, column⟩ = some copy ∧
        copy.value = .formula (Formula.moveRow row p f)) ↔
      ∑ r ∈ Finset.range row, (s.plan data).growth r = 0 ∨ row ∉ Formula.rows f := by
  have hland := (s.plan data).landing_eq row
  obtain rfl : p = (s.plan data).landing row + i := by omega
  rw [formula_copy h hplan hi hcell hf]
  simp only [Option.some.injEq, exists_eq_left', CellValue.formula.injEq,
    Formula.moveRow_eq_moveRow_iff]
  refine or_congr_left ?_
  constructor <;> intro heq <;> omega

/-- Formulas follow their copies in a filled sheet exactly if below rows that have grown or shrunk
on balance no row that is copied has a formula which refers to its own row. -/
theorem expand_formulasFollow_iff (h : s.expand data = .ok (summary, filled)) :
    FormulasFollow data s filled ↔
      ∀ row b, s.plan data row = some b → b.items ≠ [] → ∀ column cell f,
        s.cell? ⟨row, column⟩ = some cell → cell.value = .formula f →
          ∑ r ∈ Finset.range row, (s.plan data).growth r = 0 ∨ row ∉ Formula.rows f := by
  constructor
  · intro hall row b hplan hitems column cell f hcell hf
    have hpos : 0 < b.items.length := List.length_pos_iff.2 hitems
    have hland := (s.plan data).landing_eq row
    have hp : (((s.plan data).landing row : Nat) : Int) =
        row + (0 : Nat) + ∑ r ∈ Finset.range row, (s.plan data).growth r := by omega
    exact (formula_copy_follows_iff h hplan hpos hcell hf hp).1
      (hall row b hplan column cell f hcell hf 0 hpos _ hp)
  · intro hall row b hplan column cell f hcell hf i hi p hp
    exact (formula_copy_follows_iff h hplan hi hcell hf hp).2
      (hall row b hplan (List.ne_nil_of_length_pos (Nat.zero_lt_of_lt hi)) column cell f hcell hf)

/-- Two rows that repeat; the lower one has a formula that refers to its own row. -/
def ledger : Sheet :=
  (((named "S").setValue ⟨1, 1⟩ (.text "[[a]]")).setValue ⟨2, 1⟩ (.text "[[b]]")).setValue ⟨2, 2⟩
    (.formula "A2*2")

def evenData : Data := .record [("a", .list [.null]), ("b", .list [.bool true, .null])]

def grownData : Data := .record [("a", .list [.bool true, .null]), ("b", .list [.null])]

theorem ledger_formulasFollow_iff : ∃ summary filled,
    ledger.expand evenData = .ok (summary, filled) ∧
      ["B2", "B3"].map filled.valueAt? = [some (.formula "A2*2"), some (.formula "A3*2")] ∧
      (FormulasFollow evenData ledger filled ↔
      ∀ row b, ledger.plan evenData row = some b → b.items ≠ [] → ∀ column cell f,
        ledger.cell? ⟨row, column⟩ = some cell → cell.value = .formula f →
          ∑ r ∈ Finset.range row, (ledger.plan evenData).growth r = 0 ∨
            row ∉ Formula.rows f) :=
  exists_expand_of_map (by decide +kernel) fun _ _ h _ => expand_formulasFollow_iff h

/-- The copy in row 3 still refers to row 2. -/
theorem ledger_not_formulasFollow : ∃ summary filled,
    ledger.expand grownData = .ok (summary, filled) ∧
      filled.valueAt? "B3" = some (.formula "A2*2") ∧
      ¬ FormulasFollow grownData ledger filled := by
  have hplan : (ledger.plan grownData 2).map (·.items.length) = some 1 := by decide +kernel
  have hvalue : (ledger.cell? ⟨2, 2⟩).map Cell.value = some (.formula "A2*2") := by
    decide +kernel
  have hsum : ∑ r ∈ Finset.range 2, (ledger.plan grownData).growth r = 1 := by decide +kernel
  obtain ⟨b, hb, hlength⟩ := Option.map_eq_some_iff.1 hplan
  obtain ⟨cell, hcell, hf⟩ := Option.map_eq_some_iff.1 hvalue
  refine exists_expand_of_map (by decide +kernel) fun _ _ h _ hall => ?_
  have hp : ((3 : Nat) : Int) =
      (2 : Nat) + (0 : Nat) + ∑ r ∈ Finset.range 2, (ledger.plan grownData).growth r := by
    rw [hsum]
    rfl
  have hfollows := hall 2 b hb 2 cell _ hcell hf 0 (by omega) 3 hp
  rcases (formula_copy_follows_iff h hb (by omega) hcell hf hp).1 hfollows with heq | hout
  · rw [hsum] at heq
    cases heq
  · exact hout (by decide +kernel)

end Sheet

end SheetTemplate
