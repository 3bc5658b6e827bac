import SheetTemplate.Proofs.Fill.StagedMerges
/-!
Filling in stages. A workbook filled from one part of the data and then from the rest is the
workbook filled from all of the data at once, if brackets stand in its texts only as those of whole
markers and none is shown.
-/
namespace SheetTemplate

/-- What a sheet must be like to be filled in stages, from two parts of the data. -/
structure Sheet.Stageable (first second union : Data) (s : Sheet) : Prop where
  rows_pos : 0 ∉ s.rowNumbers
  tidy : ∀ row ∈ s.rowNumbers, ∀ t ∈ s.rowTexts row, Tidy t
  /-- No row with element markers holds a formula. -/
  noFormula : ∀ row ∈ s.rowNumbers, s.rowKeys row ≠ [] →
    ∀ e ∈ s.rowCells row, e.2.value.formula? = none
  mergesInRows : s.MergesInRows
  showsUnion : s.ShowsNoBracket union
  showsFirst : s.ShowsNoBracket first
  fitsUnion : s.FitsWith union
  fitsFirst : s.FitsWith first
  fitsSecond : ∀ summary staged, s.expand first = .ok (summary, staged) → staged.FitsWith second

/-- The sheets agree in everything but the order of their merged regions. -/
structure Sheet.Agrees (s s' : Sheet) : Prop where
  name_eq : s.name = s'.name
  cells_eq : s.cells = s'.cells
  widths_eq : s.widths = s'.widths
  mem_merges_iff : ∀ m, m ∈ s.merges ↔ m ∈ s'.merges

/-- Filling the workbook from the parts one after the other succeeds and gives the sheets that
filling it from the whole gives. -/
def Workbook.FillsInStages (first second union : Data) (w : Workbook) : Prop :=
  ∀ summary filled, w.expand union = .ok (summary, filled) →
    ∃ summary₁ staged summary₂ refilled, w.expand first = .ok (summary₁, staged) ∧
      staged.expand second = .ok (summary₂, refilled) ∧
      List.Forall₂ Sheet.Agrees refilled.sheets filled.sheets

namespace Sheet
variable {first second union data : Data} {s filled staged refilled : Sheet}
  {summary summary₁ summary₂ : SheetSummary} {row i : Nat} {b : BoundRow}

/-! ### Names and widths -/

/-- The name and the widths, which filling does not change. -/
def frame (s : Sheet) : String × Table Nat Binary64 :=
  (s.name, s.widths)

private theorem frame_insertRows (s : Sheet) (row n : Nat) :
    (s.insertRows row n).frame = s.frame := by
  induction n generalizing s row with
  | zero => rfl
  | succ n ih =>
    rw [insertRows, ih]
    rfl

private theorem frame_expandRow (merges : List String) (s : Sheet) (b : BoundRow) :
    (expandRow data merges s b).frame = s.frame := by
  have hcopies (opened : Sheet) (ranges : List Range) (offsets : List Nat) :
      (offsets.foldl (fun s offset => s.mergeCopies ranges offset) opened).frame =
        opened.frame := by
    have hframe := congrArg frame (withoutMerges_foldl_mergeCopies opened ranges offsets)
    exact hframe
  rw [expandRow, hcopies]
  exact frame_insertRows (s.deleteRow _) _ _

private theorem frame_foldl_expandRow (merges : List String) (bound : List BoundRow) (s : Sheet) :
    (bound.foldl (expandRow data merges) s).frame = s.frame := by
  induction bound generalizing s with
  | nil => rfl
  | cons b rest ih => rw [List.foldl_cons, ih, frame_expandRow]

theorem frame_expand (h : s.expand data = .ok (summary, filled)) : filled.frame = s.frame := by
  rw [expand_eq_ok h]
  exact frame_foldl_expandRow s.mergeTexts (s.boundRows data) s

/-! ### Success -/

theorem field?_union (hunion : Data.IsUnion first second union) {key : String} {value : Data} :
    first.field? key = some value ∨ second.field? key = some value →
      union.field? key = some value := by
  rw [hunion.field?_eq]
  rcases hunion.disjoint key with hnone | hnone <;> simp [hnone]

/-- A sheet that is unfit for a part of the data is unfit for the whole. -/
theorem unfit_union (hunion : Data.IsUnion first second union) (h : s.Unfit first) :
    s.Unfit union := by
  rcases h with hmixes | ⟨row, key, value, hkeys, hvalue, hlist⟩
  · exact Or.inl hmixes
  · exact Or.inr ⟨row, key, value, hkeys, field?_union hunion (Or.inl hvalue), hlist⟩

/-- A sheet that is unfit for the second stage is unfit for the whole. -/
theorem unfit_of_staged (hunion : Data.IsUnion first second union)
    (htidy : ∀ row, ∀ t ∈ s.rowTexts row, Tidy t) (hshown : s.ShowsNoBracket first)
    (h : s.expand first = .ok (summary, staged)) (hunfit : staged.Unfit second) :
    s.Unfit union := by
  have hplace (p : Nat) : (∃ row, staged.rowKeys p = s.rowKeys row) ∨
      ∃ row b, s.plan first row = some b ∧ staged.rowKeys p ⊆ s.rowKeys row := by
    obtain ⟨row, i, hi, rfl⟩ := exists_landing first s p
    cases hplan : s.plan first row with
    | none =>
      obtain rfl : i = 0 := by simpa [hplan] using hi
      exact Or.inl ⟨row, rowKeys_expand_of_none h (htidy row) hshown hplan⟩
    | some b =>
      rw [Plan.height_of_some hplan] at hi
      exact Or.inr ⟨row, b, hplan, rowKeys_expand_of_some h (htidy row) hshown hplan hi⟩
  rcases hunfit with ⟨p, key, hkey, key', hkey', hne⟩ | ⟨p, key, value, hkeys, hvalue, hlist⟩
  · obtain ⟨row, hsub⟩ : ∃ row, staged.rowKeys p ⊆ s.rowKeys row := by
      rcases hplace p with ⟨row, heq⟩ | ⟨row, -, -, hsub⟩
      · exact ⟨row, heq ▸ List.Subset.refl _⟩
      · exact ⟨row, hsub⟩
    exact Or.inl ⟨row, key, hsub hkey, key', hsub hkey', hne⟩
  · rcases hplace p with ⟨row, heq⟩ | ⟨row, b, hplan, hsub⟩
    · rw [heq] at hkeys
      exact Or.inr ⟨row, key, value, hkeys, field?_union hunion (Or.inr hvalue), hlist⟩
    · obtain ⟨k, hk⟩ := List.exists_mem_of_ne_nil _ hkeys.1
      have hself := field?_second_of_plan hunion hplan
      rw [← forall_rowKeys_of_plan hplan k (hsub hk), hkeys.2 k hk, hvalue] at hself
      cases hself

end Sheet

/-! ### Values -/

namespace CellValue
variable {first second union : Data} (hunion : Data.IsUnion first second union) {value : CellValue}
  (htidy : ∀ t, value = .text t → Tidy t)
  (hroot : ∀ t, value = .text t → BringsNoBracket .root union.rootText? t)
include hunion htidy hroot

private theorem kept_kept : (value.kept first).kept second = value.kept union := by
  cases value with
  | text t => exact congrArg text (hunion.fillRoot_eq (htidy t rfl) (hroot t rfl)).symm
  | _ => rfl

variable (hformula : value.formula? = none) {key : String} {item : Data}
  (hitem : ∀ t, value = .text t → BringsNoBracket .element (Data.elementText? key item) t)
include hformula hitem

private theorem kept_copied (row i : Nat) :
    (value.copied first key row i item).kept second = value.copied union key row i item := by
  cases value with
  | text t =>
    exact congrArg text
      (hunion.fillRoot_fillElement_eq_of_first (htidy t rfl) (hroot t rfl) (hitem t rfl)).symm
  | formula f => cases hformula
  | _ => rfl

private theorem copied_kept (row row' i : Nat) :
    (value.kept first).copied second key row' i item = value.copied union key row i item := by
  cases value with
  | text t =>
    exact congrArg text
      (hunion.fillRoot_fillElement_eq_of_second (htidy t rfl) (hroot t rfl) (hitem t rfl)).symm
  | formula f => cases hformula
  | _ => rfl

end CellValue

/-! ### Sheets -/

namespace Sheet
variable {first second union data : Data} {s filled staged refilled : Sheet}
  {summary summary₁ summary₂ : SheetSummary} {row column : Nat} {b : BoundRow} {cell : Cell}

theorem rowKeys_ne_nil_of_plan (hplan : s.plan data row = some b) : s.rowKeys row ≠ [] := by
  obtain ⟨key, items, hbinding, -, -⟩ := plan_eq_some_iff.1 hplan
  exact (Binding.ofKeys_eq_bound_iff.1 hbinding).1

namespace Stageable
variable (hs : s.Stageable first second union)
include hs

theorem tidy_row (row : Nat) : ∀ t ∈ s.rowTexts row, Tidy t := by
  intro t ht
  obtain ⟨column, cell, hcell, -⟩ := mem_rowTexts.1 ht
  exact hs.tidy row (mem_rowNumbers.2 ⟨column, cell, hcell⟩) t ht

theorem formula?_eq_none (hcell : s.cell? ⟨row, column⟩ = some cell) (hkeys : s.rowKeys row ≠ []) :
    cell.value.formula? = none :=
  hs.noFormula row (mem_rowNumbers.2 ⟨column, cell, hcell⟩) hkeys _ (mem_rowCells.2 hcell)

theorem tidy_cell (hcell : s.cell? ⟨row, column⟩ = some cell) :
    ∀ t, cell.value = .text t → Tidy t :=
  fun t ht => hs.tidy_row row t (mem_rowTexts.2 ⟨column, cell, hcell, ht⟩)

theorem root_cell (hcell : s.cell? ⟨row, column⟩ = some cell)
    (hheight : 0 < (s.plan union).height row) :
    ∀ t, cell.value = .text t → BringsNoBracket .root union.rootText? t :=
  fun _ ht => hs.showsUnion.root (mem_rowTexts.2 ⟨column, cell, hcell, ht⟩) hheight

theorem element_cell (hcell : s.cell? ⟨row, column⟩ = some cell)
    (hplan : s.plan union row = some b) {item : Data} (hitem : item ∈ b.items) :
    ∀ t, cell.value = .text t →
      BringsNoBracket .element (Data.elementText? b.directive.key item) t :=
  fun _ ht => hs.showsUnion.element (mem_rowTexts.2 ⟨column, cell, hcell, ht⟩) hplan hitem

variable (hunion : Data.IsUnion first second union)
  (hwhole : s.expand union = .ok (summary, filled))
  (hfirst : s.expand first = .ok (summary₁, staged))
include hunion hwhole hfirst

/-- After two stages each place holds what it holds after one run. -/
theorem cell?_eq (hsecond : staged.expand second = .ok (summary₂, refilled)) (place : CellRef) :
    refilled.cell? place = filled.cell? place := by
  have hstages := plan_inStages hunion hfirst hs.tidy_row hs.showsFirst
  obtain ⟨p, column⟩ := place
  obtain ⟨row, i, hheight, rfl⟩ := exists_landing union s p
  have hpos := Nat.zero_lt_of_lt hheight
  have hland := hstages.landing_landing row
  -- The row is replaced in the first stage, in the second or in neither.
  cases hplan : s.plan first row with
  | some b =>
    have hplan' := hstages.whole_of_some row b hplan
    have hi : i < b.items.length := by rwa [Plan.height_of_some hplan'] at hheight
    have hcopy := hstages.landing_copy hplan (Nat.le_of_lt hi)
    have hrefilled := cell?_expand_of_none hsecond (hstages.next_of_some row b hplan i hi) column
    rw [hcopy, hland, cell?_expand_of_some hfirst hplan hi] at hrefilled
    rw [hrefilled, cell?_expand_of_some hwhole hplan' hi]
    cases hcell : s.cell? ⟨row, column⟩ with
    | none => simp only [Option.map_none]
    | some cell =>
      have hvalue := CellValue.kept_copied hunion (hs.tidy_cell hcell) (hs.root_cell hcell hpos)
        (hs.formula?_eq_none hcell (rowKeys_ne_nil_of_plan hplan))
        (hs.element_cell hcell hplan' (List.getElem_mem hi)) row i
      exact congrArg (fun value => some { cell with value }) hvalue
  | none =>
    have hnext := hstages.next_of_none row hplan
    have hstaged := cell?_expand_of_none hfirst hplan column
    cases hplan' : s.plan union row with
    | none =>
      obtain rfl : i = 0 := by simpa [hplan'] using hheight
      rw [hplan'] at hnext
      have hrefilled := cell?_expand_of_none hsecond hnext column
      rw [hland, hstaged] at hrefilled
      rw [Nat.add_zero, hrefilled, cell?_expand_of_none hwhole hplan']
      cases hcell : s.cell? ⟨row, column⟩ with
      | none => simp only [Option.map_none]
      | some cell =>
        have hvalue := CellValue.kept_kept hunion (hs.tidy_cell hcell) (hs.root_cell hcell hpos)
        exact congrArg (fun value => some { cell with value }) hvalue
    | some b =>
      have hi : i < b.items.length := by rwa [Plan.height_of_some hplan'] at hheight
      rw [hplan'] at hnext
      have hrefilled := cell?_expand_of_some hsecond hnext hi column
      rw [hland, hstaged] at hrefilled
      rw [hrefilled, cell?_expand_of_some hwhole hplan' hi]
      cases hcell : s.cell? ⟨row, column⟩ with
      | none => simp only [Option.map_none]
      | some cell =>
        have hvalue := CellValue.copied_kept hunion (hs.tidy_cell hcell) (hs.root_cell hcell hpos)
          (hs.formula?_eq_none hcell (rowKeys_ne_nil_of_plan hplan'))
          (hs.element_cell hcell hplan' (List.getElem_mem hi)) row ((s.plan first).landing row) i
        exact congrArg (fun value => some { cell with value }) hvalue

omit hfirst

/-- A sheet that is filled in stages is filled as in one run. -/
theorem expand_stages : ∃ summary₁ staged summary₂ refilled,
    s.expand first = .ok (summary₁, staged) ∧ staged.expand second = .ok (summary₂, refilled) ∧
      refilled.Agrees filled := by
  have hfit := not_unfit_of_expand hwhole
  obtain ⟨summary₁, staged, hfirst⟩ :=
    exists_expand_eq_ok_of_not_unfit fun h => hfit (unfit_union hunion h)
  obtain ⟨summary₂, refilled, hsecond⟩ := exists_expand_eq_ok_of_not_unfit fun h =>
    hfit (unfit_of_staged hunion hs.tidy_row hs.showsFirst hfirst h)
  refine ⟨summary₁, staged, summary₂, refilled, hfirst, hsecond, ?_⟩
  have hframe : refilled.frame = filled.frame := by
    rw [frame_expand hsecond, frame_expand hfirst, frame_expand hwhole]
  constructor
  case name_eq => exact congrArg Prod.fst hframe
  case widths_eq => exact congrArg Prod.snd hframe
  case cells_eq => exact Table.ext (hs.cell?_eq hunion hwhole hfirst hsecond)
  case mem_merges_iff =>
    intro m
    exact mem_merges_stages_iff (plan_inStages hunion hfirst hs.tidy_row hs.showsFirst) hwhole
      hfirst hsecond hs.rows_pos hs.mergesInRows hs.fitsUnion hs.fitsFirst
      (hs.fitsSecond summary₁ staged hfirst)

end Stageable

end Sheet

/-! ### Workbooks -/

section workbook
variable {first second union data : Data} {s : Sheet} {rest sheets filled : List Sheet}
  {summaries : List SheetSummary}

private theorem expandSheets_stages (hunion : Data.IsUnion first second union)
    (hsheets : ∀ s ∈ sheets, s.Stageable first second union)
    (h : expandSheets union sheets = .ok (summaries, filled)) :
    ∃ summaries₁ staged summaries₂ refilled,
      expandSheets first sheets = .ok (summaries₁, staged) ∧
        expandSheets second staged = .ok (summaries₂, refilled) ∧
        List.Forall₂ Sheet.Agrees refilled filled := by
  induction sheets generalizing summaries filled with
  | nil =>
    cases h
    exact ⟨[], [], [], [], rfl, rfl, .nil⟩
  | cons s rest ih =>
    obtain ⟨hs, hrest⟩ := List.forall_mem_cons.1 hsheets
    obtain ⟨summary, t, summaries', filled', hself, hothers, rfl, rfl⟩ :=
      expandSheets_cons_eq_ok_iff.1 h
    obtain ⟨summary₁, staged, summary₂, refilled, hfirst, hsecond, hagrees⟩ :=
      hs.expand_stages hunion hself
    obtain ⟨summaries₁, staged', summaries₂, refilled', hfirst', hsecond', hagrees'⟩ :=
      ih hrest hothers
    refine ⟨summary₁ :: summaries₁, staged :: staged', summary₂ :: summaries₂,
      refilled :: refilled', ?_, ?_, .cons hagrees hagrees'⟩
    · exact expandSheets_cons_eq_ok_iff.2 ⟨_, _, _, _, hfirst, hfirst', rfl, rfl⟩
    · exact expandSheets_cons_eq_ok_iff.2 ⟨_, _, _, _, hsecond, hsecond', rfl, rfl⟩

end workbook

namespace Workbook
variable {first second union data : Data} {w filled : Workbook} {summary : Summary}

/-- A workbook can be filled in stages. -/
theorem expand_fillsInStages (hunion : Data.IsUnion first second union)
    (hw : ∀ s ∈ w.sheets, s.Stageable first second union) :
    w.FillsInStages first second union := by
  intro summary filled h
  obtain ⟨summaries₁, staged, summaries₂, refilled, hfirst, hsecond, hagrees⟩ :=
    expandSheets_stages hunion hw (expand_eq_ok_iff.1 h)
  exact ⟨⟨summaries₁⟩, ⟨staged⟩, ⟨summaries₂⟩, ⟨refilled⟩, expand_eq_ok_iff.2 hfirst,
    expand_eq_ok_iff.2 hsecond, hagrees⟩

/-- A row for each part of the data to repeat, with a region in it, and below them a formula. -/
def timetable : Sheet :=
  (((((((Sheet.named "S").setValue ⟨1, 1⟩ (.text "[[a]] {{b}}")).setValue ⟨1, 2⟩
    (.text "{{d}}")).setValue ⟨2, 1⟩ (.text "[[c.x]]{{b}}{{d}}")).setValue ⟨3, 1⟩
    (.formula "A1")).setValue ⟨3, 2⟩ (.text "{{b}}, {{d}}")).mergeText "A1:B1").mergeText "B2:C2"

def firstFields : List (String × Data) :=
  [("a", .list [.bool true, .null]), ("b", .text "x")]

def secondFields : List (String × Data) :=
  [("c", .list [.record [("x", .text "y")], .record [], .null]), ("d", .text "z")]

theorem timetable_fillsInStages :
    (expand (.record (firstFields ++ secondFields)) ⟨[timetable]⟩).isOk = true ∧
      FillsInStages (.record firstFields) (.record secondFields)
        (.record (firstFields ++ secondFields)) ⟨[timetable]⟩ := by
  refine ⟨by decide +kernel, expand_fillsInStages (Data.isUnion_append (by decide +kernel)) ?_⟩
  rw [List.forall_mem_singleton]
  have hsecond : (timetable.expand (.record firstFields)).toOption.all
      (fun result => result.2.FitsWith (.record secondFields)) = true := by decide +kernel
  refine ⟨by decide +kernel, by decide +kernel, by decide +kernel, by decide +kernel,
    by decide +kernel, by decide +kernel, by decide +kernel, by decide +kernel, ?_⟩
  intro summary staged h
  rw [h] at hsecond
  exact of_decide_eq_true hsecond

end Workbook

end SheetTemplate
