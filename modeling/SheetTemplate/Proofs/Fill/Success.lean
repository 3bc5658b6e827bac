import SheetTemplate.Proofs.Fill.Plan
import SheetTemplate.Proofs.Sheet.Rows
/-!
The plan of a sheet, read off its rows and the data, and what a sheet becomes when filling
succeeds: the plan carried out from the bottom up, then the root markers.
-/
namespace SheetTemplate

def Directive.boundRow? (data : Data) (d : Directive) : Option BoundRow :=
  match data.field? d.key with
  | some (.list items) => some ⟨d, items⟩
  | _ => none

private theorem Directive.boundRow?_directive {data : Data} {d : Directive} {b : BoundRow}
    (h : d.boundRow? data = some b) : b.directive = d := by
  unfold boundRow? at h
  split at h
  · obtain rfl := Option.some.inj h
    rfl
  · cases h

def BoundRow.expanded (b : BoundRow) : Expanded :=
  ⟨b.directive.row, b.directive.key, b.items.length⟩

namespace Sheet

def directive? (s : Sheet) (row : Nat) : Option Directive :=
  match s.binding row with
  | .bound key => some ⟨row, key⟩
  | _ => none

/-- The rows that are replaced: those with a directive under whose key the data holds a list. -/
def plan (data : Data) (s : Sheet) : Plan := fun row =>
  (s.directive? row).bind (Directive.boundRow? data)

def boundRows (data : Data) (s : Sheet) : List BoundRow :=
  s.rowNumbers.reverse.filterMap (s.plan data)

theorem directive?_row {s : Sheet} {row : Nat} {d : Directive} (h : s.directive? row = some d) :
    d.row = row := by
  unfold directive? at h
  split at h
  · obtain rfl := Option.some.inj h
    rfl
  · cases h

variable {data : Data} {s : Sheet} {row : Nat} {b : BoundRow}

theorem plan_row (h : s.plan data row = some b) : b.directive.row = row := by
  obtain ⟨d, hd, hb⟩ := Option.bind_eq_some_iff.1 h
  rw [Directive.boundRow?_directive hb]
  exact directive?_row hd

/-- A row without cells has no element marker. -/
theorem mem_rowNumbers_of_binding (h : s.binding row ≠ .free) : row ∈ s.rowNumbers := by
  by_contra hrow
  apply h
  have hcells : s.rowCells row = [] := List.eq_nil_iff_forall_not_mem.2 fun e he =>
    hrow (mem_rowNumbers.2 ⟨e.1, e.2, mem_rowCells.1 he⟩)
  rw [binding, rowTexts, hcells]
  rfl

/-- Only rows with cells are replaced. -/
theorem mem_rowNumbers_of_plan (h : s.plan data row = some b) : row ∈ s.rowNumbers := by
  apply mem_rowNumbers_of_binding
  intro hfree
  rw [plan, directive?, hfree] at h
  cases h

theorem mem_boundRows : b ∈ s.boundRows data ↔ ∃ row, s.plan data row = some b := by
  simp only [boundRows, List.mem_filterMap, List.mem_reverse]
  exact ⟨fun ⟨row, _, h⟩ => ⟨row, h⟩, fun ⟨row, h⟩ => ⟨row, mem_rowNumbers_of_plan h, h⟩⟩

theorem forall_mem_boundRows {P : BoundRow → Prop} :
    (∀ b ∈ s.boundRows data, P b) ↔ ∀ row b, s.plan data row = some b → P b :=
  ⟨fun h row b hplan => h b (mem_boundRows.2 ⟨row, hplan⟩), fun h b hb =>
    have ⟨row, hplan⟩ := mem_boundRows.1 hb
    h row b hplan⟩

theorem boundRows_pos (h : 0 ∉ s.rowNumbers) : ∀ b ∈ s.boundRows data, 0 < b.directive.row := by
  refine forall_mem_boundRows.2 fun row b hplan => ?_
  rw [plan_row hplan]
  exact Nat.pos_of_ne_zero fun hzero => h (hzero ▸ mem_rowNumbers_of_plan hplan)

theorem boundRows_descending (data : Data) (s : Sheet) : Plan.Descending (s.boundRows data) := by
  refine (List.pairwise_reverse.2 s.rowNumbers_ascending).filterMap _ ?_
  intro row row' h b hb b' hb'
  rw [plan_row hb, plan_row hb']
  exact h

@[simp] theorem ofList_boundRows (data : Data) (s : Sheet) :
    Plan.ofList (s.boundRows data) = s.plan data := by
  funext row
  cases h : s.plan data row with
  | none =>
    refine Plan.ofList_eq_none fun b hb hrow => ?_
    obtain ⟨r, hr⟩ := mem_boundRows.1 hb
    rw [← hrow, plan_row hr, hr] at h
    cases h
  | some b =>
    have hfound : (Plan.ofList (s.boundRows data) row).isSome :=
      List.find?_isSome.2 ⟨b, mem_boundRows.2 ⟨row, h⟩, decide_eq_true (plan_row h)⟩
    obtain ⟨c, hc⟩ := Option.isSome_iff_exists.1 hfound
    obtain ⟨r, hr⟩ := mem_boundRows.1 (List.mem_of_find?_eq_some hc)
    have hrow : c.directive.row = row := by simpa using List.find?_some hc
    rw [← hrow, plan_row hr, hr] at h
    rw [hc, h]

theorem directivesOf_eq_ok {rows : List Nat} {ds : List Directive}
    (h : s.directivesOf rows = .ok ds) : ds = rows.filterMap s.directive? := by
  induction rows generalizing ds with
  | nil => cases h; rfl
  | cons row rest ih =>
    rw [directivesOf] at h
    cases hb : s.binding row with
    | mixed first second => rw [hb] at h; cases h
    | free =>
      rw [hb] at h
      rw [List.filterMap_cons_none (by simp [directive?, hb])]
      exact ih h
    | bound key =>
      rw [hb] at h
      cases hr : s.directivesOf rest with
      | error e => rw [hr] at h; cases h
      | ok tail =>
        rw [hr] at h
        cases h
        rw [List.filterMap_cons_some (b := ⟨row, key⟩) (by simp [directive?, hb]), ih hr]

theorem bindRows_cons_eq_ok_iff {name : String} {d : Directive} {ds skipped : List Directive}
    {bound : List BoundRow} : bindRows name data (d :: ds) = .ok (bound, skipped) ↔
      ∃ bound' skipped', bindRows name data ds = .ok (bound', skipped') ∧
        (data.field? d.key = none ∧ bound = bound' ∧ skipped = d :: skipped' ∨
          ∃ items, data.field? d.key = some (.list items) ∧ bound = ⟨d, items⟩ :: bound' ∧
            skipped = skipped') := by
  rw [bindRows]
  cases hfield : data.field? d.key with
  | none => cases bindRows name data ds <;> simp [Except.map, Prod.ext_iff, eq_comm]
  | some value =>
    cases value with
    | list items =>
      cases bindRows name data ds <;> simp [Except.map, Prod.ext_iff, eq_comm, and_comm]
    | _ => simp

theorem bindRows_eq_ok {name : String} {ds skipped : List Directive} {bound : List BoundRow}
    (h : bindRows name data ds = .ok (bound, skipped)) :
    bound = ds.filterMap (Directive.boundRow? data) := by
  induction ds generalizing bound skipped with
  | nil =>
    cases h
    rfl
  | cons d rest ih =>
    obtain ⟨bound', skipped', hrest, ⟨hfield, rfl, -⟩ | ⟨items, hfield, rfl, -⟩⟩ :=
      bindRows_cons_eq_ok_iff.1 h
    · rw [List.filterMap_cons_none (by simp [Directive.boundRow?, hfield]), ih hrest]
    · rw [List.filterMap_cons_some (b := ⟨d, items⟩) (by simp [Directive.boundRow?, hfield]),
        ih hrest]

/-- The summary of a sheet that can be filled, and the sheet itself: it is filled by its plan. -/
theorem expand_eq_ok_cases {summary : SheetSummary} {filled : Sheet}
    (h : s.expand data = .ok (summary, filled)) : ∃ ds skipped, s.directives = .ok ds ∧
      bindRows s.name data ds.reverse = .ok (s.boundRows data, skipped) ∧
      summary = ⟨s.name, (s.boundRows data).map BoundRow.expanded, skipped⟩ ∧
      filled = ((s.boundRows data).foldl (expandRow data s.mergeTexts) s).fillRoot data := by
  unfold expand at h
  cases hd : s.directives with
  | error e =>
    rw [hd] at h
    cases h
  | ok ds =>
    rw [hd] at h
    cases hb : bindRows s.name data ds.reverse with
    | error e => simp [hb, bind, Except.bind] at h
    | ok result =>
      obtain ⟨bound, skipped⟩ := result
      have hbound : bound = s.boundRows data := by
        rw [bindRows_eq_ok hb, directivesOf_eq_ok hd, ← List.filterMap_reverse,
          List.filterMap_filterMap]
        rfl
      simp only [hb, bind, Except.bind, pure, Except.pure] at h
      obtain ⟨rfl, rfl⟩ := Prod.mk.inj (Except.ok.inj h)
      subst hbound
      exact ⟨ds, skipped, rfl, hb, rfl, rfl⟩

/-- A sheet that can be filled is filled by its plan. -/
theorem expand_eq_ok {summary : SheetSummary} {filled : Sheet}
    (h : s.expand data = .ok (summary, filled)) :
    filled = ((s.boundRows data).foldl (expandRow data s.mergeTexts) s).fillRoot data := by
  obtain ⟨_, _, _, _, _, hfilled⟩ := expand_eq_ok_cases h
  exact hfilled

/-- What is computed of a filled sheet shows that there is one. -/
theorem exists_expand_of_map {α : Type} {P : Sheet → Prop} {f : Sheet → α} {a : α}
    (h : (s.expand data).toOption.map (fun result => f result.2) = some a)
    (hP : ∀ summary filled, s.expand data = .ok (summary, filled) → f filled = a → P filled) :
    ∃ summary filled, s.expand data = .ok (summary, filled) ∧ f filled = a ∧ P filled := by
  cases hs : s.expand data with
  | error e => rw [hs] at h; cases h
  | ok result =>
    rw [hs] at h
    have ha := Option.some.inj h
    exact ⟨result.1, result.2, rfl, ha, hP _ _ hs ha⟩

/-- Only the replacements change merged regions. -/
theorem merges_expand {summary : SheetSummary} {filled : Sheet}
    (h : s.expand data = .ok (summary, filled)) : filled.merges =
      ((s.boundRows data).foldl (expandRow data (s.merges.map Range.text)) s).merges := by
  rw [expand_eq_ok h]
  rfl

end Sheet

section sheets
variable {data : Data} {s : Sheet} {rest sheets filled : List Sheet}
  {summaries : List SheetSummary}

theorem expandSheets_cons (data : Data) (s : Sheet) (rest : List Sheet) :
    expandSheets data (s :: rest) =
    match s.expand data with
    | .error e => .error e
    | .ok (summary, filled) =>
      (expandSheets data rest).map fun r => (summary :: r.1, filled :: r.2) := by
  rw [expandSheets]
  cases s.expand data with
  | error e => rfl
  | ok result => cases expandSheets data rest <;> rfl

theorem expandSheets_cons_eq_ok_iff : expandSheets data (s :: rest) = .ok (summaries, filled) ↔
    ∃ summary t summaries' filled', s.expand data = .ok (summary, t) ∧
      expandSheets data rest = .ok (summaries', filled') ∧
      summaries = summary :: summaries' ∧ filled = t :: filled' := by
  rw [expandSheets_cons]
  cases s.expand data with
  | error e => simp
  | ok result =>
    cases expandSheets data rest with
    | error e => simp [Except.map]
    | ok results =>
      simp only [Except.map, Except.ok.injEq, Prod.mk.injEq]
      constructor
      · rintro ⟨rfl, rfl⟩
        exact ⟨_, _, _, _, rfl, rfl, rfl, rfl⟩
      · rintro ⟨_, _, _, _, rfl, rfl, rfl, rfl⟩
        exact ⟨rfl, rfl⟩

end sheets

namespace Workbook
variable {data : Data} {w : Workbook}

theorem expand_eq_ok_iff {filled : Workbook} {summary : Summary} :
    w.expand data = .ok (summary, filled) ↔
      expandSheets data w.sheets = .ok (summary.sheets, filled.sheets) := by
  rw [expand]
  cases expandSheets data w.sheets with
  | error e => simp [Except.map]
  | ok result =>
    obtain ⟨summaries, sheets⟩ := result
    obtain ⟨sheets'⟩ := filled
    obtain ⟨summaries'⟩ := summary
    simp [Except.map]

theorem expand_eq_error_iff {e : Failure} :
    w.expand data = .error e ↔ expandSheets data w.sheets = .error e := by
  rw [expand]
  cases expandSheets data w.sheets <;> simp [Except.map]

end Workbook

end SheetTemplate
