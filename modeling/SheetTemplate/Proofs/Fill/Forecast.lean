import SheetTemplate.Inspection
import SheetTemplate.Proofs.Fill.Faults
import SheetTemplate.Proofs.Fill.Layout
/-!
What the survey of a template says before any data is there, and what filling the template does
then. The survey reports a failure exactly for the workbooks that no data can fill, and its
directives are those that a summary accounts for, each as replaced or as kept.
-/
namespace SheetTemplate

def Expanded.directive (e : Expanded) : Directive := ⟨e.row, e.key⟩

def Sheet.rowCount (s : Sheet) : Nat := s.rowNumbers.length

/-- A summary of filling a sheet as its survey foretells it. -/
structure SheetForecast (data : Data) (s : Sheet) (survey : SheetSurvey) (summary : SheetSummary)
    (filled : Sheet) : Prop where
  sheet : summary.sheet = survey.sheet
  expanded_descending : summary.expanded.Pairwise fun a b => b.row < a.row
  skipped_descending : summary.skipped.Pairwise fun a b => b.row < a.row
  once : survey.directives.Nodup
  /-- The two lists hold the directives of the survey and nothing else. -/
  directives : (summary.expanded.map Expanded.directive ++ summary.skipped).Perm survey.directives
  expanded : ∀ e ∈ summary.expanded, ∃ items, data.field? e.key = some (.list items) ∧
    e.rowsWritten = items.length
  skipped : ∀ d ∈ summary.skipped, data.field? d.key = none
  rowCount : filled.rowCount + summary.expanded.length = s.rowCount + summary.rowsWritten

/-- The survey of a workbook foretells how it is filled. -/
structure Forecast (w : Workbook) : Prop where
  /-- Failures are reported exactly if filling fails for all data. -/
  hasFailures_iff : w.survey.hasFailures = true ↔ ∀ data, ∃ e, w.expand data = .error e
  /-- Otherwise no data makes keys mix. -/
  agree : w.survey.hasFailures = false → ∀ data sheet row first second,
    w.expand data ≠ .error (.mixedKeys sheet row first second)
  sheets : ∀ data summary filled, w.expand data = .ok (summary, filled) →
    w.survey.sheets.length = w.sheets.length ∧ summary.sheets.length = w.sheets.length ∧
      filled.sheets.length = w.sheets.length ∧
      ∀ (i : Nat) s survey report t, w.sheets[i]? = some s → w.survey.sheets[i]? = some survey →
        summary.sheets[i]? = some report → filled.sheets[i]? = some t →
          SheetForecast data s survey report t
  rowCount : ∀ data summary filled, w.expand data = .ok (summary, filled) →
    total (filled.sheets.map Sheet.rowCount) + summary.rowsExpanded =
      total (w.sheets.map Sheet.rowCount) + summary.rowsWritten

namespace Sheet
variable {data : Data} {s filled : Sheet} {summary : SheetSummary}

/-! ### Directives -/

/-- A sheet without directives cannot be filled with any data. -/
theorem expand_of_directives_eq_error {e : Failure} (h : s.directives = .error e) (data : Data) :
    s.expand data = .error e := by
  rw [expand, h]
  rfl

theorem exists_directives_eq_error_iff :
    (∃ e, s.directives = .error e) ↔ ∃ row first second, s.Mixes row first second := by
  constructor
  · rintro ⟨e, he⟩
    obtain ⟨row, -, hrow⟩ := List.exists_of_findSome?_eq_some (directivesOf_eq_error_iff.1 he)
    obtain ⟨first, second, hmixes, -⟩ := mixedFault?_eq_some_iff.1 hrow
    exact ⟨row, first, second, hmixes⟩
  · rintro ⟨row, first, second, hmixes⟩
    cases hfound : s.rowNumbers.findSome? s.mixedFault? with
    | some e => exact ⟨e, directivesOf_eq_error_iff.2 hfound⟩
    | none => exact absurd hmixes (findSome?_mixedFault?_eq_none_iff.1 hfound row first second)

/-- Without data there is nothing that is no list, so only mixed keys make a sheet unfit. -/
theorem unfit_empty_iff : s.Unfit (.record []) ↔ ∃ e, s.directives = .error e := by
  rw [exists_directives_eq_error_iff, Unfit]
  constructor
  · rintro (⟨row, hkeys⟩ | ⟨row, key, value, -, hvalue, -⟩)
    · exact ⟨row, exists_mixes_iff.2 hkeys⟩
    · cases hvalue
  · rintro ⟨row, hmixes⟩
    exact Or.inl ⟨row, exists_mixes_iff.1 hmixes⟩

private theorem survey_failure_isSome_iff :
    s.survey.failure.isSome = true ↔ ∃ e, s.directives = .error e := by
  unfold survey
  cases s.directives <;> simp

private theorem survey_of_ok {ds : List Directive} (h : s.directives = .ok ds) :
    s.survey.sheet = s.name ∧ s.survey.directives = ds := by
  rw [survey, h]
  exact ⟨rfl, rfl⟩

/-! ### Summaries -/

/-- Each directive is bound to its list or skipped. -/
theorem bindRows_perm {name : String} {ds skipped : List Directive} {bound : List BoundRow}
    (h : bindRows name data ds = .ok (bound, skipped)) :
    (bound.map BoundRow.directive ++ skipped).Perm ds := by
  induction ds generalizing bound skipped with
  | nil =>
    cases h
    exact .nil
  | cons d rest ih =>
    obtain ⟨bound', skipped', hrest, ⟨-, rfl, rfl⟩ | ⟨items, -, rfl, rfl⟩⟩ :=
      bindRows_cons_eq_ok_iff.1 h
    · exact List.perm_middle.trans ((ih hrest).cons d)
    · exact (ih hrest).cons d

private theorem bindRows_skipped {name : String} {ds skipped : List Directive}
    {bound : List BoundRow}
    (h : bindRows name data ds = .ok (bound, skipped)) :
    skipped = ds.filter fun d => (data.field? d.key).isNone := by
  induction ds generalizing bound skipped with
  | nil =>
    cases h
    rfl
  | cons d rest ih =>
    obtain ⟨bound', skipped', hrest, ⟨hfield, -, rfl⟩ | ⟨items, hfield, -, rfl⟩⟩ :=
      bindRows_cons_eq_ok_iff.1 h
    · rw [List.filter_cons_of_pos (by simp [hfield]), ih hrest]
    · rw [List.filter_cons_of_neg (by simp [hfield]), ih hrest]

private theorem field?_of_mem_boundRows {b : BoundRow} (h : b ∈ s.boundRows data) :
    data.field? b.directive.key = some (.list b.items) := by
  obtain ⟨row, hplan⟩ := mem_boundRows.1 h
  obtain ⟨d, -, hb⟩ := Option.bind_eq_some_iff.1 hplan
  unfold Directive.boundRow? at hb
  split at hb
  · rename_i items hfield
    cases hb
    exact hfield
  · cases hb

theorem directives_ascending {ds : List Directive} (h : s.directives = .ok ds) :
    ds.Pairwise fun a b => a.row < b.row := by
  rw [directivesOf_eq_ok h]
  refine s.rowNumbers_ascending.filterMap _ ?_
  intro row row' hlt d hd d' hd'
  rw [directive?_row hd, directive?_row hd']
  exact hlt

/-! ### Rows -/

def blocks (data : Data) (s : Sheet) (rows : List Nat) : List Nat :=
  rows.flatMap fun row =>
    (List.range ((s.plan data).height row)).map fun i => (s.plan data).landing row + i

private theorem nodup_blocks {rows : List Nat} (h : rows.Nodup) : (s.blocks data rows).Nodup := by
  refine List.nodup_flatMap.2 ⟨fun row _ => ?_, h.imp ?_⟩
  · exact List.nodup_range.map fun i i' heq => Nat.add_left_cancel heq
  · intro row row' hne p hp hp'
    obtain ⟨i, hi, rfl⟩ := List.mem_map.1 hp
    obtain ⟨i', hi', heq⟩ := List.mem_map.1 hp'
    exact hne (Plan.landing_unique (List.mem_range.1 hi) (List.mem_range.1 hi') heq.symm).1

/-- Each bound row counts for the rows that it becomes, any other row for itself. -/
theorem length_blocks_add (data : Data) (s : Sheet) (rows : List Nat) :
    (s.blocks data rows).length + (rows.filterMap (s.plan data)).length =
      rows.length + total ((rows.filterMap (s.plan data)).map fun b => b.items.length) := by
  induction rows with
  | nil => rfl
  | cons row rest ih =>
    simp only [blocks] at ih
    simp only [blocks, List.flatMap_cons, List.length_append, List.length_map, List.length_range,
      List.length_cons]
    cases hplan : s.plan data row with
    | none =>
      rw [List.filterMap_cons_none hplan, Plan.height_of_none hplan]
      omega
    | some b =>
      rw [List.filterMap_cons_some hplan, Plan.height_of_some hplan, List.map_cons, total,
        List.length_cons]
      omega

theorem rowCount_expand (h : s.expand data = .ok (summary, filled)) :
    filled.rowCount + summary.expanded.length = s.rowCount + summary.rowsWritten := by
  obtain ⟨_, _, -, -, rfl, -⟩ := expand_eq_ok_cases h
  have hnodup {t : Sheet} : t.rowNumbers.Nodup :=
    t.rowNumbers_ascending.imp fun hlt => Nat.ne_of_lt hlt
  have hperm : filled.rowNumbers.Perm (s.blocks data s.rowNumbers.reverse) := by
    refine (List.perm_ext_iff_of_nodup hnodup
      (nodup_blocks (List.nodup_reverse.2 hnodup))).2 fun p => ?_
    rw [mem_rowNumbers_expand h]
    simp only [blocks, List.mem_flatMap, List.mem_reverse, List.mem_map, List.mem_range, eq_comm]
  have hcount := length_blocks_add data s s.rowNumbers.reverse
  rw [List.length_reverse] at hcount
  simp only [rowCount, hperm.length_eq, SheetSummary.rowsWritten, List.length_map, List.map_map]
  exact hcount

/-! ### Forecasts -/

theorem expand_forecast (h : s.expand data = .ok (summary, filled)) :
    SheetForecast data s s.survey summary filled := by
  have hrows := rowCount_expand h
  obtain ⟨ds, skipped, hds, hbind, rfl, -⟩ := expand_eq_ok_cases h
  obtain rfl := bindRows_skipped hbind
  obtain ⟨hname, hdirectives⟩ := survey_of_ok hds
  have hascending := directives_ascending hds
  have hmap : ((s.boundRows data).map BoundRow.expanded).map Expanded.directive =
      (s.boundRows data).map BoundRow.directive := List.map_map
  constructor
  case sheet => exact hname.symm
  case expanded_descending => exact List.pairwise_map.2 (boundRows_descending data s)
  case skipped_descending => exact (List.pairwise_reverse.2 hascending).filter _
  case once =>
    rw [hdirectives]
    exact hascending.imp fun hlt heq => Nat.ne_of_lt hlt (congrArg Directive.row heq)
  case directives =>
    rw [hdirectives, hmap]
    exact (bindRows_perm hbind).trans ds.reverse_perm
  case expanded =>
    intro e he
    obtain ⟨b, hb, rfl⟩ := List.mem_map.1 he
    exact ⟨b.items, field?_of_mem_boundRows hb, rfl⟩
  case skipped =>
    intro d hd
    exact Option.isNone_iff_eq_none.1 (List.mem_filter.1 hd).2
  case rowCount => exact hrows

end Sheet

section workbook
variable {data : Data} {sheets filled : List Sheet} {summaries : List SheetSummary}

private theorem expandSheets_getElem? (h : expandSheets data sheets = .ok (summaries, filled)) :
    summaries.length = sheets.length ∧ filled.length = sheets.length ∧
      ∀ (i : Nat) s summary t, sheets[i]? = some s → summaries[i]? = some summary →
        filled[i]? = some t → s.expand data = .ok (summary, t) := by
  induction sheets generalizing summaries filled with
  | nil =>
    cases h
    exact ⟨rfl, rfl, fun i s _ _ hs => by simp at hs⟩
  | cons s rest ih =>
    obtain ⟨summary, t, summaries', filled', hself, hrest, rfl, rfl⟩ :=
      expandSheets_cons_eq_ok_iff.1 h
    obtain ⟨hsummaries, hfilled, hget⟩ := ih hrest
    refine ⟨by simp [hsummaries], by simp [hfilled], fun i s' summary' t' hs hsummary ht => ?_⟩
    cases i with
    | zero =>
      cases hs
      cases hsummary
      cases ht
      exact hself
    | succ i => exact hget i s' summary' t' hs hsummary ht

private theorem total_rowCount_expandSheets
    (h : expandSheets data sheets = .ok (summaries, filled)) :
    total (filled.map Sheet.rowCount) + total (summaries.map fun r => r.expanded.length) =
      total (sheets.map Sheet.rowCount) + total (summaries.map SheetSummary.rowsWritten) := by
  induction sheets generalizing summaries filled with
  | nil =>
    cases h
    rfl
  | cons s rest ih =>
    obtain ⟨summary, t, summaries', filled', hself, hrest, rfl, rfl⟩ :=
      expandSheets_cons_eq_ok_iff.1 h
    have hrows := Sheet.rowCount_expand hself
    have htail := ih hrest
    simp only [List.map_cons, total]
    omega

end workbook

namespace Workbook

theorem hasFailures_iff_exists {w : Workbook} :
    w.survey.hasFailures = true ↔ ∃ s ∈ w.sheets, ∃ e, s.directives = .error e := by
  simp only [survey, Survey.hasFailures, List.any_map, List.any_eq_true, Function.comp_apply,
    Sheet.survey_failure_isSome_iff]

/-- A template's survey foretells what any data makes of it. -/
theorem survey_forecast (w : Workbook) : Forecast w := by
  constructor
  case hasFailures_iff =>
    rw [hasFailures_iff_exists]
    simp only [expand_eq_error_iff, exists_expandSheets_eq_error_iff]
    constructor
    · rintro ⟨s, hs, e, he⟩ data
      exact ⟨s, hs, Sheet.exists_expand_eq_error_iff.1
        ⟨e, Sheet.expand_of_directives_eq_error he data⟩⟩
    · intro hall
      obtain ⟨s, hs, hunfit⟩ := hall (.record [])
      exact ⟨s, hs, Sheet.unfit_empty_iff.1 hunfit⟩
  case agree =>
    intro hnone data sheet row first second hfail
    obtain ⟨before, s, after, hsheets, hfault, -⟩ :=
      expandSheets_eq_error_iff.1 (expand_eq_error_iff.1 hfail)
    cases hfault with
    | mixedKeys hmixes above =>
      have hfailures : w.survey.hasFailures = true := hasFailures_iff_exists.2
        ⟨s, by simp [hsheets], Sheet.exists_directives_eq_error_iff.2 ⟨_, _, _, hmixes⟩⟩
      rw [hnone] at hfailures
      cases hfailures
  case sheets =>
    intro data summary filled h
    obtain ⟨hsummaries, hfilled, hget⟩ := expandSheets_getElem? (expand_eq_ok_iff.1 h)
    refine ⟨by simp [survey], hsummaries, hfilled, fun i s survey report t hs hsurvey hr ht => ?_⟩
    rw [Workbook.survey, List.getElem?_map, hs] at hsurvey
    cases hsurvey
    exact Sheet.expand_forecast (hget i s report t hs hr ht)
  case rowCount =>
    intro data summary filled h
    exact total_rowCount_expandSheets (expand_eq_ok_iff.1 h)

end Workbook

end SheetTemplate
