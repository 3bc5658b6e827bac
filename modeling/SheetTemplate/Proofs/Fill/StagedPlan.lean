import SheetTemplate.Proofs.Fill.Faults
import SheetTemplate.Proofs.Fill.Layout
import SheetTemplate.Proofs.Fill.StagedTexts
/-!
The plans of a sheet that is filled in stages. What the first stage replaces is not replaced again,
and every other row is replaced where it landed as the whole data has it replaced. So each row lands
where it lands in one run.
-/
namespace SheetTemplate

def BoundRow.inRow (b : BoundRow) (row : Nat) : BoundRow :=
  ⟨⟨row, b.directive.key⟩, b.items⟩

namespace Plan

/-- One plan and then the next come to the whole: copies are not replaced again, and a row that is
not replaced at first is replaced where it landed as the whole has it. -/
structure InStages (plan next whole : Plan) : Prop where
  whole_of_some : ∀ row b, plan row = some b → whole row = some b
  next_of_some : ∀ row b, plan row = some b → ∀ i < b.items.length,
    next (plan.landing row + i) = none
  next_of_none : ∀ row, plan row = none →
    next (plan.landing row) = (whole row).map fun b => b.inRow (plan.landing row)

namespace InStages
variable {plan next whole : Plan} {row : Nat} {b : BoundRow}

theorem height_of_none (h : InStages plan next whole) (hrow : plan row = none) :
    next.height (plan.landing row) = whole.height row := by
  rw [height, height, h.next_of_none row hrow]
  cases whole row <;> rfl

/-- The copies of a row stay together. -/
theorem landing_copy (h : InStages plan next whole) (hrow : plan row = some b) {n : Nat}
    (hn : n ≤ b.items.length) :
    next.landing (plan.landing row + n) = next.landing (plan.landing row) + n := by
  apply landing_add_of_free
  intro r hr hlt
  obtain ⟨i, rfl⟩ := Nat.exists_eq_add_of_le hr
  exact h.next_of_some row b hrow i (by omega)

/-- A row lands in two steps where it lands in one. -/
theorem landing_landing (h : InStages plan next whole) (row : Nat) :
    next.landing (plan.landing row) = whole.landing row := by
  induction row with
  | zero => rfl
  | succ row ih =>
    rw [landing_succ, landing_succ whole, ← ih]
    cases hrow : plan row with
    | none => simp [hrow, h.height_of_none hrow]
    | some b =>
      rw [height_of_some hrow, h.landing_copy hrow (Nat.le_refl _),
        height_of_some (h.whole_of_some row b hrow)]

end InStages

end Plan

namespace Binding
variable {texts : List String} {g : String → String}

private theorem keysOf_map_eq
    (h : ∀ t ∈ texts, markersOf [.element] (g t) = markersOf [.element] t) :
    keysOf (texts.map g) = keysOf texts := by
  rw [keysOf, keysOf, List.flatMap_map]
  exact List.flatMap_congr fun t ht => by rw [h t ht]

private theorem keysOf_map_subset
    (h : ∀ t ∈ texts, markersOf [.element] (g t) ⊆ markersOf [.element] t) :
    keysOf (texts.map g) ⊆ keysOf texts := by
  intro key hkey
  obtain ⟨u, hu, hkey⟩ := List.mem_flatMap.1 hkey
  obtain ⟨t, ht, rfl⟩ := List.mem_map.1 hu
  obtain ⟨m, hm, rfl⟩ := List.mem_map.1 hkey
  exact List.mem_flatMap.2 ⟨t, ht, List.mem_map_of_mem (h t ht hm)⟩

end Binding

namespace Sheet
variable {first second union data : Data} {s staged : Sheet} {summary : SheetSummary}
  {row column i : Nat} {cell : Cell} {t : String} {b : BoundRow}

theorem mem_rowTexts : t ∈ s.rowTexts row ↔
    ∃ column cell, s.cell? ⟨row, column⟩ = some cell ∧ cell.value = .text t := by
  have htext (value : CellValue) : value.text? = some t ↔ value = .text t := by
    cases value <;> simp [CellValue.text?]
  simp only [rowTexts, List.mem_filterMap, Prod.exists, mem_rowCells, htext]

/-- The texts of a row whose cells are those of another row, with their values changed. -/
theorem rowTexts_eq_map {s' : Sheet} {p : Nat} {f : Cell → Cell} {g : String → String}
    (h : ∀ column, s'.cell? ⟨p, column⟩ = (s.cell? ⟨row, column⟩).map f)
    (hf : ∀ cell, (f cell).value.text? = cell.value.text?.map g) :
    s'.rowTexts p = (s.rowTexts row).map g := by
  have hcells : (⟨s'.rowCells p, s'.rowCells_ascending p⟩ : Table Nat Cell) =
      (⟨s.rowCells row, s.rowCells_ascending row⟩ : Table Nat Cell).mapValues fun _ => f := by
    apply Table.ext
    intro column
    rw [Table.find?_mapValues]
    simp [Table.find?, h]
  have hentries := congrArg Table.entries hcells
  simp only [Table.mapValues] at hentries
  rw [rowTexts, rowTexts, hentries, List.filterMap_map, List.map_filterMap]
  exact List.filterMap_congr fun e _ => hf e.2

theorem plan_eq_some_iff : s.plan data row = some b ↔ ∃ key items,
    s.binding row = .bound key ∧ data.field? key = some (.list items) ∧
      b = ⟨⟨row, key⟩, items⟩ := by
  rw [plan, directive?]
  cases hbinding : s.binding row with
  | free => simp
  | mixed k k' => simp
  | bound key =>
    simp only [Option.bind_some, Directive.boundRow?, Binding.bound.injEq]
    cases hvalue : data.field? key with
    | none => simp [hvalue]
    | some value => cases value <;> simp [hvalue, eq_comm]

/-- What the markers of a row show when the sheet is filled: the root markers, and the element
markers for each element that the row repeats over. -/
def shownInRow (data : Data) (s : Sheet) (row : Nat) : List String :=
  (s.rowTexts row).flatMap fun t =>
    (markersOf [.root] t).filterMap data.rootText? ++
      match s.plan data row with
      | none => []
      | some b => b.items.flatMap fun item =>
        (markersOf [.element] t).filterMap (Data.elementText? b.directive.key item)

/-- What is shown in the cells of a sheet when it is filled. A row that becomes no row shows
nothing. -/
def shown (data : Data) (s : Sheet) : List String :=
  s.rowNumbers.flatMap fun row =>
    if (s.plan data).height row = 0 then [] else s.shownInRow data row

def ShowsNoBracket (data : Data) (s : Sheet) : Prop :=
  ∀ text ∈ s.shown data, BracketFree text.toList

instance (data : Data) (s : Sheet) : Decidable (s.ShowsNoBracket data) :=
  inferInstanceAs (Decidable (∀ text ∈ s.shown data, BracketFree text.toList))

theorem mem_shown (ht : t ∈ s.rowTexts row) (hheight : 0 < (s.plan data).height row)
    {text : String} (htext : text ∈ s.shownInRow data row) : text ∈ s.shown data := by
  obtain ⟨column, cell, hcell, -⟩ := mem_rowTexts.1 ht
  refine List.mem_flatMap.2 ⟨row, mem_rowNumbers.2 ⟨column, cell, hcell⟩, ?_⟩
  rw [if_neg (by omega)]
  exact htext

theorem ShowsNoBracket.root (h : s.ShowsNoBracket data) (ht : t ∈ s.rowTexts row)
    (hheight : 0 < (s.plan data).height row) :
    BringsNoBracket .root data.rootText? t := by
  intro m hm text htext
  apply h text
  apply mem_shown ht hheight
  refine List.mem_flatMap.2 ⟨t, ht, List.mem_append_left _ ?_⟩
  exact List.mem_filterMap.2 ⟨m, hm, htext⟩

theorem ShowsNoBracket.element (h : s.ShowsNoBracket data) (ht : t ∈ s.rowTexts row)
    (hplan : s.plan data row = some b) {item : Data} (hitem : item ∈ b.items) :
    BringsNoBracket .element (Data.elementText? b.directive.key item) t := by
  intro m hm text htext
  have hheight : 0 < (s.plan data).height row := by
    rw [Plan.height_of_some hplan]
    exact List.length_pos_of_mem hitem
  apply h text
  apply mem_shown ht hheight
  refine List.mem_flatMap.2 ⟨t, ht, List.mem_append_right _ ?_⟩
  rw [hplan]
  exact List.mem_flatMap.2 ⟨item, hitem, List.mem_filterMap.2 ⟨m, hm, htext⟩⟩

section staged
variable (h : s.expand first = .ok (summary, staged)) (htidy : ∀ t ∈ s.rowTexts row, Tidy t)
  (hshown : s.ShowsNoBracket first)
include h htidy hshown

/-- A row that is not replaced keeps its element markers. -/
theorem rowKeys_expand_of_none (hplan : s.plan first row = none) :
    staged.rowKeys ((s.plan first).landing row) = s.rowKeys row := by
  have hheight : 0 < (s.plan first).height row := by
    simp [hplan]
  have htexts : staged.rowTexts ((s.plan first).landing row + 0) =
      (s.rowTexts row).map first.fillRoot := by
    apply rowTexts_eq_map (cell?_expand h hheight)
    intro cell
    rw [Plan.copyCell_of_none first hplan]
    cases hvalue : cell.value <;> simp [hvalue, CellValue.kept, CellValue.text?]
  rw [Nat.add_zero] at htexts
  rw [rowKeys, rowKeys, htexts]
  apply Binding.keysOf_map_eq
  intro t ht
  exact Data.markersOf_fillRoot (htidy t ht) (hshown.root ht hheight)

/-- The copies of a row have only keys of the row. -/
theorem rowKeys_expand_of_some (hplan : s.plan first row = some b) (hi : i < b.items.length) :
    staged.rowKeys ((s.plan first).landing row + i) ⊆ s.rowKeys row := by
  have hheight : i < (s.plan first).height row := by
    rwa [Plan.height_of_some hplan]
  have hitem := List.getElem?_eq_getElem hi
  have htexts : staged.rowTexts ((s.plan first).landing row + i) = (s.rowTexts row).map fun t =>
      first.fillRoot (first.fillRoot (Data.fillElement b.directive.key b.items[i] t)) := by
    apply rowTexts_eq_map (cell?_expand h hheight)
    intro cell
    rw [Plan.copyCell_of_some first hplan hitem]
    cases hvalue : cell.value <;> simp [hvalue, copyValue, CellValue.kept, CellValue.text?]
  rw [rowKeys, rowKeys, htexts]
  apply Binding.keysOf_map_subset
  intro t ht
  exact Data.markersOf_copy_subset (htidy t ht) (hshown.root ht (Nat.zero_lt_of_lt hheight))
    (hshown.element ht hplan (List.getElem_mem hi))

end staged

theorem forall_rowKeys_of_plan (hplan : s.plan data row = some b) :
    ∀ key ∈ s.rowKeys row, key = b.directive.key := by
  obtain ⟨key, items, hbinding, -, rfl⟩ := plan_eq_some_iff.1 hplan
  exact (Binding.ofKeys_eq_bound_iff.1 hbinding).2

/-- A row is not replaced if the data has none of its keys. -/
theorem plan_eq_none_of_keys (h : ∀ key ∈ s.rowKeys row, data.field? key = none) :
    s.plan data row = none := by
  rw [Option.eq_none_iff_forall_ne_some]
  intro b hb
  obtain ⟨key, items, hbinding, hvalue, -⟩ := plan_eq_some_iff.1 hb
  obtain ⟨hne, hall⟩ := Binding.ofKeys_eq_bound_iff.1 hbinding
  obtain ⟨k, hk⟩ := List.exists_mem_of_ne_nil _ hne
  rw [← hall k hk, h k hk] at hvalue
  cases hvalue

/-- The second part of the data does not have the key of a row that the first part replaces. -/
theorem field?_second_of_plan (hunion : Data.IsUnion first second union)
    (hplan : s.plan first row = some b) : second.field? b.directive.key = none := by
  obtain ⟨key, items, -, hvalue, rfl⟩ := plan_eq_some_iff.1 hplan
  refine (hunion.disjoint key).resolve_left ?_
  rw [hvalue]
  exact Option.some_ne_none _

/-- The plans of the stages come to the plan of the whole data. -/
theorem plan_inStages (hunion : Data.IsUnion first second union)
    (h : s.expand first = .ok (summary, staged))
    (htidy : ∀ row, ∀ t ∈ s.rowTexts row, Tidy t) (hshown : s.ShowsNoBracket first) :
    Plan.InStages (s.plan first) (staged.plan second) (s.plan union) := by
  constructor
  case whole_of_some =>
    intro row b hplan
    obtain ⟨key, items, hbinding, hvalue, rfl⟩ := plan_eq_some_iff.1 hplan
    refine plan_eq_some_iff.2 ⟨key, items, hbinding, ?_, rfl⟩
    rw [hunion.field?_eq, hvalue, Option.some_or]
  case next_of_some =>
    intro row b hplan i hi
    apply plan_eq_none_of_keys
    intro key hkey
    have hkeys := rowKeys_expand_of_some h (htidy row) hshown hplan hi hkey
    rw [forall_rowKeys_of_plan hplan key hkeys]
    exact field?_second_of_plan hunion hplan
  case next_of_none =>
    intro row hplan
    have hbinding : staged.binding ((s.plan first).landing row) = s.binding row :=
      congrArg Binding.ofKeys (rowKeys_expand_of_none h (htidy row) hshown hplan)
    -- The whole data has a list under the key of the row exactly if the second part has it.
    have hvalue {key : String} {items : List Data} (hkey : s.binding row = .bound key) :
        second.field? key = some (.list items) ↔ union.field? key = some (.list items) := by
      rw [hunion.field?_eq]
      rcases hunion.disjoint key with hnone | hnone
      · rw [hnone, Option.none_or]
      · rw [hnone, Option.or_none]
        refine iff_of_false (by simp) fun hfirst => ?_
        rw [plan_eq_some_iff.2 ⟨key, items, hkey, hfirst, rfl⟩] at hplan
        cases hplan
    apply Option.ext
    intro b
    rw [plan_eq_some_iff, hbinding, Option.map_eq_some_iff]
    constructor
    · rintro ⟨key, items, hkey, hsecond, rfl⟩
      exact ⟨_, plan_eq_some_iff.2 ⟨key, items, hkey, (hvalue hkey).1 hsecond, rfl⟩, rfl⟩
    · rintro ⟨c, hc, rfl⟩
      obtain ⟨key, items, hkey, hwhole, rfl⟩ := plan_eq_some_iff.1 hc
      exact ⟨key, items, hkey, (hvalue hkey).2 hwhole, rfl⟩

end Sheet

end SheetTemplate
