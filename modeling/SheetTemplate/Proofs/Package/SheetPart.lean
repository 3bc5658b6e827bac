import Mathlib.Data.List.SplitBy
import SheetTemplate.Package.Save
import SheetTemplate.Proofs.Package.StoredValidation
import SheetTemplate.Proofs.Xml.Printed
/-!
The part of a sheet is a tree that is read back as it is: its elements have plain names and plain
attributes, and text stands alone in its element.
-/
namespace SheetTemplate.WrittenSheet
open Xml

def widthNames : List String := ["cols", "col"]

def rowNames : List String := ["sheetData", "row", "c", "v", "f"]

def mergeNames : List String := ["mergeCells", "mergeCell"]

def validationNames : List String :=
  ["dataValidations", "dataValidation", "formula1", "formula2"]

def gridNames : List String := widthNames ++ rowNames ++ mergeNames

def widthNodes (s : WrittenSheet) : List Node :=
  if s.widths.isEmpty then []
  else [.element "cols" [] (s.widths.map fun (column, width) => widthNode column width)]

def rows (formats : List Format) (firstText : Nat) (s : WrittenSheet) : List (List (Nat × Node)) :=
  (cellNodes formats firstText s.cells.entries).splitBy fun a b => a.1 = b.1

def rowsNode (formats : List Format) (firstText : Nat) (s : WrittenSheet) : Node :=
  .element "sheetData" [] ((s.rows formats firstText).map rowNode)

def mergeNodes (s : WrittenSheet) : List Node :=
  listNode "mergeCells" (s.merges.map fun r => .leaf "mergeCell" [("ref", r.text)])

def gridNodes (formats : List Format) (firstText : Nat) (s : WrittenSheet) : List Node :=
  s.widthNodes ++ [s.rowsNode formats firstText] ++ s.mergeNodes

theorem node_eq (formats : List Format) (firstText : Nat) (s : WrittenSheet) :
    s.node formats firstText = .element "worksheet" [("xmlns", Package.workbookVocabulary)]
      (s.gridNodes formats firstText
        ++ listNode "dataValidations" (s.validations.map StoredValidation.node)) :=
  rfl

section trees
variable {names : List String}

theorem tidy_listNode {name : String} {nodes : List Node} (hmem : name ∈ names)
    (hname : isPlainName name = true) (h : ∀ n ∈ nodes, n.Tidy names) :
    ∀ n ∈ listNode name nodes, n.Tidy names := by
  intro n hn
  unfold listNode at hn
  split at hn
  · cases hn
  · rw [List.mem_singleton.1 hn]
    exact .element hmem hname (by simp [Fields.Plain]; decide) h

end trees

theorem tidy_of_mem_widthNodes {s : WrittenSheet} : ∀ n ∈ s.widthNodes, n.Tidy widthNames := by
  intro n hn
  unfold widthNodes at hn
  split at hn
  · cases hn
  · rw [List.mem_singleton.1 hn]
    refine .element (by decide) (by decide) Fields.plain_nil fun m hm => ?_
    obtain ⟨e, -, rfl⟩ := List.mem_map.1 hm
    exact .leaf (by decide) (by decide) (by simp [Fields.Plain]; decide)

private theorem tidy_of_mem_mergeNodes {s : WrittenSheet} :
    ∀ n ∈ s.mergeNodes, n.Tidy mergeNames := by
  refine tidy_listNode (by decide) (by decide) fun m hm => ?_
  obtain ⟨r, -, rfl⟩ := List.mem_map.1 hm
  exact .leaf (by decide) (by decide) (by simp [Fields.Plain]; decide)

def cellFields (formatIndex : Nat) (place : CellRef) (type : Fields) : Fields :=
  ("r", place.text) :: (if formatIndex = 0 then [] else [("s", Text.decimal formatIndex)]) ++ type

theorem cellFields_plain (formatIndex : Nat) (place : CellRef) (type : Option String) :
    (cellFields formatIndex place (type.toList.map ("t", ·))).Plain := by
  unfold cellFields
  split <;> cases type <;> (simp [Fields.Plain]; decide)

private theorem tidy_cellNode? {formatIndex textNumber : Nat} {place : CellRef}
    {value : WrittenValue}
    {n : Node} (h : cellNode? formatIndex textNumber place value = some n) : n.Tidy rowNames := by
  have hplain := cellFields_plain formatIndex place
  have hv (s : String) : ∀ m ∈ [Node.holding "v" [] s], m.Tidy rowNames := by
    intro m hm
    rw [List.mem_singleton.1 hm]
    exact .holding s (by decide) (by decide) Fields.plain_nil
  cases value with
  | blank =>
    by_cases hindex : formatIndex = 0
    · rw [cellNode?, if_pos hindex] at h
      cases h
    · rw [cellNode?, if_neg hindex] at h
      cases h
      exact Node.Tidy.leaf (by decide) (by decide) (hplain none)
  | text s =>
    cases h
    exact .element (by decide) (by decide) (hplain (some "s")) (hv _)
  | number x =>
    cases h
    exact .element (by decide) (by decide) (hplain none) (hv _)
  | bool b =>
    cases h
    exact .element (by decide) (by decide) (hplain (some "b")) (hv _)
  | formula f =>
    cases h
    refine .element (by decide) (by decide) (hplain none) fun m hm => ?_
    rcases List.mem_cons.1 hm with rfl | hm
    · exact .holding f (by decide) (by decide) Fields.plain_nil
    · exact hv _ m hm

def sharedText? (e : CellRef × WrittenCell) : Option String :=
  match e.2.value with
  | .text t => some t
  | _ => none

theorem texts_eq (s : WrittenSheet) : s.texts = s.cells.entries.filterMap sharedText? := rfl

/-- The element of some cell among those that are written. The number of its text stays among those
of the cells. -/
theorem mem_cellNodes {formats : List Format} {next : Nat} {cells : List (CellRef × WrittenCell)}
    {e : Nat × Node} (h : e ∈ cellNodes formats next cells) :
    ∃ cell ∈ cells, ∃ number, cellNode? (formats.idxOf cell.2.format) number cell.1 cell.2.value =
      some e.2 ∧ e.1 = cell.1.row ∧ ((sharedText? cell).isSome →
        number < next + (cells.filterMap sharedText?).length) := by
  induction cells generalizing next with
  | nil => cases h
  | cons cell cells ih =>
    obtain ⟨place, c⟩ := cell
    simp only [cellNodes, List.mem_append] at h
    rcases h with h | h
    · obtain ⟨n, hn, rfl⟩ := List.mem_map.1 h
      refine ⟨(place, c), List.mem_cons_self, next, Option.mem_toList.1 hn, rfl, fun htext => ?_⟩
      obtain ⟨t, ht⟩ := Option.isSome_iff_exists.1 htext
      rw [List.filterMap_cons_some ht, List.length_cons]
      omega
    · obtain ⟨cell, hcell, number, hnode, hrow, hnumber⟩ := ih h
      refine ⟨cell, List.mem_cons_of_mem _ hcell, number, hnode, hrow, fun htext => ?_⟩
      have hlt := hnumber htext
      cases hvalue : c.value with
      | text t =>
        rw [hvalue] at hlt
        rw [List.filterMap_cons_some (b := t) (by simp [sharedText?, hvalue]), List.length_cons]
        simp only at hlt
        omega
      | _ =>
        rw [hvalue] at hlt
        rw [List.filterMap_cons_none (by simp [sharedText?, hvalue])]
        exact hlt

private theorem tidy_rowNode {cells : List (Nat × Node)} (h : ∀ e ∈ cells, e.2.Tidy rowNames) :
    (rowNode cells).Tidy rowNames := by
  refine .element (by decide) (by decide) ?_ fun n hn => ?_
  · cases cells <;> (simp [Fields.Plain]; decide)
  · obtain ⟨e, he, rfl⟩ := List.mem_map.1 hn
    exact h e he

theorem mem_cellNodes_of_mem_rows {formats : List Format} {firstText : Nat} {s : WrittenSheet}
    {row : List (Nat × Node)} (hrow : row ∈ s.rows formats firstText) {e : Nat × Node}
    (he : e ∈ row) :
    e ∈ cellNodes formats firstText s.cells.entries := by
  rw [← List.flatten_splitBy (fun a b : Nat × Node => decide (a.1 = b.1))
    (cellNodes formats firstText s.cells.entries)]
  exact List.mem_flatten_of_mem hrow he

theorem tidy_rowsNode (formats : List Format) (firstText : Nat) (s : WrittenSheet) :
    (s.rowsNode formats firstText).Tidy rowNames := by
  refine .element (by decide) (by decide) Fields.plain_nil fun m hm => ?_
  obtain ⟨row, hrow, rfl⟩ := List.mem_map.1 hm
  refine tidy_rowNode fun e he => ?_
  obtain ⟨cell, -, number, hnode, -⟩ := mem_cellNodes (mem_cellNodes_of_mem_rows hrow he)
  exact tidy_cellNode? hnode

theorem tidy_gridNodes (formats : List Format) (firstText : Nat) (s : WrittenSheet) :
    ∀ n ∈ s.gridNodes formats firstText, n.Tidy gridNames := by
  intro n hn
  simp only [gridNodes, List.mem_append, List.mem_singleton] at hn
  rcases hn with (hn | rfl) | hn
  · exact (tidy_of_mem_widthNodes n hn).mono (by decide)
  · exact (tidy_rowsNode formats firstText s).mono (by decide)
  · exact (tidy_of_mem_mergeNodes n hn).mono (by decide)

private theorem tidy_validation {v : StoredValidation} (h : v.fields.Plain) :
    v.node.Tidy validationNames := by
  refine .element (by decide) (by decide) h fun n hn => ?_
  rcases List.mem_append.1 hn with hn | hn
  · obtain ⟨s, -, rfl⟩ := List.mem_map.1 hn
    exact .holding s (by decide) (by decide) Fields.plain_nil
  · obtain ⟨s, -, rfl⟩ := List.mem_map.1 hn
    exact .holding s (by decide) (by decide) Fields.plain_nil

theorem tidy_of_mem_validations {vs : List StoredValidation} (h : ∀ v ∈ vs, v.fields.Plain) :
    ∀ n ∈ listNode "dataValidations" (vs.map StoredValidation.node), n.Tidy validationNames := by
  refine tidy_listNode (by decide) (by decide) fun m hm => ?_
  obtain ⟨v, hv, rfl⟩ := List.mem_map.1 hm
  exact tidy_validation (h v hv)

theorem tidy_node (formats : List Format) (firstText : Nat) {s : WrittenSheet}
    (h : ∀ v ∈ s.validations, v.fields.Plain) :
    (s.node formats firstText).Tidy ("worksheet" :: (gridNames ++ validationNames)) := by
  rw [node_eq]
  refine .element (by decide) (by decide) (by simp [Fields.Plain]; decide) fun n hn => ?_
  rcases List.mem_append.1 hn with hn | hn
  · exact (tidy_gridNodes formats firstText s n hn).mono (by decide)
  · exact (tidy_of_mem_validations h n hn).mono (by decide)

end SheetTemplate.WrittenSheet
