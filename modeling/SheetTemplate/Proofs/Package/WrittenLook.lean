import SheetTemplate.Proofs.Package.SheetLook
import SheetTemplate.Proofs.Package.SheetPart
import SheetTemplate.Proofs.Package.WrittenSheet
/-!
The look of the part that is written for a sheet. Under each place it has the validation that is
left of the one that was stored for the cell there, and no other.
-/
namespace SheetTemplate
open Xml

namespace WrittenSheet

def keptValidation? (e : CellRef × Cell) : Option Validation :=
  (storedValidation? e).bind fun v => v.found.validation?

def keptEdits (entries : List (CellRef × Cell)) : List (CellRef × LookEdit) :=
  entries.filterMap fun e =>
    ((keptValidation? e).map fun v => { validation := some v }).map (e.1, ·)

private theorem isWritten_of_validation {c : Cell} {v : Validation}
    (h : c.presentation.validation = some v) : isWritten c = true := by
  simp [isWritten, Presentation.isDefault, h]

end WrittenSheet

namespace SheetLook
open WrittenSheet

private theorem cells_ofCorners_self (place : CellRef) :
    (Range.ofCorners place place).cells = [place] := by
  simp [Range.cells, Range.ofCorners]

/-- A stored validation counts for the cell that it was stored for. -/
theorem spread_found {v : Validation} {place : CellRef} {sv : StoredValidation}
    (h : StoredValidation.store v place = .ok sv) (hplaced : Placed place)
    (hrow : place.row ≤ WrittenSheet.lastRow) (hcolumn : place.column ≤ WrittenSheet.lastColumn) :
    spread sv.found =
      (sv.found.validation?.map fun v => (place, { validation := some v })).toList := by
  obtain ⟨_, _, _, _, -, hfields, -⟩ := StoredValidation.store_eq_ok h
  have hsqref : sv.found.fields.get? "sqref" = some place.text := by
    rw [StoredValidation.found, hfields, StoredValidation.get?_sqref]
  have hword : Text.words Text.isBlank place.text = [place.text] := by
    apply Text.words_eq_singleton
    · intro hempty
      have hchars := congrArg String.toList hempty
      rw [CellRef.text, String.toList_ofList] at hchars
      exact Text.digits_ne_nil _ (List.append_eq_nil_iff.1 hchars).2
    · intro c hc
      rw [CellRef.text, String.toList_ofList] at hc
      exact CellRef.isBlank_of_mem_chars hc
  have harea : area? place.text = some (Range.ofCorners place place) := by
    have hcolon : ':' ∉ place.text.toList := by
      rw [CellRef.text, String.toList_ofList]
      exact CellRef.not_mem_chars (by decide) (by decide) place
    have hlast : WrittenSheet.lastRow < twoTo 32 := by decide
    have hthree : WrittenSheet.lastColumn ≤ 18278 := by decide
    have hread : CellRef.ofText? place.text = some place := by
      rw [CellRef.ofText?, CellRef.text, String.toList_ofList,
        CellRef.ofChars?_chars hplaced.1 (by omega) hplaced.2, if_pos (by omega)]
    simp [area?, hcolon, hread, Range.ofCorners, Range.size, largestArea]
  rw [spread, hsqref]
  cases sv.found.validation? with
  | none => rfl
  | some validation =>
    simp [hword, harea, cells_ofCorners_self]

private theorem foldlM_nodes {formats : Array Presentation} {vs : List StoredValidation}
    (h : ∀ v ∈ vs, Fields.Plain v.fields ∧ Fields.localNames v.fields = v.fields) {r : Reading}
    (hvalidation : r.validation = none) (hslot : r.slot = none) :
    List.foldlM (readEvent formats) r
        (((vs.map StoredValidation.node).flatMap Node.events).filterMap Event.stripped?) =
      .ok { r with edits := (vs.flatMap fun v => spread v.found).reverse ++ r.edits } := by
  induction vs generalizing r with
  | nil => rfl
  | cons v vs ih =>
    obtain ⟨⟨hplain, hlocal⟩, hrest⟩ := List.forall_mem_cons.1 h
    rw [List.map_cons, List.flatMap_cons, List.filterMap_append,
      foldlM_append_of_eq_pure (foldlM_node hplain hlocal hslot)]
    have hnext := ih hrest (r := { r with
      validation := none
      edits := (spread v.found).reverse ++ r.edits }) rfl hslot
    refine hnext.trans ?_
    simp [hvalidation]

/-- The edits of stored validations are those of the validations that are left. -/
theorem flatMap_spread {s : Sheet} {written : WrittenSheet} (h : IsOf s written) :
    (written.validations.flatMap fun v => spread v.found) = keptEdits s.cells.entries := by
  rw [h.validations_eq]
  have hchecked := h.cells_checked
  revert hchecked
  induction s.cells.entries with
  | nil => exact fun _ => rfl
  | cons e entries ih =>
    intro hchecked
    obtain ⟨hcheck, hrest⟩ := List.forall_mem_cons.1 hchecked
    rw [keptEdits, List.filterMap_cons, List.filterMap_cons]
    cases hv : storedValidation? e with
    | none =>
      have hkept : keptValidation? e = none := by simp [keptValidation?, hv]
      rw [hkept]
      exact ih hrest
    | some sv =>
      obtain ⟨v, hown, hstored⟩ := Option.bind_eq_some_iff.1 hv
      obtain ⟨hplaced, hlimits⟩ := checkCell_eq_ok hcheck
      obtain ⟨hrow, hcolumn⟩ := hlimits (isWritten_of_validation hown)
      have hspread := spread_found (toOption_eq_some hstored) hplaced hrow hcolumn
      have hkept : keptValidation? e = sv.found.validation? := by simp [keptValidation?, hv]
      rw [hkept, List.flatMap_cons, hspread, ih hrest]
      cases sv.found.validation? <;> rfl

private theorem calm_of_mem_grid {formats : List Format} {firstText : Nat} {s : WrittenSheet}
    {e : Event}
    (h : e ∈ ((s.gridNodes formats firstText).flatMap Node.events).filterMap Event.stripped?) :
    Calm e := by
  obtain ⟨e', he', hstripped⟩ := List.mem_filterMap.1 h
  obtain ⟨n, hn, he'⟩ := List.mem_flatMap.1 he'
  have hprinted := ((tidy_gridNodes formats firstText s n hn).printed e' he').of_stripped? hstripped
  exact calm_of_printed (by decide) (by decide) hprinted

/-- Reading the list of validations, if there is one. -/
theorem foldlM_list (formats : Array Presentation) {vs : List StoredValidation}
    (h : ∀ v ∈ vs, Fields.Plain v.fields ∧ Fields.localNames v.fields = v.fields) {r : Reading}
    (hvalidation : r.validation = none) (hslot : r.slot = none) :
    List.foldlM (readEvent formats) r
        (((listNode "dataValidations" (vs.map StoredValidation.node)).flatMap Node.events).filterMap
          Event.stripped?) =
      .ok { r with edits := (vs.flatMap fun v => spread v.found).reverse ++ r.edits } := by
  unfold listNode
  split
  · rename_i hempty
    rw [List.isEmpty_iff, List.map_eq_nil_iff] at hempty
    rw [hempty]
    rfl
  · have hopen (raw : List Char) :
        readEvent formats r (.opening "dataValidations" raw) = .ok r := by
      simp [readEvent, localName_eq_self, readTag, hvalidation]
    rw [List.flatMap_singleton, stripped_element, List.foldlM_cons, hopen]
    show List.foldlM _ r _ = _
    rw [foldlM_append_of_eq_pure (foldlM_nodes h hvalidation hslot)]
    rfl

private theorem sorted_keptEdits (s : Sheet) :
    (keptEdits s.cells.entries).Pairwise fun a b => compare a.1 b.1 = .lt := by
  refine s.cells.sorted.filterMap _ fun a b hab a' ha b' hb => ?_
  obtain ⟨_, -, rfl⟩ := Option.map_eq_some_iff.1 ha
  obtain ⟨_, -, rfl⟩ := Option.map_eq_some_iff.1 hb
  exact hab

/-- Validations that come behind plain edits are the ones that count. -/
theorem validation_ofEdits {edits : List (CellRef × LookEdit)} (hplain : ∀ e ∈ edits, e.2.IsPlain)
    (s : Sheet) (widths : List (Nat × Binary64)) (place : CellRef) :
    ((ofEdits (edits ++ keptEdits s.cells.entries) widths).cells.find? place).bind (·.validation) =
      (s.cell? place).bind fun c => keptValidation? (place, c) := by
  have hkept : Table.lookup place (keptEdits s.cells.entries) =
      ((s.cell? place).bind fun c => keptValidation? (place, c)).map
        fun v => { validation := some v } := by
    rw [keptEdits, Table.lookup_filterMap s.cells.sorted, Option.map_bind]
    rfl
  rw [ofEdits, Table.find?_mapValues, Table.find?_ofListWith, Table.joined_append,
    Table.joined_eq_lookup (sorted_keptEdits s), hkept]
  cases hbase : Table.joined LookEdit.andThen place edits with
  | none =>
    cases (s.cell? place).bind fun c => keptValidation? (place, c) <;> rfl
  | some e =>
    have he : e.IsPlain := LookEdit.IsPlain.joined hplain hbase
    cases (s.cell? place).bind fun c => keptValidation? (place, c) with
    | none => simpa using he.result
    | some v => simp [LookEdit.andThen, LookEdit.result]

/-- The look of the part of a sheet, and the validations in it. -/
theorem ofEvents_written {presentations : Array Presentation}
    (hpresentations : ∀ p ∈ presentations, p.validation = none) {s : Sheet} {written : WrittenSheet}
    (h : IsOf s written) (formats : List Format) (firstText : Nat) :
    ∃ look, ofEvents presentations (strictEvents (document (written.node formats firstText))) =
        .ok look ∧
      ∀ place, (look.cells.find? place).bind (·.validation) =
        (s.cell? place).bind fun c => keptValidation? (place, c) := by
  have hvalidations := h.sound.validations
  have hroot : Fields.Plain [("xmlns", Package.workbookVocabulary)] := by
    simp [Fields.Plain]
    decide
  have hcalm : ∀ e ∈ .other :: .opening "worksheet"
      (Fields.chars [("xmlns", Package.workbookVocabulary)]) ::
        ((written.gridNodes formats firstText).flatMap Node.events).filterMap Event.stripped?,
      Calm e := by
    refine List.forall_mem_cons.2 ⟨trivial, List.forall_mem_cons.2 ⟨⟨by decide, ?_⟩, ?_⟩⟩
    · rw [fields?_chars hroot]
      rfl
    · exact fun e he => calm_of_mem_grid he
  obtain ⟨r, hfront, hquiet⟩ := Quiet.foldlM hpresentations (r := {}) ⟨rfl, rfl, by simp⟩ hcalm
  have hclose (r : Reading) : readEvent presentations r (.closing "worksheet") = .ok r := by
    simp [readEvent, readClosing, localName_eq_self]
  have hback := foldlM_list presentations hvalidations hquiet.validation hquiet.slot
  rw [flatMap_spread h] at hback
  have hread : ofEvents presentations (strictEvents (document (written.node formats firstText))) =
      .ok (ofEdits (r.edits.reverse ++ keptEdits s.cells.entries) r.widths.reverse) := by
    rw [strictEvents_document (tidy_node formats firstText fun v hv => (hvalidations v hv).1),
      node_eq, stripped_element, List.flatMap_append, List.filterMap_append, List.append_assoc,
      ← List.cons_append, ← List.cons_append, ofEvents, foldlM_append_of_eq_pure hfront,
      foldlM_append_of_eq_pure hback, List.foldlM_cons, hclose]
    show Except.ok (ofEdits ((keptEdits s.cells.entries).reverse ++ r.edits).reverse _) = _
    rw [List.reverse_append, List.reverse_reverse]
  refine ⟨_, hread, validation_ofEdits (fun e he => hquiet.edits e (List.mem_reverse.1 he)) s _⟩

end SheetLook

end SheetTemplate
