import SheetTemplate.Proofs.Fill.MergeCopies
import SheetTemplate.Proofs.Grid.Spelling
/-!
Names are an exact code of columns, cells and ranges. The copies of merged regions travel as names,
and adding them by name is the same as adding the regions themselves.
-/
namespace SheetTemplate

/-- Columns and their names stand for each other, as far as three letters go. -/
structure Column.ExactNames : Prop where
  capitals (column : Nat) : letters column ≠ [] ∧ ∀ c ∈ letters column, Text.isCapital c = true
  length_le {column : Nat} (h : column < twoTo 32) : (letters column).length ≤ 7
  injective {column column' : Nat} (h : 0 < column) (h' : 0 < column')
    (heq : name column = name column') : column = column'
  read {column : Nat} (h : 0 < column) :
    number? (name column) = if column ≤ 18278 then some column else none
  named {s : String} {column : Nat} (h : number? s = some column) : name column = s

/-- Cells are read from the texts that spell them and from no others. -/
structure CellRef.ExactNames : Prop where
  read_iff {s : String} {place : CellRef} : ofText? s = some place ↔ Spells s.toList place
  read {place : CellRef} (hrow : 0 < place.row) (hrow' : place.row < twoTo 32)
    (hcolumn : 0 < place.column) (hcolumn' : place.column ≤ 18278) : ofText? place.text = some place

/-- Ranges that are read have corners that can be named. They are read back from their names, also
after a move, which fails only if rows leave those of a sheet. -/
structure Range.ExactNames : Prop where
  read {r : Range} (h : r.Nameable) : ofText? r.text = some r
  nameable {s : String} {r : Range} (h : ofText? s = some r) : r.Nameable
  shifted_iff {r x : Range} {offset : Int} : r.shifted? offset = some x ↔
    (0 < r.top + offset ∧ r.bottom + offset < twoTo 32) ∧
      ((x.top : Int) = r.top + offset ∧ (x.bottom : Int) = r.bottom + offset) ∧
        x.left = r.left ∧ x.right = r.right
  read_shifted {r x : Range} {offset : Int} (h : r.Nameable) (hx : r.shifted? offset = some x) :
    ofText? x.text = some x

/-- Merged regions that cover a row are found among the names of all, and their copies are added by
their names, as if they were found and added themselves. -/
structure Sheet.ExactMerges : Prop where
  found {s : Sheet} (h : ∀ m ∈ s.merges, m.Nameable) (row : Nat) :
    mergesOver row s.mergeTexts = s.merges.filter (·.includesRow row)
  added {s : Sheet} (h : ∀ m ∈ s.merges, m.Nameable) (t : Sheet) (row offset : Nat) :
    t.mergeCopies (mergesOver row s.mergeTexts) offset =
      ((s.merges.filter (·.includesRow row)).filterMap (·.shifted? offset)).foldl merge t
  mem_iff {s : Sheet} (h : ∀ m ∈ s.merges, m.Nameable) (t : Sheet) (row offset : Nat) {x : Range} :
    x ∈ (t.mergeCopies (mergesOver row s.mergeTexts) offset).merges ↔ x ∈ t.merges ∨
      (∃ m ∈ s.merges, m.includesRow row = true ∧ m.shifted? offset = some x) ∧ x.isSingle = false

namespace Range
variable {r x : Range}

theorem shifted?_eq_some_iff {offset : Int} : r.shifted? offset = some x ↔
    (0 < r.top + offset ∧ r.bottom + offset < twoTo 32) ∧
      ((x.top : Int) = r.top + offset ∧ (x.bottom : Int) = r.bottom + offset) ∧
        x.left = r.left ∧ x.right = r.right := by
  have hle := r.top_le_bottom
  simp only [shifted?, Option.ite_none_right_eq_some, Option.some.injEq]
  refine and_congr_right fun hrows => ?_
  obtain ⟨htop, hbottom⟩ := hrows
  constructor
  · rintro rfl
    exact ⟨⟨Int.toNat_of_nonneg (by omega), Int.toNat_of_nonneg (by omega)⟩, rfl, rfl⟩
  · rintro ⟨⟨htop', hbottom'⟩, hleft, hright⟩
    exact eq_of_bounds (by simp only; omega) hleft.symm (by simp only; omega) hright.symm

theorem Nameable.shifted? (h : r.Nameable) {offset : Int} (hx : r.shifted? offset = some x) :
    x.Nameable := by
  obtain ⟨⟨htop, hbottom⟩, ⟨htop', hbottom'⟩, hleft, hright⟩ := shifted?_eq_some_iff.1 hx
  exact ⟨⟨by omega, hleft ▸ h.left_pos, by omega⟩, hright ▸ h.right_le⟩

end Range

namespace Sheet
variable {ms : List Range}

theorem mergesOver_text_of_nameable (h : ∀ m ∈ ms, m.Nameable) (row : Nat) :
    mergesOver row (ms.map Range.text) = ms.filter (·.includesRow row) := by
  rw [mergesOver_text (fun m hm => (h m hm).toPlaced)]
  refine List.filter_congr fun m hm => ?_
  rw [Range.copiedFrom, decide_eq_true (h m hm).right_le, Bool.and_true]

private theorem mergeText_text {r : Range} (h : r.Nameable) (s : Sheet) :
    s.mergeText r.text = s.merge r := by
  rw [mergeText, h.ofText?_text]

private theorem merges_foldl_merge (s : Sheet) :
    (ms.foldl merge s).merges = ms.foldl pushRange s.merges :=
  (List.foldl_hom merges fun _ _ => rfl).symm

private theorem mergeCopies_eq (h : ∀ m ∈ ms, m.Nameable) (s : Sheet) (offset : Nat) :
    s.mergeCopies ms offset = (ms.filterMap (·.shifted? offset)).foldl merge s := by
  have hmoved : ∀ x ∈ ms.filterMap (·.shifted? offset), x.Nameable := by
    intro x hx
    obtain ⟨m, hm, hx⟩ := List.mem_filterMap.1 hx
    exact (h m hm).shifted? hx
  exact List.foldl_ext _ _ s fun s x hx => mergeText_text (hmoved x hx) s

end Sheet

/-- Names are an exact code, and no merged region that travels as a name is lost or altered. -/
theorem names_exact :
    Column.ExactNames ∧ CellRef.ExactNames ∧ Range.ExactNames ∧ Sheet.ExactMerges := by
  refine ⟨?_, ?_, ?_, ?_⟩
  · refine ⟨fun column => ⟨Column.letters_ne_nil column, fun c hc =>
      Column.isCapital_of_mem_letters hc⟩, fun h => ?_, Column.name_inj, Column.number?_name,
      Column.name_of_number?⟩
    refine (Column.length_letters_le_succ_iff 6).2 ?_
    have : twoTo 32 = 4294967296 := by decide
    omega
  · refine ⟨CellRef.ofChars?_eq_some_iff, fun hrow hrow' hcolumn hcolumn' => ?_⟩
    rw [CellRef.ofText?, CellRef.text, String.toList_ofList,
      CellRef.ofChars?_chars hrow hrow' hcolumn, if_pos hcolumn']
  · exact ⟨Range.Nameable.ofText?_text, Range.nameable_of_ofText?, Range.shifted?_eq_some_iff,
      fun h hx => (h.shifted? hx).ofText?_text⟩
  · have hadded {s : Sheet} (h : ∀ m ∈ s.merges, m.Nameable) (t : Sheet) (row offset : Nat) :
        t.mergeCopies (Sheet.mergesOver row s.mergeTexts) offset =
          ((s.merges.filter (·.includesRow row)).filterMap (·.shifted? offset)).foldl
            Sheet.merge t := by
      rw [Sheet.mergeTexts, Sheet.mergesOver_text_of_nameable h,
        Sheet.mergeCopies_eq fun m hm => h m (List.mem_of_mem_filter hm)]
    refine ⟨fun h row => Sheet.mergesOver_text_of_nameable h row, hadded, ?_⟩
    intro s h t row offset x
    rw [hadded h, Sheet.merges_foldl_merge, Sheet.mem_foldl_pushRange]
    simp only [List.mem_filterMap, List.mem_filter, and_assoc]

theorem names_exact_at_carries : Column.name 703 = "AAA" ∧
    Column.number? (Column.name 18279) = none ∧ CellRef.ofText? "$AA$007" = some ⟨7, 27⟩ ∧
    Range.ofText? (Range.text ⟨2, 26, 3, 27, by decide, by decide⟩) =
      some ⟨2, 26, 3, 27, by decide, by decide⟩ ∧
    Sheet.mergesOver 3 (Sheet.mergeTexts ⟨"", Table.empty, [⟨2, 26, 3, 27, by decide, by decide⟩],
      Table.empty⟩) = [⟨2, 26, 3, 27, by decide, by decide⟩] := by
  obtain ⟨hcolumn, hcell, hrange, hmerges⟩ := names_exact
  have hregion : Range.Nameable ⟨2, 26, 3, 27, by decide, by decide⟩ :=
    ⟨⟨by decide, by decide, by decide⟩, by decide⟩
  have hletters : Column.letters 27 = ['A', 'A'] :=
    Column.letters_of_ofLetters? (by decide)
  refine ⟨hcolumn.named (by decide), (hcolumn.read (by decide)).trans (if_neg (by decide)),
    hcell.read_iff.2 ⟨true, ['A', 'A'], true, ['0', '0', '7'], by decide,
      ⟨by decide, List.all_eq_true.1 (by decide), by decide, hletters⟩,
      ⟨by decide, List.all_eq_true.1 (by decide), by decide⟩, by decide, by decide⟩,
    hrange.read hregion, (hmerges.found ?_ 3).trans (by decide)⟩
  intro m hm
  obtain rfl := List.mem_singleton.1 hm
  exact hregion

end SheetTemplate
