import SheetTemplate.Proofs.Fill.Layout
import SheetTemplate.Proofs.Marker.Substitute
/-!
Root markers in rows that are replaced. Their texts are filled from the root twice, once with the
copy and once with all texts of the sheet, so what a marker brought in may be read as a marker.
-/
namespace SheetTemplate

/-- Filling the text from the root changes nothing. -/
def Data.Settled (data : Data) (t : String) : Prop :=
  data.fillRoot t = t

/-- The cell at the place holds a text, and two opening square brackets stand nowhere in it. -/
def Sheet.RootText (s : Sheet) (place : CellRef) (t : String) : Prop :=
  (s.cell? place).map Cell.value = some (.text t) ∧ ¬ ['[', '['] <:+: t.toList

/-- Each copy of such a text is what the text would be in a row that is not replaced. -/
def RootTextsAgree (data : Data) (s filled : Sheet) : Prop :=
  ∀ row b, s.plan data row = some b → ∀ column t, s.RootText ⟨row, column⟩ t →
    ∀ i < b.items.length,
      (filled.cell? ⟨(s.plan data).landing row + i, column⟩).map Cell.value =
        some (.text (data.fillRoot t))

namespace Data
variable {data : Data} {t : String}

private theorem fillElement_of_not_infix
    (h : ¬ ['[', '['] <:+: t.toList) (key : String) (item : Data) :
    fillElement key item t = t := by
  have hsame : substituteChars [.element] (elementText? key item) t.toList = t.toList :=
    substituteChars_of_not_infix h
  rw [fillElement, substitute, hsame, String.ofList_toList]

/-- A text into which markers bring nothing but inert texts is settled when it is filled. -/
theorem settled_fillRoot (h : ∀ m ∈ markersOf [.root] t, ∀ shown, data.rootText? m = some shown →
    Inert shown) : data.Settled (data.fillRoot t) := by
  rw [Settled, fillRoot, fillRoot, substitute, substitute, String.toList_ofList,
    substituteChars_idem (InertlyFilled.of_markersOf h)]

end Data

namespace Sheet
variable {data : Data} {s filled : Sheet} {summary : SheetSummary}

/-- A copy of a text without element markers is the text filled from the root twice. -/
theorem value_copy_rootText (h : s.expand data = .ok (summary, filled)) {row column i : Nat}
    {b : BoundRow} {t : String} (hplan : s.plan data row = some b)
    (ht : s.RootText ⟨row, column⟩ t) (hi : i < b.items.length) :
    (filled.cell? ⟨(s.plan data).landing row + i, column⟩).map Cell.value =
      some (.text (data.fillRoot (data.fillRoot t))) := by
  obtain ⟨hvalue, hout⟩ := ht
  obtain ⟨cell, hcell, hcellText⟩ := Option.map_eq_some_iff.1 hvalue
  rw [cell?_expand_of_some h hplan hi, hcell]
  simp only [Option.map_some, hcellText, CellValue.copied, Data.fillElement_of_not_infix hout]

/-- The copies agree exactly if each text made of a text of a replaced row is settled, which it is
if all that its markers show is inert. -/
theorem expand_rootTextsAgree_iff (h : s.expand data = .ok (summary, filled)) :
    (RootTextsAgree data s filled ↔ ∀ row b, s.plan data row = some b → b.items ≠ [] →
      ∀ column t, s.RootText ⟨row, column⟩ t → data.Settled (data.fillRoot t)) ∧
    ∀ t, (∀ m ∈ markersOf [.root] t, ∀ shown, data.rootText? m = some shown → Inert shown) →
      data.Settled (data.fillRoot t) := by
  refine ⟨⟨fun hall row b hplan hne column t ht => ?_, fun hall row b hplan column t ht i hi => ?_⟩,
    fun t => Data.settled_fillRoot⟩
  · have hi : 0 < b.items.length := List.length_pos_of_ne_nil hne
    have hcopy := hall row b hplan column t ht 0 hi
    rw [value_copy_rootText h hplan ht hi] at hcopy
    exact CellValue.text.inj (Option.some.inj hcopy)
  · have hne : b.items ≠ [] := List.ne_nil_of_length_pos (Nat.zero_lt_of_lt hi)
    rw [value_copy_rootText h hplan ht hi, hall row b hplan hne column t ht]

/-- A row that repeats, with a root marker beside the element marker. -/
def signed : Sheet :=
  ((named "S").setValue ⟨1, 1⟩ (.text "[[items]]")).setValue ⟨1, 2⟩ (.text "{{a}}")

def signedData (shown : String) : Data :=
  .record [("a", .text shown), ("b", .text "x"), ("items", .list [.null])]

theorem signed_rootTextsAgree_iff : ∃ summary filled,
    signed.expand (signedData "y") = .ok (summary, filled) ∧
      filled.valueAt? "B1" = some (.text "y") ∧
      (RootTextsAgree (signedData "y") signed filled ↔
        ∀ row b, signed.plan (signedData "y") row = some b → b.items ≠ [] →
          ∀ column t, signed.RootText ⟨row, column⟩ t →
            (signedData "y").Settled ((signedData "y").fillRoot t)) ∧
      (signedData "y").Settled ((signedData "y").fillRoot "{{a}}") := by
  refine exists_expand_of_map (by decide +kernel) fun _ _ h _ => ?_
  obtain ⟨hiff, hsettled⟩ := expand_rootTextsAgree_iff h
  exact ⟨hiff, hsettled "{{a}}" (by decide +kernel)⟩

/-- The text that the marker shows is filled itself. -/
theorem signed_not_rootTextsAgree : ∃ summary filled,
    signed.expand (signedData "{{b}}") = .ok (summary, filled) ∧
      filled.valueAt? "B1" = some (.text "x") ∧
      ¬ RootTextsAgree (signedData "{{b}}") signed filled := by
  have hplan : (signed.plan (signedData "{{b}}") 1).map (·.items.length) = some 1 := by
    decide +kernel
  have ht : signed.RootText ⟨1, 2⟩ "{{a}}" := ⟨by decide +kernel, by decide⟩
  obtain ⟨b, hb, hlength⟩ := Option.map_eq_some_iff.1 hplan
  refine exists_expand_of_map (by decide +kernel) fun _ _ h _ hall => ?_
  have hcopy := hall 1 b hb 2 _ ht 0 (by omega)
  rw [value_copy_rootText h hb ht (by omega)] at hcopy
  revert hcopy
  decide +kernel

end Sheet

end SheetTemplate
