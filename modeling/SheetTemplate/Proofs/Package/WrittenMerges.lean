import SheetTemplate.Proofs.Package.MergeSelection
import SheetTemplate.Proofs.Package.RoundTrip
/-!
Merged regions that were written and read again. Nothing in front of their list in a part opens a
list of regions, so the first list is theirs; and since they do not meet, none of them is dropped as
a repetition.
-/
namespace SheetTemplate

namespace StoredMerge
open Xml WrittenSheet

def OpensNoList (e : Event) : Prop :=
  ∀ name raw, e = .opening name raw → localName name ≠ "mergeCells"

theorem ofEvents_append {es : List Event} (h : ∀ e ∈ es, OpensNoList e) (rest : List Event) :
    ofEvents (es ++ rest) = ofEvents rest := by
  induction es with
  | nil => rfl
  | cons e es ih =>
    obtain ⟨he, hes⟩ := List.forall_mem_cons.1 h
    cases e with
    | opening name raw => rw [List.cons_append, ofEvents, if_neg (he name raw rfl), ih hes]
    | _ => exact ih hes

private theorem opensNoList_of_printed {names : List String}
    (hnames : ∀ name ∈ names, localName name ≠ "mergeCells") {e : Event} (h : e.Printed names) :
    OpensNoList e := by
  rintro name raw rfl
  exact hnames name h.1

theorem opensNoList_of_tidy {names : List String}
    (hnames : ∀ name ∈ names, localName name ≠ "mergeCells") {nodes : List Node}
    (h : ∀ n ∈ nodes, n.Tidy names) : ∀ e ∈ nodes.flatMap Node.events, OpensNoList e := by
  intro e he
  obtain ⟨n, hn, he⟩ := List.mem_flatMap.1 he
  exact opensNoList_of_printed hnames ((h n hn).printed e he)

private theorem opensNoList_closing (name : String) : OpensNoList (.closing name) :=
  fun _ _ h => Event.noConfusion h

/-- A list of regions is read to its end. -/
theorem untilEnd?_regions {rs : List Range} (h : ∀ r ∈ rs, 0 < r.top ∧ 0 < r.left)
    (rest : List Event) :
    untilEnd? (((rs.map fun r => Node.leaf "mergeCell" [("ref", r.text)]).flatMap Node.events)
      ++ .closing "mergeCells" :: rest) = some rs := by
  induction rs with
  | nil =>
    rw [List.map_nil, List.flatMap_nil, List.nil_append, untilEnd?, if_pos (by decide)]
  | cons r rs ih =>
    obtain ⟨⟨htop, hleft⟩, hrest⟩ := List.forall_mem_cons.1 h
    have hclose : localName "mergeCell" ≠ "mergeCells" := by decide
    rw [List.map_cons, List.flatMap_cons, Node.leaf, events_element, List.flatMap_nil,
      List.nil_append, List.append_assoc, List.append_assoc, List.singleton_append,
      List.singleton_append, untilEnd?, corners?_region htop hleft]
    simp only
    rw [untilEnd?, if_neg hclose, ih hrest, Option.map_some, Range.ofCorners_corners]

section written
variable (formats : List Format) (firstText : Nat) (s : WrittenSheet)

/-- The events of a part up to its merged regions. -/
def eventsBefore : List Event :=
  .other :: .text ['\n'] :: .opening "worksheet"
    (Fields.chars [("xmlns", Package.workbookVocabulary)])
      :: (s.widthNodes ++ [s.rowsNode formats firstText]).flatMap Node.events

def eventsBehind : List Event :=
  (listNode "dataValidations" (s.validations.map StoredValidation.node)).flatMap Node.events ++
    [.closing "worksheet"]

private theorem opensNoList_before : ∀ e ∈ eventsBefore formats firstText s, OpensNoList e := by
  have hnames : ∀ name ∈ widthNames ++ rowNames, localName name ≠ "mergeCells" := by decide
  refine List.forall_mem_cons.2 ⟨fun _ _ h => Event.noConfusion h, List.forall_mem_cons.2
    ⟨fun _ _ h => Event.noConfusion h, List.forall_mem_cons.2 ⟨?_, ?_⟩⟩⟩
  · intro name raw h
    obtain ⟨rfl, -⟩ := Event.opening.inj h
    decide
  · refine opensNoList_of_tidy hnames fun n hn => ?_
    rcases List.mem_append.1 hn with hn | hn
    · exact (tidy_of_mem_widthNodes n hn).mono (by decide)
    · rw [List.mem_singleton.1 hn]
      exact (tidy_rowsNode formats firstText s).mono (by decide)

variable {s} (hplain : ∀ v ∈ s.validations, v.fields.Plain)
include hplain

private theorem opensNoList_behind : ∀ e ∈ eventsBehind s, OpensNoList e := by
  intro e he
  rcases List.mem_append.1 he with he | he
  · exact opensNoList_of_tidy (by decide) (tidy_of_mem_validations hplain) e he
  · rw [List.mem_singleton.1 he]
    exact opensNoList_closing _

theorem tolerantEvents_written : tolerantEvents (document (s.node formats firstText)) =
    eventsBefore formats firstText s ++ (s.mergeNodes.flatMap Node.events ++ eventsBehind s) := by
  rw [tolerantEvents_document (tidy_node formats firstText hplain), node_eq, events_element,
    gridNodes]
  simp [eventsBefore, eventsBehind]

end written

/-- The regions of the part that is written for a sheet. -/
theorem ofEvents_written {s : WrittenSheet} (hs : s.Sound) (formats : List Format)
    (firstText : Nat) :
    ofEvents (tolerantEvents (document (s.node formats firstText))) = s.merges := by
  have hplain : ∀ v ∈ s.validations, v.fields.Plain := fun v hv => (hs.validations v hv).1
  rw [tolerantEvents_written formats firstText hplain,
    ofEvents_append (opensNoList_before formats firstText s)]
  by_cases hempty : s.merges = []
  · have hnone : s.mergeNodes = [] := by
      rw [mergeNodes, hempty]
      rfl
    have hread := ofEvents_append (opensNoList_behind hplain) []
    rw [List.append_nil] at hread
    rw [hnone, List.flatMap_nil, List.nil_append, hread, hempty]
    rfl
  · have hlist : s.mergeNodes = [.element "mergeCells"
        [("count", Text.decimal (s.merges.map fun r =>
          Node.leaf "mergeCell" [("ref", r.text)]).length)]
        (s.merges.map fun r => .leaf "mergeCell" [("ref", r.text)])] := by
      rw [mergeNodes, listNode, if_neg]
      simpa using hempty
    rw [hlist, List.flatMap_singleton, events_element, List.append_assoc, List.append_assoc,
      List.singleton_append, List.singleton_append, ofEvents, if_pos (by decide),
      untilEnd?_regions hs.merges, Option.getD_some]

end StoredMerge

/-- Regions that are no single cells and differ are all added. -/
theorem Sheet.foldl_pushRange_eq {ms rs : List Range} (hsingle : ∀ r ∈ rs, r.isSingle = false)
    (hnodup : (ms ++ rs).Nodup) : rs.foldl pushRange ms = ms ++ rs := by
  induction rs generalizing ms with
  | nil => rw [List.foldl_nil, List.append_nil]
  | cons r rs ih =>
    obtain ⟨hr, hrest⟩ := List.forall_mem_cons.1 hsingle
    have hnew : r ∉ ms := fun hmem =>
      (List.nodup_append.1 hnodup).2.2 r hmem r List.mem_cons_self rfl
    have hpush : pushRange ms r = ms ++ [r] := by
      rw [pushRange, hr, Bool.false_or, if_neg (by simpa using hnew)]
    rw [List.foldl_cons, hpush, ih hrest (by simpa using hnodup), List.append_assoc,
      List.singleton_append]

namespace Package

/-- The merged regions of a sheet that is read. -/
theorem merges_of_sheet? {p : Package} {shelf : Shelf} {entries : List SheetEntry} {name : String}
    {look : SheetLook} {s : Sheet} (h : p.sheet? shelf entries name look = some s) :
    ∃ events, (partOf? entries name).bind p.tolerantEvents? = some events ∧
      s.merges = (StoredMerge.ofEvents events).foldl Sheet.pushRange [] := by
  obtain ⟨events, hevents, h⟩ := Option.bind_eq_some_iff.1 h
  obtain ⟨values, -, h⟩ := Option.bind_eq_some_iff.1 h
  cases h
  exact ⟨events, hevents, rfl⟩

/-- Under names that differ each sheet is found in its own part. -/
theorem partOf?_numbered_of_nodup {names : List String} (hnames : names.Nodup) {i : Nat}
    {name : String} (h : names[i]? = some name) :
    partOf? (SheetEntry.numbered names) name = some (sheetPart i) := by
  have hfind : (SheetEntry.numbered names).find? (fun e => e.name = name) =
      some (SheetEntry.ofNumber name i) :=
    find?_numbered (f := fun e => SheetEntry.ofNumber e.1 e.2) hnames h (fun _ => rfl)
      fun _ => Iff.rfl
  rw [partOf?, hfind]
  rfl

end Package

namespace Workbook
open Package WrittenSheet

/-- Every sheet comes back with the merged regions that were written for it, if none of its regions
is a single cell. -/
theorem merges_load {w w' : Workbook} {p : Package} (hsave : w.save = .ok p)
    (hload : p.load = .ok w') {i : Nat} {s : Sheet} (hs : w.sheets[i]? = some s)
    (hsingle : ∀ r ∈ s.merges, r.isSingle = false) :
    ∃ s', w'.sheets[i]? = some s' ∧ s'.merges = mergesOf s := by
  obtain ⟨sheets, written, _, _, s', ⟨rfl, hnames⟩, ⟨hwritten, hof⟩, -, hs', hsheet⟩ :=
    exists_sheet?_of_load hsave hload hs
  refine ⟨s', hs', ?_⟩
  have hname : (sheets.map WrittenSheet.name)[i]? = some written.name := by
    rw [List.getElem?_map, hwritten]
    rfl
  obtain ⟨events, hevents, hmerges⟩ := merges_of_sheet? hsheet
  rw [partOf?_numbered_of_nodup hnames hname, Option.bind_some, tolerantEvents?_sheet hwritten,
    Option.some.injEq] at hevents
  have hselection := selection_mergesOf s
  have hnodup : (mergesOf s).Nodup := by
    refine hselection.disjoint.imp fun {a b} hapart heq => hapart ?_
    rw [heq]
    exact Range.Meets.refl b
  rw [hmerges, ← hevents, partText, StoredMerge.ofEvents_written hof.sound, hof.merges_eq,
    Sheet.foldl_pushRange_eq (fun r hr => hsingle r (hselection.sublist.subset hr)) hnodup,
    List.nil_append]

/-- What becomes of the merged regions of a sheet that can be written. They are chosen from front to
back as long as they meet none that was chosen; in a saved workbook that is loaded again, which is
possible unless some text looks like rich text, the sheet has those that were chosen. A region of
one cell, which no edit of a sheet makes, would be dropped by the reader. -/
theorem merges_selection {s : Sheet} {written : WrittenSheet} (h : ofSheet s = .ok written) :
    Range.Selection s.merges written.merges ∧
      (∀ a b : Range, a.overlaps b = true ↔ ∃ c, a.Covers c ∧ b.Covers c) ∧
      ∀ (w : Workbook) (p : Package) (i : Nat), w.save = .ok p → w.sheets[i]? = some s →
        (w.WithoutRichTexts → ∃ w', p.load = .ok w') ∧
        ((∀ r ∈ s.merges, r.isSingle = false) → ∀ w', p.load = .ok w' →
          ∃ s', w'.sheets[i]? = some s' ∧ s'.merges = written.merges ∧
            ((s.merges.Pairwise fun a b => ¬a.Meets b) → s'.merges = s.merges)) := by
  have hselection := selection_mergesOf s
  rw [(isOf_of_ofSheet h).merges_eq]
  refine ⟨hselection, fun _ _ => Range.overlaps_iff_meets, ?_⟩
  intro w p i hsave hs
  refine ⟨exists_load hsave, fun hsingle w' hload => ?_⟩
  obtain ⟨s', hs', hmerges⟩ := merges_load hsave hload hs hsingle
  exact ⟨s', hs', hmerges, fun hdisjoint => hmerges.trans (hselection.whole hdisjoint)⟩

/-- A sheet with three merged regions, of which the middle one meets both others. -/
def bannered : Sheet :=
  { Sheet.named "S" with
    merges := [.ofCorners ⟨1, 1⟩ ⟨2, 2⟩, .ofCorners ⟨2, 2⟩ ⟨3, 3⟩, .ofCorners ⟨1, 3⟩ ⟨2, 3⟩] }

/-- The first region and the last are written, and come back. -/
theorem bannered_merges_selection : ∃ p w' s', (Workbook.mk [bannered]).save = .ok p ∧
    p.load = .ok w' ∧ w'.sheets[0]? = some s' ∧
      s'.merges = [.ofCorners ⟨1, 1⟩ ⟨2, 2⟩, .ofCorners ⟨1, 3⟩ ⟨2, 3⟩] := by
  obtain ⟨written, hwritten⟩ : ∃ written, ofSheet bannered = .ok written := ⟨_, rfl⟩
  obtain ⟨p, hsave⟩ : ∃ p, (Workbook.mk [bannered]).save = .ok p := ⟨_, rfl⟩
  obtain ⟨-, -, hcarried⟩ := merges_selection hwritten
  obtain ⟨hexists, hreturn⟩ := hcarried ⟨[bannered]⟩ p 0 hsave rfl
  obtain ⟨w', hload⟩ := hexists fun s hs place c hc => by
    obtain rfl := List.mem_singleton.1 hs
    cases hc
  obtain ⟨s', hs', hmerges, -⟩ := hreturn (by decide) w' hload
  refine ⟨p, w', s', hsave, hload, hs', ?_⟩
  rw [hmerges, (isOf_of_ofSheet hwritten).merges_eq]
  decide

end Workbook

end SheetTemplate
