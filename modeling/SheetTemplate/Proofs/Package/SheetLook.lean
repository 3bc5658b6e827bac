import SheetTemplate.Package.SheetLook
import SheetTemplate.Proofs.Grid.Naming
import SheetTemplate.Proofs.Grid.Table
import SheetTemplate.Proofs.Package.StoredValidation
import SheetTemplate.Proofs.Xml.Fold
import SheetTemplate.Proofs.Xml.Printed
/-!
How the look of a printed sheet is read. Elements in front of the validations say nothing about
validations; each validation then counts for the cells that it names.
-/
namespace SheetTemplate

instance : Std.Associative LookEdit.andThen where
  assoc a b c := by
    unfold LookEdit.andThen
    cases hc : c.format with
    | some p => simp [hc]
    | none =>
      cases hb : b.format with
      | some p => simp [hb]
      | none => simp [Option.or_assoc]

def LookEdit.IsPlain (e : LookEdit) : Prop :=
  e.validation = none ∧ ∀ p, e.format = some p → p.validation = none

namespace LookEdit

theorem IsPlain.andThen {a b : LookEdit} (ha : a.IsPlain) (hb : b.IsPlain) :
    (a.andThen b).IsPlain := by
  unfold LookEdit.andThen
  cases hf : b.format with
  | some p => exact hb
  | none => exact ⟨by simp [ha.1, hb.1], ha.2⟩

theorem IsPlain.result {e : LookEdit} (h : e.IsPlain) : e.result.validation = none := by
  obtain ⟨hvalidation, hformat⟩ := h
  unfold LookEdit.result
  cases hf : e.format with
  | none => simp [hvalidation]
  | some p => simp [hvalidation, hformat p hf]

theorem IsPlain.joined {edits : List (CellRef × LookEdit)} (h : ∀ e ∈ edits, e.2.IsPlain)
    {place : CellRef} {e : LookEdit}
    (he : Table.joined LookEdit.andThen place edits = some e) : e.IsPlain := by
  induction edits generalizing e with
  | nil => cases he
  | cons d edits ih =>
    obtain ⟨hd, hrest⟩ := List.forall_mem_cons.1 h
    have hfirst {a : LookEdit} (ha : (if d.1 = place then some d.2 else none) = some a) :
        a.IsPlain := by
      split at ha
      · exact Option.some.inj ha ▸ hd
      · cases ha
    rw [Table.joined, Option.merge_eq_some_iff] at he
    rcases he with ⟨hhere, -⟩ | ⟨-, hthere⟩ | ⟨a, b, hhere, hthere, rfl⟩
    · exact hfirst hhere
    · exact ih hrest hthere
    · exact (hfirst hhere).andThen (ih hrest hthere)

end LookEdit

namespace SheetLook
open Xml

def Slot.tag : Slot → String
  | .first => "formula1"
  | .second => "formula2"

def Slot.put (slot : Slot) (formula : Option String) (v : StoredValidation) : StoredValidation :=
  match slot with
  | .first => { v with first := formula }
  | .second => { v with second := formula }

section validations
variable {formats : Array Presentation}

/-- A text as it stands between tags for a strict reader. -/
theorem stripped_text (s : String) : (Node.text s).events.filterMap Event.stripped? =
    ((StoredValidation.formulaFound? s).map fun t => Event.text (escapeText t)).toList := by
  unfold StoredValidation.formulaFound?
  by_cases hs : s = ""
  · rw [hs]
    rfl
  · rw [Node.events, if_neg (mt String.isEmpty_iff.1 hs), List.filterMap_cons, List.filterMap_nil,
      Event.stripped?, stripBoth_escapeText]
    by_cases hblank : Text.stripBoth isSpace s.toList = []
    · rw [hblank]
      rfl
    · have hfull : escapeText (String.ofList (Text.stripBoth isSpace s.toList)) ≠ [] := fun h =>
        hblank (String.ofList_eq_empty_iff.1 (escapeText_eq_nil h))
      simp [hblank, hfull]

private theorem stripped_holding (name : String) (fields : Fields) (s : String) :
    (Node.holding name fields s).events.filterMap Event.stripped? =
      .opening name fields.chars ::
        (((StoredValidation.formulaFound? s).map fun t => Event.text (escapeText t)).toList
          ++ [.closing name]) := by
  rw [Node.holding, events_element, List.flatMap_singleton, List.filterMap_append,
    List.filterMap_append, stripped_text]
  rfl

theorem stripped_element (name : String) (fields : Fields) (children : List Node) :
    (Node.element name fields children).events.filterMap Event.stripped? =
      .opening name fields.chars ::
        ((children.flatMap Node.events).filterMap Event.stripped? ++ [.closing name]) := by
  rw [events_element, List.filterMap_append, List.filterMap_append]
  rfl

/-- Reading a formula puts its text into its slot. -/
theorem foldlM_formula (formats : Array Presentation) (slot : Slot) (formula : Option String)
    {r : Reading} {v : StoredValidation} (hv : r.validation = some v) (hslot : r.slot = none)
    (hempty : slot.put none v = v) :
    List.foldlM (readEvent formats) r
        (((formula.toList.map (Node.holding slot.tag [])).flatMap Node.events).filterMap
          Event.stripped?) =
      .ok { r with
        validation := some (slot.put (formula.bind StoredValidation.formulaFound?) v) } := by
  cases formula with
  | none =>
    rw [Option.bind_none, hempty, ← hv]
    rfl
  | some s =>
    rw [Option.toList_some, List.map_singleton, List.flatMap_singleton, stripped_holding,
      Option.bind_some]
    have hopen : readEvent formats r (.opening slot.tag (Fields.chars [])) =
        .ok { r with slot := some slot } := by
      cases slot <;> simp [readEvent, Slot.tag, localName_eq_self, readTag, hv]
    have hclose (w : StoredValidation) :
        readEvent formats { r with validation := some w, slot := some slot } (.closing slot.tag) =
          .ok { r with validation := some w } := by
      cases slot <;> simp [readEvent, Slot.tag, localName_eq_self, readClosing, hslot]
    have hr : { r with slot := some slot } =
        { r with validation := some v, slot := some slot } := by
      rw [hv]
    rw [List.foldlM_cons, hopen, hr]
    cases hfound : StoredValidation.formulaFound? s with
    | none =>
      rw [hempty]
      exact hclose v
    | some t =>
      have hread : readEvent formats { r with validation := some v, slot := some slot }
          (.text (escapeText t)) =
            .ok { r with validation := some (slot.put (some t) v), slot := some slot } := by
        simp only [readEvent, readText, unescape?_escapeText]
        cases slot <;> rfl
      exact (congrArg (· >>= fun r => readEvent formats r (.closing slot.tag)) hread).trans
        (hclose _)

/-- Reading a printed validation puts what is found of it over what was said before. -/
theorem foldlM_node {v : StoredValidation} (hplain : v.fields.Plain)
    (hlocal : v.fields.localNames = v.fields) {r : Reading} (hslot : r.slot = none) :
    List.foldlM (readEvent formats) r (v.node.events.filterMap Event.stripped?) =
      .ok { r with validation := none, edits := (spread v.found).reverse ++ r.edits } := by
  have hopen : readEvent formats r (.opening "dataValidation" v.fields.chars) =
      .ok { r with validation := some { fields := v.fields } } := by
    simp [readEvent, localName_eq_self, readTag, fieldsOf, fields?_chars hplain, hlocal,
      Except.map]
  have hfirst := foldlM_formula formats .first v.first
    (r := { r with validation := some { fields := v.fields } }) rfl hslot rfl
  have hsecond := foldlM_formula formats .second v.second
    (r := { r with validation := some { v.found with second := none } }) rfl hslot rfl
  simp only [Slot.tag] at hfirst hsecond
  have hclose : readEvent formats { r with validation := some v.found }
      (.closing "dataValidation") =
        .ok { r with validation := none, edits := (spread v.found).reverse ++ r.edits } := by
    simp [readEvent, localName_eq_self, readClosing]
  rw [StoredValidation.node, stripped_element, List.flatMap_append, List.filterMap_append,
    List.append_assoc, List.foldlM_cons, hopen]
  refine (foldlM_append_of_eq_pure hfirst _).trans ((foldlM_append_of_eq_pure hsecond _).trans ?_)
  exact hclose

def Calm : Event → Prop
  | .opening name raw => localName name ≠ "dataValidation" ∧ (fields? raw).isSome
  | .selfClosing _ _ => False
  | .broken => False
  | _ => True

/-- The reader is in no validation, and nothing was said about one. -/
structure Quiet (r : Reading) : Prop where
  validation : r.validation = none
  slot : r.slot = none
  edits : ∀ e ∈ r.edits, e.2.IsPlain

theorem calm_of_printed {names : List String} (hnames : "dataValidation" ∉ names)
    (hlocal : ∀ name ∈ names, localName name = name) {e : Event} (h : e.Printed names) :
    Calm e := by
  cases e with
  | opening name raw =>
    obtain ⟨hmem, fields, hplain, rfl⟩ := h
    have hread : (fields? fields.chars).isSome := by
      rw [fields?_chars hplain]
      rfl
    exact ⟨fun hname => hnames (hname ▸ (hlocal name hmem).symm ▸ hmem), hread⟩
  | selfClosing _ _ => exact h
  | broken => exact h
  | _ => trivial

/-- A format without a validation gives an edit without one. -/
theorem isPlain_of_mem_cellFormat (hformats : ∀ p ∈ formats, p.validation = none) {fields : Fields}
    {e : CellRef × LookEdit} (h : e ∈ cellFormat formats fields) : e.2.IsPlain := by
  unfold cellFormat at h
  split at h
  · rename_i place format _ hindex
    split at h
    · cases h
    · rw [List.mem_singleton.1 h]
      refine ⟨rfl, fun p hp => ?_⟩
      obtain ⟨i, -, hi⟩ := Option.bind_eq_some_iff.1 hindex
      rw [← Option.some.inj hp]
      exact hformats format (Array.mem_of_getElem? hi)
  · cases h

theorem Quiet.readEvent (hformats : ∀ p ∈ formats, p.validation = none) {r : Reading} (h : Quiet r)
    {e : Event} (he : Calm e) : ∃ r', readEvent formats r e = .ok r' ∧ Quiet r' := by
  obtain ⟨hvalidation, hslot, hedits⟩ := h
  cases e with
  | opening name raw =>
    obtain ⟨hname, hfields⟩ := he
    obtain ⟨fields, hfields⟩ := Option.isSome_iff_exists.1 hfields
    simp only [SheetLook.readEvent, readTag, fieldsOf, hfields, Except.map, Bool.not_true,
      Bool.false_eq_true, if_false, hvalidation, Option.isSome_none]
    split
    · exact ⟨_, rfl, rfl, hslot, hedits⟩
    · refine ⟨_, rfl, rfl, hslot, fun e he => ?_⟩
      rcases List.mem_append.1 he with he | he
      · exact isPlain_of_mem_cellFormat hformats he
      · exact hedits e he
    · exact ⟨r, if_neg hname, hvalidation, hslot, hedits⟩
  | closing name =>
    refine ⟨_, rfl, ?_⟩
    unfold readClosing
    split
    · exact ⟨hvalidation, rfl, hedits⟩
    · exact ⟨hvalidation, rfl, hedits⟩
    · rw [hvalidation]
      exact ⟨hvalidation, hslot, hedits⟩
    · exact ⟨hvalidation, hslot, hedits⟩
  | text raw =>
    refine ⟨r, ?_, hvalidation, hslot, hedits⟩
    rw [SheetLook.readEvent, readText, hvalidation]
  | other => exact ⟨r, rfl, hvalidation, hslot, hedits⟩
  | selfClosing _ _ => exact he.elim
  | broken => exact he.elim

theorem Quiet.foldlM (hformats : ∀ p ∈ formats, p.validation = none) {r : Reading} (h : Quiet r)
    {events : List Event} (hevents : ∀ e ∈ events, Calm e) :
    ∃ r', List.foldlM (SheetLook.readEvent formats) r events = .ok r' ∧ Quiet r' :=
  exists_foldlM (fun e he _ hr => hr.readEvent hformats (hevents e he)) h

end validations

end SheetLook

end SheetTemplate
