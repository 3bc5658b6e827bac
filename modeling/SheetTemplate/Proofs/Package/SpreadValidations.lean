import SheetTemplate.Proofs.Grid.Range
import SheetTemplate.Proofs.Package.LookReading
import SheetTemplate.Proofs.Package.Styles
/-!
Which validation a cell gets from a worksheet part. Edits of one kind replace each other, so the
last element that reaches a place counts for it; and as validations come behind the cells, no format
takes one away again.
-/
namespace SheetTemplate
open Xml

/-- What the last element of a list is related to, among those that are related to something. -/
def LastOf {α β : Type} (R : α → β → Prop) (l : List α) : Option β → Prop
  | some b => ∃ before a after, l = before ++ a :: after ∧ R a b ∧ ∀ d ∈ after, ∀ b', ¬R d b'
  | none => ∀ a ∈ l, ∀ b, ¬R a b

theorem lastOf_iff_findSome? {α β : Type} {R : α → β → Prop} {f : α → Option β}
    (h : ∀ a b, f a = some b ↔ R a b) {l : List α} {b? : Option β} :
    LastOf R l b? ↔ l.reverse.findSome? f = b? := by
  have hnone {a : α} : (∀ b, ¬R a b) ↔ f a = none := by
    rw [Option.eq_none_iff_forall_ne_some]
    exact forall_congr' fun b => not_congr (h a b).symm
  cases b? with
  | none =>
    simp only [LastOf, hnone, List.findSome?_eq_none_iff, List.mem_reverse]
  | some b =>
    simp only [LastOf, hnone, List.findSome?_eq_some_iff]
    simp only [← h]
    constructor
    · rintro ⟨before, a, after, rfl, ha, hafter⟩
      exact ⟨after.reverse, a, before.reverse, by simp, ha, fun d hd =>
        hafter d (List.mem_reverse.1 hd)⟩
    · rintro ⟨after, a, before, hsplit, ha, hafter⟩
      refine ⟨before.reverse, a, after.reverse, ?_, ha, fun d hd =>
        hafter d (List.mem_reverse.1 hd)⟩
      rw [← List.reverse_reverse l, hsplit]
      simp

namespace SheetLook

def sqrefWords (fields : Fields) : List String :=
  Text.words Text.isBlank ((fields.get? "sqref").getD "")

def rangeOf? (word : String) : Option Range :=
  if word.toList.contains ':' then Range.ofText? word
  else (CellRef.ofText? word).map fun c => Range.ofCorners c c

/-- The element gives a cell a format that sets something. -/
structure GivesFormat (formats : Array Presentation) (place : CellRef) (e : Branch)
    (p : Presentation) : Prop where
  isCell : e.name = "c"
  place_eq : (e.fields.get? "r").bind CellRef.ofText? = some place
  format_eq : ((e.fields.natural? (twoTo 64) "s").bind fun i => formats[i]?) = some p
  not_default : p.isDefault = false

/-- The element stores a validation that is supported, and one of its areas that are not too large
has the cell in it. -/
structure GivesValidation (place : CellRef) (e : Branch) (v : Validation) : Prop where
  isValidation : e.name = "dataValidation"
  supported : (storedIn e).validation? = some v
  covered : ∃ word ∈ sqrefWords e.fields, ∃ range,
    rangeOf? word = some range ∧ range.size ≤ largestArea ∧ range.Covers place

def shown : Option Presentation → Option Validation → Option Presentation
  | none, none => none
  | format?, validation? => some { format?.getD {} with validation := validation? }

/-- No cell comes behind an element for a validation, and each such element holds what a validation
consists of. -/
structure Arranged (root : Node) : Prop where
  behind : root.branches.Pairwise fun a b => a.name = "dataValidation" → b.name ≠ "c"
  plain : ∀ e ∈ root.branches, e.name = "dataValidation" → IsPlainValidation e

instance (root : Node) : Decidable (Arranged root) :=
  decidable_of_iff ((root.branches.Pairwise fun a b => a.name = "dataValidation" → b.name ≠ "c") ∧
      ∀ e ∈ root.branches, e.name = "dataValidation" → IsPlainValidation e)
    ⟨fun ⟨hbehind, hplain⟩ => ⟨hbehind, hplain⟩, fun h => ⟨h.behind, h.plain⟩⟩

section shown
variable (format? : Option Presentation) (validation? : Option Validation)

private theorem shown_validation :
    (shown format? validation?).bind Presentation.validation = validation? := by
  cases format? <;> cases validation? <;> rfl

private theorem shown_style :
    (shown format? validation?).bind Presentation.style = format?.bind Presentation.style := by
  cases format? <;> cases validation? <;> rfl

private theorem shown_protection :
    (shown format? validation?).bind Presentation.protection =
      format?.bind Presentation.protection := by
  cases format? <;> cases validation? <;> rfl

end shown

/-- With a validation a presentation sets something; without one it is the format. -/
theorem isDefault_of_shown {format? : Option Presentation} {validation? : Option Validation}
    (hformat : ∀ q, format? = some q → q.validation = none ∧ q.isDefault = false)
    {p : Presentation} (h : shown format? validation? = some p) : p.isDefault = false := by
  cases validation? with
  | some v =>
    cases format? <;> cases h <;> simp [Presentation.isDefault]
  | none =>
    cases format? with
    | none => cases h
    | some q =>
      obtain ⟨hnone, hdefault⟩ := hformat q rfl
      cases h
      rw [← hdefault]
      simp only [Presentation.isDefault, Option.getD_some, hnone]

/-! ### Edits of one element -/

def formatEdits (formats : Array Presentation) (e : Branch) : List (CellRef × LookEdit) :=
  if e.name = "c" then cellFormat formats e.fields else []

def spreadEdits (e : Branch) : List (CellRef × LookEdit) :=
  if e.name = "dataValidation" then spread (storedIn e) else []

def formatAt? (formats : Array Presentation) (place : CellRef) (e : Branch) :
    Option Presentation :=
  if e.name = "c" ∧ (e.fields.get? "r").bind CellRef.ofText? = some place then
    ((e.fields.natural? (twoTo 64) "s").bind fun i => formats[i]?).filter (!·.isDefault)
  else none

def validationAt? (place : CellRef) (e : Branch) : Option Validation :=
  if e.name = "dataValidation" ∧ place ∈ ((sqrefWords e.fields).filterMap area?).flatMap Range.cells
  then (storedIn e).validation? else none

section elements
variable {formats : Array Presentation} {place : CellRef} {e : Branch}

theorem formatAt?_eq_some_iff {p : Presentation} :
    formatAt? formats place e = some p ↔ GivesFormat formats place e p := by
  rw [formatAt?, Option.ite_none_right_eq_some, Option.filter_eq_some_iff, Bool.not_eq_true']
  constructor
  · rintro ⟨⟨hname, hplace⟩, hformat, hdefault⟩
    exact ⟨hname, hplace, hformat, hdefault⟩
  · rintro ⟨hname, hplace, hformat, hdefault⟩
    exact ⟨⟨hname, hplace⟩, hformat, hdefault⟩

private theorem area?_eq_some_iff {word : String} {range : Range} :
    area? word = some range ↔ rangeOf? word = some range ∧ range.size ≤ largestArea := by
  have harea : area? word = (rangeOf? word).filter fun range => range.size ≤ largestArea := rfl
  rw [harea, Option.filter_eq_some_iff, decide_eq_true_eq]

theorem validationAt?_eq_some_iff {v : Validation} :
    validationAt? place e = some v ↔ GivesValidation place e v := by
  rw [validationAt?, Option.ite_none_right_eq_some]
  simp only [List.mem_flatMap, List.mem_filterMap, area?_eq_some_iff, Range.mem_cells_iff]
  constructor
  · rintro ⟨⟨hname, range, ⟨word, hword, hrange, hsize⟩, hcovers⟩, hv⟩
    exact ⟨hname, hv, word, hword, range, hrange, hsize, hcovers⟩
  · rintro ⟨hname, hv, word, hword, range, hrange, hsize, hcovers⟩
    exact ⟨⟨hname, range, ⟨word, hword, hrange, hsize⟩, hcovers⟩, hv⟩

/-- The edit of a cell is for its place and says nothing of validations. -/
theorem mem_formatEdits {edit : LookEdit} : (place, edit) ∈ formatEdits formats e ↔
    (formatAt? formats place e).map (fun p => { format := some p }) = some edit := by
  unfold formatEdits cellFormat formatAt?
  by_cases hname : e.name = "c"
  · rw [if_pos hname]
    cases hplace : (e.fields.get? "r").bind CellRef.ofText? with
    | none => simp
    | some named =>
      cases hformat : (e.fields.natural? (twoTo 64) "s").bind fun i => formats[i]? with
      | none => simp
      | some p =>
        cases hdefault : p.isDefault with
        | true => simp [Option.filter_some, hdefault]
        | false => simp [Option.filter_some, hname, hdefault, eq_comm]
  · simp [hname]

/-- The edits of a validation are for the cells of its areas and say nothing of formats. -/
theorem mem_spreadEdits {edit : LookEdit} : (place, edit) ∈ spreadEdits e ↔
    (validationAt? place e).map (fun v => { validation := some v }) = some edit := by
  unfold spreadEdits spread validationAt?
  by_cases hname : e.name = "dataValidation"
  · rw [if_pos hname]
    cases hv : (storedIn e).validation? with
    | none => simp
    | some v =>
      simp only [List.mem_flatMap, List.mem_map, Prod.mk.injEq, hname, true_and,
        Option.map_eq_some_iff, Option.ite_none_right_eq_some, Option.some.injEq]
      constructor
      · rintro ⟨range, hrange, named, hnamed, rfl, hedit⟩
        exact ⟨v, ⟨⟨range, hrange, hnamed⟩, rfl⟩, hedit⟩
      · rintro ⟨_, ⟨⟨range, hrange, hplace⟩, rfl⟩, hedit⟩
        exact ⟨range, hrange, place, hplace, rfl, hedit⟩
  · simp [hname]

private theorem mem_spreadEdits_iff {edit : LookEdit} : (place, edit) ∈ spreadEdits e ↔
    ∃ v, GivesValidation place e v ∧ edit = { validation := some v } := by
  rw [mem_spreadEdits, Option.map_eq_some_iff]
  exact exists_congr fun v => and_congr validationAt?_eq_some_iff eq_comm

/-- A tag makes edits of one kind. -/
theorem editsOf_eq_append (formats : Array Presentation) (e : Branch) :
    editsOf formats e = formatEdits formats e ++ spreadEdits e := by
  unfold editsOf formatEdits spreadEdits
  by_cases hname : e.name = "c"
  · simp [hname]
  · simp [hname]

end elements

/-! ### Edits of a part -/

/-- Where no cell comes behind a validation, the validations can be spread after all formats. -/
theorem flatMap_editsOf (formats : Array Presentation) {es : List Branch}
    (h : es.Pairwise fun a b => a.name = "dataValidation" → b.name ≠ "c") :
    es.flatMap (editsOf formats) =
      es.flatMap (formatEdits formats) ++ es.flatMap spreadEdits := by
  induction es with
  | nil => rfl
  | cons e es ih =>
    obtain ⟨hbehind, hrest⟩ := List.pairwise_cons.1 h
    rw [List.flatMap_cons, List.flatMap_cons, List.flatMap_cons, ih hrest, editsOf_eq_append]
    by_cases hname : e.name = "dataValidation"
    · have hnone : es.flatMap (formatEdits formats) = [] :=
        List.flatMap_eq_nil_iff.2 fun b hb => if_neg (hbehind b hb hname)
      rw [hnone, List.append_nil, List.nil_append, List.append_assoc]
    · have hnone : spreadEdits e = [] := if_neg hname
      rw [hnone, List.append_nil, List.nil_append, List.append_assoc]

/-- Where elements make edits of one kind, of which a later one replaces an earlier one, the edit of
the last element that makes one for a cell is left. -/
theorem joined_flatMap {α : Type} {make : α → LookEdit}
    (hlast : ∀ a b, (make a).andThen (make b) = make b)
    {edits : Branch → List (CellRef × LookEdit)} {made? : CellRef → Branch → Option α}
    (hmem : ∀ place e edit, (place, edit) ∈ edits e ↔ (made? place e).map make = some edit)
    (place : CellRef) (es : List Branch) :
    Table.joined LookEdit.andThen place (es.flatMap edits) =
      (es.reverse.findSome? (made? place)).map make := by
  have hmade : ∀ d ∈ es.flatMap edits, ∃ a, make a = d.2 := by
    rintro ⟨named, edit⟩ hd
    obtain ⟨e, -, hd⟩ := List.mem_flatMap.1 hd
    obtain ⟨a, -, ha⟩ := Option.map_eq_some_iff.1 ((hmem named e edit).1 hd)
    exact ⟨a, ha⟩
  have hlookup : (fun e => Table.lookup place (edits e).reverse) = Option.map make ∘ made? place :=
    funext fun e => Table.lookup_eq_of_mem_iff fun edit => by
      rw [List.mem_reverse]
      exact hmem place e edit
  rw [Table.joined_eq_lookup_reverse, Table.lookup_reverse_flatMap, List.map_findSome?, hlookup]
  intro d hd e he
  obtain ⟨a, ha⟩ := hmade d hd
  obtain ⟨b, hb⟩ := hmade e he
  rw [← ha, ← hb, hlast]

section part
variable (formats : Array Presentation) (place : CellRef) {es : List Branch}

theorem plain_of_findSome? (hformats : ∀ p ∈ formats, p.validation = none) {p : Presentation}
    (h : es.reverse.findSome? (formatAt? formats place) = some p) :
    p.validation = none ∧ p.isDefault = false := by
  obtain ⟨e, -, hp⟩ := List.exists_of_findSome?_eq_some h
  have hgives := formatAt?_eq_some_iff.1 hp
  obtain ⟨i, -, hi⟩ := Option.bind_eq_some_iff.1 hgives.format_eq
  exact ⟨hformats p (Array.mem_of_getElem? hi), hgives.not_default⟩

/-- The edits of a cell make its last format with its last validation. -/
theorem find?_ofEdits_editsOf (hformats : ∀ p ∈ formats, p.validation = none)
    (hbehind : es.Pairwise fun a b => a.name = "dataValidation" → b.name ≠ "c")
    (widths : List (Nat × Binary64)) :
    (ofEdits (es.flatMap (editsOf formats)) widths).cells.find? place =
      shown (es.reverse.findSome? (formatAt? formats place))
        (es.reverse.findSome? (validationAt? place)) := by
  rw [ofEdits, Table.find?_mapValues, Table.find?_ofListWith, flatMap_editsOf formats hbehind,
    Table.joined_append, joined_flatMap (fun _ _ => rfl) fun _ _ _ => mem_formatEdits,
    joined_flatMap (fun _ _ => rfl) fun _ _ _ => mem_spreadEdits]
  cases hp : es.reverse.findSome? (formatAt? formats place) with
  | none => cases es.reverse.findSome? (validationAt? place) <;> rfl
  | some p =>
    have hnone : p.validation = none := (plain_of_findSome? formats place hformats hp).1
    cases es.reverse.findSome? (validationAt? place) with
    | none =>
      cases p
      cases hnone
      rfl
    | some v => rfl

end part

/-- The rows and the columns of a range that a text names can be counted in 32 bits, and its cells
in 64 bits. -/
theorem rangeOf?_fits {word : String} {range : Range} (h : rangeOf? word = some range) :
    range.bottom - range.top + 1 < twoTo 32 ∧ range.right - range.left + 1 < twoTo 32 ∧
      range.size < twoTo 64 := by
  have hnameable : range.Nameable := by
    unfold rangeOf? at h
    split at h
    · exact Range.nameable_of_ofText? h
    · obtain ⟨place, hplace, rfl⟩ := Option.map_eq_some_iff.1 h
      exact Range.nameable_ofCorners hplace hplace
  have htop := hnameable.top_pos
  have hbottom := hnameable.bottom_lt
  have hright := hnameable.right_le
  have htwo : twoTo 32 = 4294967296 := by decide +kernel
  have hrows : range.bottom - range.top + 1 < twoTo 32 := by
    have := range.top_le_bottom
    omega
  have hcolumns : range.right - range.left + 1 < twoTo 32 := by omega
  have hsquare : twoTo 64 = twoTo 32 * twoTo 32 := by decide +kernel
  exact ⟨hrows, hcolumns, hsquare ▸ Nat.mul_lt_mul'' hrows hcolumns⟩

/-- How the elements of a part make a look. -/
structure Presents (formats : Array Presentation) (root : Node) (look : SheetLook) : Prop where
  /-- A cell has the validation of the last element that gives it one. -/
  validation_iff : ∀ place validation?,
    (look.cells.find? place).bind Presentation.validation = validation? ↔
      LastOf (GivesValidation place) root.branches validation?
  /-- Style and protection of a cell are those of its last format. -/
  exists_format : ∀ place, ∃ format?,
    LastOf (GivesFormat formats place) root.branches format? ∧
      (look.cells.find? place).bind Presentation.style = format?.bind Presentation.style ∧
      (look.cells.find? place).bind Presentation.protection =
        format?.bind Presentation.protection
  widths_eq : look.widths = Table.ofList (root.branches.flatMap widthsOf)
  not_default : ∀ place p, look.cells.find? place = some p → p.isDefault = false

private theorem presents_ofEdits {formats : Array Presentation} {root : Node}
    (hformats : ∀ p ∈ formats, p.validation = none) (h : Arranged root) :
    Presents formats root (ofEdits (root.branches.flatMap (editsOf formats))
      (root.branches.flatMap widthsOf)) := by
  have hfind (place : CellRef) := find?_ofEdits_editsOf formats place hformats h.behind
    (root.branches.flatMap widthsOf)
  constructor
  · intro place validation?
    rw [hfind, shown_validation]
    exact (lastOf_iff_findSome? fun e v => validationAt?_eq_some_iff).symm
  · intro place
    refine ⟨_, (lastOf_iff_findSome? fun e p => formatAt?_eq_some_iff).2 rfl, ?_⟩
    rw [hfind]
    exact ⟨shown_style _ _, shown_protection _ _⟩
  · rfl
  · intro place p hp
    rw [hfind] at hp
    exact isDefault_of_shown (fun q hq => plain_of_findSome? formats place hformats hq) hp

/-- The look of a part with its validations behind the cells. Nothing is edited for the sake of a
validation that is not supported, nor for an area that is no range or too large. -/
theorem ofEvents_presents (styles : StyleTable) {s : String} {root : Node}
    (h : Reads [root] (strictEvents s)) (harranged : Arranged root) :
    ∃ look, ofEvents styles.presentations (strictEvents s) = .ok look ∧
      Presents styles.presentations root look ∧
      (∀ e ∈ root.branches, ∀ place edit, (place, edit) ∈ spreadEdits e ↔
        ∃ v, GivesValidation place e v ∧ edit = { validation := some v }) ∧
      ∀ word range, rangeOf? word = some range →
        range.bottom - range.top + 1 < twoTo 32 ∧ range.right - range.left + 1 < twoTo 32 ∧
          range.size < twoTo 64 := by
  refine ⟨_, ofEvents_eq_of_reads h harranged.plain, ?_, fun e _ place edit =>
    mem_spreadEdits_iff, fun word range => rangeOf?_fits⟩
  exact presents_ofEdits (fun p => StyleTable.validation_of_mem_presentations) harranged

def guardFields (kind areas : String) : List Char :=
  (" type='" ++ kind ++ "' sqref='" ++ areas ++ "'").toList

def guardTags (kind areas formula : String) : List Char :=
  "<dataValidation".toList ++ guardFields kind areas ++ "><formula1>".toList ++ formula.toList ++
    "</formula1></dataValidation>".toList

def guardEvents (kind areas formula : String) : List Event :=
  [.opening "dataValidation" (guardFields kind areas), .opening "formula1" [],
    .text formula.toList, .closing "formula1", .closing "dataValidation"]

def guardNode (kind areas formula : String) : Node :=
  StoredValidation.node { fields := [("type", kind), ("sqref", areas)], first := some formula }

theorem reads_guard {kind areas formula : String}
    (hfields : fields? (guardFields kind areas) = some [("type", kind), ("sqref", areas)])
    (hformula : unescape? formula.toList = some formula) :
    Reads [guardNode kind areas formula] (guardEvents kind areas formula) :=
  .tagged (by decide) hfields (.tagged (by decide) rfl (.text hformula .nil))

/-- A part with a cell that has a format, and three validations. Of the areas of the second one the
first is too large and the last is no cell; the third one has a kind that is not supported. -/
def guardedPart : List Char :=
  "<worksheet><c r='A1' s='0'></c>".toList ++ (guardTags "custom" "A1:B2 D4" "A1=1" ++
    (guardTags "custom" "A1:A10001 B2 1A" "B2=2" ++ (guardTags "date" "A1:B2" "3" ++
      "</worksheet>".toList)))

def guardedNode : Node :=
  .element "worksheet" [] [.leaf "c" [("r", "A1"), ("s", "0")],
    guardNode "custom" "A1:B2 D4" "A1=1", guardNode "custom" "A1:A10001 B2 1A" "B2=2",
    guardNode "date" "A1:B2" "3"]

theorem reads_guarded : Reads [guardedNode] (strictEvents (String.ofList guardedPart)) := by
  have hcell : Reads [.leaf "c" [("r", "A1"), ("s", "0")]]
      [.opening "c" " r='A1' s='0'".toList, .closing "c"] :=
    .tagged (by decide) (by decide +kernel) .nil
  have hfirst : Reads [guardNode "custom" "A1:B2 D4" "A1=1"]
      (guardEvents "custom" "A1:B2 D4" "A1=1") :=
    reads_guard (by decide +kernel) (by decide +kernel)
  have hsecond : Reads [guardNode "custom" "A1:A10001 B2 1A" "B2=2"]
      (guardEvents "custom" "A1:A10001 B2 1A" "B2=2") :=
    reads_guard (by decide +kernel) (by decide +kernel)
  have hthird : Reads [guardNode "date" "A1:B2" "3"] (guardEvents "date" "A1:B2" "3") :=
    reads_guard (by decide +kernel) (by decide +kernel)
  have hevents : strictEvents (String.ofList guardedPart) = .opening "worksheet" [] ::
      (([.opening "c" " r='A1' s='0'".toList, .closing "c"] ++
        (guardEvents "custom" "A1:B2 D4" "A1=1" ++
          (guardEvents "custom" "A1:A10001 B2 1A" "B2=2" ++
            guardEvents "date" "A1:B2" "3"))) ++ [.closing "worksheet"]) := by
    rw [strictEvents_ofList (by decide +kernel)]
    decide +kernel
  rw [hevents]
  exact .tagged (by decide) rfl (hcell.append (hfirst.append (hsecond.append hthird)))

def wrapping : StyleTable :=
  { formats := [{ wrap := true }] }

/-- A place in areas of both validations has the second one, unless its area is too large. -/
theorem guarded_presents : Reads [guardedNode] (strictEvents (String.ofList guardedPart)) ∧
    Arranged guardedNode ∧ ∃ look,
      ofEvents wrapping.presentations (strictEvents (String.ofList guardedPart)) = .ok look ∧
      Presents wrapping.presentations guardedNode look ∧
      (look.cells.find? ⟨1, 1⟩).bind Presentation.validation =
        some { rule := .custom "A1=1", ignoreBlank := false } ∧
      (look.cells.find? ⟨2, 2⟩).bind Presentation.validation =
        some { rule := .custom "B2=2", ignoreBlank := false } ∧
      (look.cells.find? ⟨5, 1⟩).bind Presentation.validation = none := by
  have harranged : Arranged guardedNode := by decide +kernel
  obtain ⟨look, hlook, hpresents, -⟩ := ofEvents_presents wrapping reads_guarded harranged
  have hvalidation {place : CellRef} {validation? : Option Validation}
      (h : guardedNode.branches.reverse.findSome? (validationAt? place) = validation?) :
      (look.cells.find? place).bind Presentation.validation = validation? :=
    (hpresents.validation_iff place validation?).2
      ((lastOf_iff_findSome? fun e v => validationAt?_eq_some_iff).2 h)
  exact ⟨reads_guarded, harranged, look, hlook, hpresents, hvalidation (by decide +kernel),
    hvalidation (by decide +kernel), hvalidation (by decide +kernel)⟩

end SheetLook

end SheetTemplate
