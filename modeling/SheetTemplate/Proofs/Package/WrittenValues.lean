import SheetTemplate.Package.Load
import SheetTemplate.Proofs.Package.Places
import SheetTemplate.Proofs.Package.SheetPart
import SheetTemplate.Proofs.Package.WrittenSheet
import SheetTemplate.Proofs.Xml.Fold
/-!
The values of a written sheet can be read, given as many shared texts as it refers to, and so can
its merged regions.
-/
namespace SheetTemplate

namespace Shelf
open Xml Package WrittenSheet CellReader

variable {shelf : Shelf} {r : Reading Unit CellValue}

abbrev step (shelf : Shelf) : Reading Unit CellValue → Event → Option (Reading Unit CellValue) :=
  shelf.reader.readEvent? .empty

def InFront (r : Reading Unit CellValue) : Prop :=
  ∃ other, r.stage = .front other

def InRows (r : Reading Unit CellValue) : Prop :=
  r.stage = .rows

def InCell (tag : CellTag) (r : Reading Unit CellValue) : Prop :=
  ∃ value, r.stage = .cell tag value none

/-- The reader gets through the tree, and where it was in front of it, it is behind it. -/
def Keeps (shelf : Shelf) (P : Reading Unit CellValue → Prop) (n : Node) : Prop :=
  ∀ r, P r → ∃ r', n.events.foldlM (step shelf) r = some r' ∧ P r'

/-- Elements in front of the rows are passed. -/
theorem exists_step_front {names : List String}
    (hnames : ∀ name ∈ names, localName name ∉ ["dimension", "sheetData"]) {e : Event}
    (he : e.Printed names) (hr : InFront r) : ∃ r', step shelf r e = some r' ∧ InFront r' := by
  obtain ⟨stage, row, column, kept, cells⟩ := r
  obtain ⟨other, rfl⟩ := hr
  cases e with
  | opening name raw =>
    have hname := hnames name he.1
    refine ⟨⟨.front true, row, column, kept, cells⟩, ?_, true, rfl⟩
    show openFront? _ name raw = _
    unfold openFront?
    split
    · rename_i hdimension
      exact absurd (by simp [hdimension]) hname
    · rename_i hdata
      exact absurd (by simp [hdata]) hname
    · rfl
  | closing name => exact ⟨_, rfl, other, rfl⟩
  | text raw => exact ⟨_, rfl, other, rfl⟩
  | _ => exact absurd he id

/-- Once the rows are read nothing more counts. -/
theorem step_done (hr : r.stage = .done) (e : Event) : step shelf r e = some r := by
  obtain ⟨stage, row, column, kept, cells⟩ := r
  subst hr
  rfl

private theorem foldlM_done (hr : r.stage = .done) (events : List Event) :
    events.foldlM (step shelf) r = some r := by
  induction events with
  | nil => rfl
  | cons e events ih => rw [foldlM_cons_of_eq_pure (step_done hr e), ih]

/-- The text of a cell becomes its value. -/
theorem keeps_value {tag : CellTag} {text : String}
    (htext : (shelf.value? tag.attributes text).isSome) :
    Keeps shelf (InCell tag) (.holding "v" [] text) := by
  rintro ⟨stage, row, column, kept, cells⟩ ⟨value, rfl⟩
  obtain ⟨read, hread⟩ := Option.isSome_iff_exists.1 htext
  have hpiece : (Node.text text).events.foldlM (step shelf)
      ⟨.cell tag value (some ([], .plain "v" "")), row, column, kept, cells⟩ =
        some ⟨.cell tag value (some ([], .plain "v" text)), row, column, kept, cells⟩ := by
    rw [Node.events]
    split
    · rename_i hempty
      rw [String.isEmpty_iff.1 hempty]
      rfl
    · simp [step, readEvent?, Child.readEvent?, unescape?_escapeText]
  refine ⟨⟨.cell tag read none, row, column, (), cells⟩, ?_, read, rfl⟩
  refine foldlM_element rfl (by rwa [List.flatMap_singleton]) ?_
  simp [step, readEvent?, Child.readEvent?, reader, ofContent?, hread]

/-- The formula of a cell is passed. -/
theorem keeps_formula (tag : CellTag) (formula : String) :
    Keeps shelf (InCell tag) (.holding "f" [] formula) := by
  rintro ⟨stage, row, column, kept, cells⟩ ⟨value, rfl⟩
  have hpiece : (Node.text formula).events.foldlM (step shelf)
      ⟨.cell tag value (some ([], .skipped "f" 0)), row, column, kept, cells⟩ =
        some ⟨.cell tag value (some ([], .skipped "f" 0)), row, column, kept, cells⟩ := by
    rw [Node.events]
    split <;> rfl
  refine ⟨⟨.cell tag .empty none, row, column, (), cells⟩, ?_, .empty, rfl⟩
  exact foldlM_element rfl (by rwa [List.flatMap_singleton]) rfl

section cells
variable {formatIndex : Nat} {place : CellRef} {type : Option String}

def typeFields (formatIndex : Nat) (place : CellRef) (type : Option String) : Fields :=
  cellFields formatIndex place (type.toList.map ("t", ·))

def writtenTag (formatIndex : Nat) (place : CellRef) (type : Option String) : CellTag :=
  ⟨place, (typeFields formatIndex place type).written⟩

private theorem rawAttribute?_place :
    rawAttribute? "r" (typeFields formatIndex place type).written =
    some (some place.chars) := by
  rw [rawAttribute?_written, typeFields, cellFields]
  simp [escapeValue_cell]

private theorem rawAttribute?_type : rawAttribute? "t" (typeFields formatIndex place type).written =
    some (type.map escapeValue) := by
  rw [rawAttribute?_written, typeFields, cellFields]
  cases type <;> split <;> simp

/-- An index that is too large for its type is taken for the first. -/
theorem index_digits_le (n : Nat) : index (Text.digits n) ≤ n := by
  rw [index, Text.natural?_digits, Option.filter_some]
  split
  · exact Nat.le_refl n
  · exact Nat.zero_le n

/-- The text of a cell can be read: a number, the index of a shared text, or a truth value. -/
theorem isSome_value? {text : String}
    (htype : ∀ t ∈ type, t = "b" ∨ t = "s" ∧ index text.toList < shelf.texts.size) :
    (shelf.value? (writtenTag formatIndex place type).attributes text).isSome := by
  rw [writtenTag, value?, rawAttribute?_type]
  cases type with
  | none =>
    simp only [Option.map_none]
    cases Binary64.ofText? text <;> rfl
  | some t =>
    rcases htype t rfl with rfl | ⟨rfl, hindex⟩
    · rfl
    · have hs : String.ofList (escapeValue "s") = "s" := by decide
      simp [hs, hindex]

/-- The element of a cell is read if its children are. -/
theorem keeps_tag (type : Option String) (hplace : Placed place) {children : List Node}
    (hchildren : ∀ n ∈ children, Keeps shelf (InCell (writtenTag formatIndex place type)) n) :
    Keeps shelf InRows (.element "c" (typeFields formatIndex place type) children) := by
  rintro ⟨stage, row, column, kept, cells⟩ hr
  obtain rfl : stage = .rows := hr
  have hplain : (typeFields formatIndex place type).Plain := cellFields_plain formatIndex place type
  have hopen : step shelf ⟨.rows, row, column, kept, cells⟩
      (.opening "c" (typeFields formatIndex place type).chars) =
        some ⟨.cell (writtenTag formatIndex place type) .empty none, row, place.column, kept,
          cells⟩ := by
    simp [step, readEvent?, openRow?, localName_eq_self, attributes_chars hplain, writtenTag,
      rawAttribute?_place, cellRef?_chars hplace.1 hplace.2]
  obtain ⟨⟨_, row', column', kept', cells'⟩, hfold, value, rfl⟩ :=
    exists_foldlM_nodes hchildren (b := ⟨.cell (writtenTag formatIndex place type) .empty none, row,
      place.column, kept, cells⟩) ⟨.empty, rfl⟩
  exact ⟨_, foldlM_element hopen hfold rfl, rfl⟩

/-- The element of a cell is read if the text that it refers to is there. -/
theorem keeps_cell {number : Nat} {value : WrittenValue} {n : Node}
    (hn : cellNode? formatIndex number place value = some n) (hplace : Placed place)
    (hnumber : ∀ t, value = .text t → number < shelf.texts.size) : Keeps shelf InRows n := by
  have hvalue (type : Option String) {text : String}
      (htype : ∀ t ∈ type, t = "b" ∨ t = "s" ∧ index text.toList < shelf.texts.size) :
      ∀ n ∈ [Node.holding "v" [] text],
        Keeps shelf (InCell (writtenTag formatIndex place type)) n := fun n hn =>
    List.mem_singleton.1 hn ▸ keeps_value (isSome_value? htype)
  have hnumeric {text : String} :
      ∀ t ∈ (none : Option String), t = "b" ∨ t = "s" ∧ index text.toList < shelf.texts.size := by
    simp
  cases value with
  | blank =>
    by_cases hindex : formatIndex = 0
    · rw [cellNode?, if_pos hindex] at hn
      cases hn
    · rw [cellNode?, if_neg hindex] at hn
      cases hn
      exact keeps_tag none hplace fun n hn => absurd hn List.not_mem_nil
  | text s =>
    have hindex := index_digits_le number
    have hsize := hnumber s rfl
    have hchars : (Text.decimal number).toList = Text.digits number := String.toList_ofList
    cases hn
    refine keeps_tag (some "s") hplace (hvalue _ fun t ht => Or.inr ?_)
    rw [hchars]
    exact ⟨(Option.some.inj ht).symm, by omega⟩
  | number x =>
    cases hn
    exact keeps_tag none hplace (hvalue none hnumeric)
  | bool b =>
    cases hn
    exact keeps_tag (some "b") hplace (hvalue _ fun t ht => Or.inl (Option.some.inj ht).symm)
  | formula f =>
    cases hn
    refine keeps_tag none hplace fun n hn => ?_
    rcases List.mem_cons.1 hn with rfl | hn
    · exact keeps_formula _ f
    · exact hvalue none hnumeric n hn

end cells

/-- The element of a row is read if its cells are. -/
theorem keeps_row {cells : List (Nat × Node)}
    (h : ∀ e ∈ cells, 0 < e.1 ∧ Keeps shelf InRows e.2) : Keeps shelf InRows (rowNode cells) := by
  rintro ⟨stage, row, column, kept, found⟩ hr
  obtain rfl : stage = .rows := hr
  have hopen : ∃ row', step shelf ⟨.rows, row, column, kept, found⟩ (.opening "row"
      (Fields.chars (cells.head?.toList.map fun c => ("r", Text.decimal c.1)))) =
        some ⟨.rows, row', column, kept, found⟩ := by
    cases cells with
    | nil => exact ⟨row, rfl⟩
    | cons e cells =>
      have hplain : Fields.Plain [("r", Text.decimal e.1)] := by
        simp [Fields.Plain]
        decide
      refine ⟨e.1, ?_⟩
      simp [step, readEvent?, openRow?, localName_eq_self, attributes_chars hplain,
        rawAttribute?_written, escapeValue_decimal,
        rowAndColumn?_digits (h e List.mem_cons_self).1]
  have hcells : ∀ n ∈ cells.map Prod.snd, Keeps shelf InRows n := by
    intro n hn
    obtain ⟨e, he, rfl⟩ := List.mem_map.1 hn
    exact (h e he).2
  obtain ⟨row', hrow'⟩ := hopen
  obtain ⟨⟨_, row'', column', kept', found'⟩, hfold, rfl⟩ :=
    exists_foldlM_nodes hcells (b := ⟨.rows, row', column, kept, found⟩) rfl
  exact ⟨_, foldlM_element hrow' hfold rfl, rfl⟩

/-- The rows of a sheet are read, given as many texts as it refers to. -/
theorem exists_foldlM_rows {s : WrittenSheet} (hs : s.Sound) (formats : List Format)
    {firstText : Nat} (htexts : firstText + s.texts.length ≤ shelf.texts.size) (hr : InFront r) :
    ∃ r', (s.rowsNode formats firstText).events.foldlM (step shelf) r = some r' ∧
      r'.stage = .done := by
  obtain ⟨stage, row, column, kept, cells⟩ := r
  obtain ⟨other, rfl⟩ := hr
  have hrows : ∀ n ∈ (s.rows formats firstText).map rowNode, Keeps shelf InRows n := by
    intro n hn
    obtain ⟨cells, hcells, rfl⟩ := List.mem_map.1 hn
    refine keeps_row fun e he => ?_
    obtain ⟨cell, hcell, number, hnode, hrow, hnumber⟩ :=
      mem_cellNodes (mem_cellNodes_of_mem_rows hcells he)
    have hplace := hs.cells cell hcell
    refine ⟨hrow ▸ hplace.1, keeps_cell hnode hplace fun t ht => ?_⟩
    have hlt := hnumber (by simp [sharedText?, ht])
    rw [← texts_eq] at hlt
    omega
  obtain ⟨⟨_, row', column', kept', cells'⟩, hfold, rfl⟩ :=
    exists_foldlM_nodes hrows (b := ⟨.rows, row, column, kept, cells⟩) rfl
  exact ⟨_, foldlM_element rfl hfold rfl, rfl⟩

/-- The values of a sheet are read, given as many texts as it refers to. -/
theorem exists_values? (shelf : Shelf) {s : WrittenSheet} (hs : s.Sound) (formats : List Format)
    {firstText : Nat} (htexts : firstText + s.texts.length ≤ shelf.texts.size) :
    ∃ values, shelf.values? (tolerantEvents (document (s.node formats firstText))) =
      some values := by
  obtain ⟨start, hstart⟩ : ∃ start : Reading Unit CellValue, start = { kept := () } := ⟨_, rfl⟩
  obtain ⟨front, hfront⟩ : ∃ front : Reading Unit CellValue,
      front = { stage := .front true, kept := () } := ⟨_, rfl⟩
  have hopen (fields : Fields) : step shelf start (.opening "worksheet" fields.chars) =
      some front := by
    rw [hstart, hfront]
    rfl
  obtain ⟨r₁, hr₁, hinFront⟩ := exists_foldlM (f := step shelf) (P := InFront) (b := front)
    (fun e he r hr => by
      obtain ⟨n, hn, he⟩ := List.mem_flatMap.1 he
      exact exists_step_front (by decide) ((tidy_of_mem_widthNodes n hn).printed e he) hr)
    (l := s.widthNodes.flatMap Node.events) ⟨true, by rw [hfront]⟩
  obtain ⟨r₂, hr₂, hdone⟩ := exists_foldlM_rows hs formats htexts hinFront
  have hread : (tolerantEvents (document (s.node formats firstText))).foldlM (step shelf) start =
      some r₂ := by
    refine foldlM_document (tidy_node formats firstText fun v hv => (hs.validations v hv).1)
      (hstart ▸ rfl) (hstart ▸ rfl) ?_
    rw [node_eq]
    refine foldlM_element (hopen _) (d := r₂) ?_ (step_done hdone _)
    rw [gridNodes, List.append_assoc, List.append_assoc, List.flatMap_append, List.flatMap_append,
      List.flatMap_singleton, foldlM_append_of_eq_pure hr₁, foldlM_append_of_eq_pure hr₂]
    exact foldlM_done hdone _
  rw [hstart] at hread
  rw [values?, read?, hread]
  simp only [hdone]
  exact ⟨_, rfl⟩

end Shelf

namespace StoredMerge
open Xml Package WrittenSheet

def IsReadable (e : Event) : Prop :=
  e ≠ .broken ∧ ∀ name raw, e = .opening name raw → (corners? name raw).isSome

private theorem readable_iff {events : List Event} :
    readable events = true ↔ ∀ e ∈ events, IsReadable e := by
  rw [readable, List.all_eq_true]
  refine forall₂_congr fun e _ => ?_
  cases e <;> simp [IsReadable]

private theorem isReadable_of_printed {names : List String} {e : Event} (he : e.Printed names)
    (hnames : ∀ name ∈ names, localName name ≠ "mergeCell") : IsReadable e := by
  constructor
  · rintro rfl
    exact he
  · rintro name raw rfl
    rw [corners?, if_neg (hnames name he.1)]
    rfl

private theorem isReadable_text (raw : List Char) : IsReadable (.text raw) := by
  simp [IsReadable]

private theorem isReadable_other : IsReadable .other := by
  simp [IsReadable]

theorem isReadable_closing (name : String) : IsReadable (.closing name) := by
  simp [IsReadable]

/-- An element that is no region itself. -/
theorem isReadable_element {name : String} {fields : Fields} {children : List Node}
    (hname : localName name ≠ "mergeCell") (h : ∀ n ∈ children, ∀ e ∈ n.events, IsReadable e) :
    ∀ e ∈ (Node.element name fields children).events, IsReadable e := by
  intro e he
  rw [events_element] at he
  simp only [List.mem_append, List.mem_singleton, List.mem_flatMap] at he
  rcases he with rfl | ⟨n, hn, he⟩ | rfl
  · refine ⟨Event.noConfusion, fun name' raw h => ?_⟩
    obtain ⟨rfl, rfl⟩ := Event.opening.inj h
    rw [corners?, if_neg hname]
    rfl
  · exact h n hn e he
  · exact isReadable_closing name

/-- The element of a region names its corners. -/
theorem corners?_region {r : Range} (htop : 0 < r.top) (hleft : 0 < r.left) :
    corners? "mergeCell" (Fields.chars [("ref", r.text)]) =
      some (some (⟨r.top, r.left⟩, ⟨r.bottom, r.right⟩)) := by
  have hplain : Fields.Plain [("ref", r.text)] := by
    simp [Fields.Plain]
    decide
  simp [corners?, localName_eq_self, attributes_chars hplain, rawAttribute?_written,
    escapeValue_range, corners?_text htop hleft]

private theorem isReadable_region {r : Range} (htop : 0 < r.top) (hleft : 0 < r.left) :
    ∀ e ∈ (Node.leaf "mergeCell" [("ref", r.text)]).events, IsReadable e := by
  intro e he
  rw [Node.leaf, events_element] at he
  simp only [List.flatMap_nil, List.nil_append, List.mem_append, List.mem_singleton] at he
  rcases he with rfl | rfl
  · refine ⟨Event.noConfusion, fun name raw h => ?_⟩
    obtain ⟨rfl, rfl⟩ := Event.opening.inj h
    simp [corners?_region htop hleft]
  · exact isReadable_closing "mergeCell"

private theorem isReadable_of_mem_mergeNodes {s : WrittenSheet} (hs : s.Sound) :
    ∀ n ∈ s.mergeNodes, ∀ e ∈ n.events, IsReadable e := by
  intro n hn
  unfold mergeNodes listNode at hn
  split at hn
  · cases hn
  · rw [List.mem_singleton.1 hn]
    refine isReadable_element (by decide) fun m hm => ?_
    obtain ⟨r, hr, rfl⟩ := List.mem_map.1 hm
    obtain ⟨htop, hleft⟩ := hs.merges r hr
    exact isReadable_region htop hleft

/-- All merged regions of a written sheet can be read. -/
theorem readable_written {s : WrittenSheet} (hs : s.Sound) (formats : List Format)
    (firstText : Nat) : readable (tolerantEvents (document (s.node formats firstText))) = true := by
  have hother {names : List String} (hnames : ∀ name ∈ names, localName name ≠ "mergeCell")
      {n : Node} (hn : n.Tidy names) : ∀ e ∈ n.events, IsReadable e := fun e he =>
    isReadable_of_printed (hn.printed e he) hnames
  have hroot : ∀ e ∈ (s.node formats firstText).events, IsReadable e := by
    rw [node_eq]
    refine isReadable_element (by decide) fun n hn => ?_
    simp only [gridNodes, List.mem_append, List.mem_singleton] at hn
    rcases hn with ((hn | rfl) | hn) | hn
    · exact hother (by decide) (tidy_of_mem_widthNodes n hn)
    · exact hother (by decide) (tidy_rowsNode formats firstText s)
    · exact isReadable_of_mem_mergeNodes hs n hn
    · exact hother (by decide) (tidy_of_mem_validations (fun v hv => (hs.validations v hv).1) n hn)
  rw [readable_iff, tolerantEvents_document (tidy_node formats firstText fun v hv =>
    (hs.validations v hv).1)]
  exact List.forall_mem_cons.2 ⟨isReadable_other,
    List.forall_mem_cons.2 ⟨isReadable_text ['\n'], hroot⟩⟩

end StoredMerge

end SheetTemplate
