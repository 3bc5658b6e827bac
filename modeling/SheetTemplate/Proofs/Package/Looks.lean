import SheetTemplate.Proofs.Package.SheetList
import SheetTemplate.Proofs.Package.Styles
/-!
The looks of the sheets of a written package. The strict reader finds every sheet by the same links
as the tolerant one, and takes its look from the sheet's own part.
-/
namespace SheetTemplate.Package
open Xml

def pairOf (element first second : String) : Event → Option (String × String)
  | .opening name raw =>
    if localName name = element then
      (fields? raw).bind fun fields =>
        (fields.get? first).bind fun a => (fields.get? second).map (a, ·)
    else none
  | _ => none

section pairs
variable {element first second : String}

/-- Values in a printed part can always be read. -/
theorem valuePairs_eq_ok (names : List String) {events : List Event}
    (h : ∀ e ∈ events, e = .other ∨ e.Printed names) (part : String) :
    valuePairs element first second part events =
      .ok (events.filterMap (pairOf element first second)) := by
  induction events with
  | nil => rfl
  | cons e events ih =>
    obtain ⟨he, hrest⟩ := List.forall_mem_cons.1 h
    have hrest := ih hrest
    cases e with
    | opening name raw =>
      obtain ⟨-, fields, hplain, rfl⟩ := he.resolve_left Event.noConfusion
      by_cases hname : localName name = element
      · simp only [valuePairs, hname, if_true, fields?_chars hplain, hrest, List.filterMap_cons,
          pairOf, Option.bind_some]
        cases fields.localNames.get? first with
        | none => rfl
        | some a => cases fields.localNames.get? second <;> rfl
      · simp only [valuePairs, hname, if_false, hrest, List.filterMap_cons, pairOf]
    | selfClosing name raw => exact absurd (he.resolve_left Event.noConfusion) id
    | broken => exact absurd (he.resolve_left Event.noConfusion) id
    | closing name => exact hrest
    | text raw => exact hrest
    | other => exact hrest

/-- White space does not matter for the values of elements. -/
theorem filterMap_stripped (events : List Event) :
    (events.filterMap Event.stripped?).filterMap (pairOf element first second) =
      events.filterMap (pairOf element first second) := by
  rw [List.filterMap_filterMap]
  congr 1
  funext e
  cases e with
  | text raw =>
    simp only [Event.stripped?]
    split <;> rfl
  | _ => rfl

theorem valuePairs_document {names : List String} {root : Node} (h : root.Tidy names)
    (part : String) : valuePairs element first second part (strictEvents (document root)) =
      .ok (root.events.filterMap (pairOf element first second)) := by
  rw [strictEvents_document h, valuePairs_eq_ok names, List.filterMap_cons]
  · exact congrArg Except.ok (filterMap_stripped root.events)
  · exact List.forall_mem_cons.2 ⟨Or.inl rfl, fun e he => Or.inr (h.printed_stripped e he)⟩

/-- The values of an element come before those of its children. -/
theorem filterMap_element (name : String) (fields : Fields) (children : List Node) :
    (Node.element name fields children).events.filterMap (pairOf element first second) =
      (pairOf element first second (.opening name fields.chars)).toList
        ++ children.flatMap fun n => n.events.filterMap (pairOf element first second) := by
  rw [events_element, List.filterMap_append, List.filterMap_append, List.filterMap_flatMap]
  have hclose : [Event.closing name].filterMap (pairOf element first second) = [] := rfl
  rw [hclose, List.append_nil, List.filterMap_cons]
  cases pairOf element first second (.opening name fields.chars) <;> rfl

/-- Elements of which each has its own two values. -/
theorem filterMap_elements {α : Type} {node : α → Node} {pair : α → String × String}
    {items : List α}
    (h : ∀ a ∈ items, (node a).events.filterMap (pairOf element first second) = [pair a]) :
    ((items.map node).flatMap fun n => n.events.filterMap (pairOf element first second)) =
      items.map pair := by
  rw [List.flatMap_map, List.flatMap_congr h, List.map_eq_flatMap]

end pairs

private theorem pairs_linkNode (link : String × String × String) :
    (linkNode link).events.filterMap (pairOf "Relationship" "Id" "Target") =
      [(link.1, link.2.2)] := by
  rw [linkNode, Node.leaf, filterMap_element]
  simp [pairOf, localName_eq_self, fields?_chars (linkFields_plain link), Fields.localNames,
    Fields.get?]

/-- The links of a workbook by their identifiers. -/
theorem valuePairs_links (sheets : Nat) (part : String) :
    valuePairs "Relationship" "Id" "Target" part (strictEvents (document (workbookLinks sheets))) =
      .ok ((links sheets).map fun link => (link.1, link.2.2)) := by
  have hlinks := filterMap_elements fun link (_ : link ∈ links sheets) => pairs_linkNode link
  rw [workbookLinks_eq, valuePairs_document (tidy_linksNode _), linksNode_eq, filterMap_element,
    hlinks]
  rfl

private theorem pairs_entryNode (index : Nat) (name : String) :
    (entryNode index name).events.filterMap (pairOf "sheet" "name" "id") =
      [(name, sheetLink index)] := by
  have hlocal : localName "r:id" = "id" := by decide
  rw [entryNode, Node.leaf, filterMap_element]
  simp [pairOf, localName_eq_self, fields?_chars (entryFields_plain index name), Fields.localNames,
    Fields.get?, hlocal]

/-- The sheets of a workbook with their links. -/
theorem valuePairs_entries (names : List String) (part : String) :
    valuePairs "sheet" "name" "id" part (strictEvents (document (workbookNode names))) =
      .ok (names.zipIdx.map fun e => (e.1, sheetLink e.2)) := by
  have hentries := filterMap_elements fun e (_ : e ∈ names.zipIdx) => pairs_entryNode e.2 e.1
  rw [valuePairs_document (tidy_workbookNode _), workbookNode_eq, filterMap_element,
    List.flatMap_singleton, filterMap_element, List.mapIdx_eq_zipIdx_map, hentries]
  rfl

private theorem lastOf?_links {sheets i : Nat} (hi : i < sheets) :
    lastOf? (sheetLink i) ((links sheets).map fun link => (link.1, link.2.2)) =
      some (sheetTarget i) := by
  have hfind := find?_link (f := id) id id hi
  simp only [id_eq] at hfind
  rw [lastOf?, hfind]
  rfl

private theorem targetPart_sheetTarget (index : Nat) :
    targetPart (sheetTarget index) = sheetPart index := by
  rw [targetPart, toList_sheetTarget]
  rfl

section readers
variable {p : Package} {formats : Array Presentation} {pairs : List (String × String)}

/-- A sheet whose part is found gets the look of the part. -/
theorem looksOf_cons {name id target text : String} {look : SheetLook}
    (htarget : lastOf? id pairs = some target)
    (htext : p.text? (targetPart target) = .ok (some text))
    (hlook : SheetLook.ofEvents formats (strictEvents text) = .ok look)
    (looks : List (String × SheetLook)) (rest : List (String × String)) :
    looksOf p formats pairs looks ((name, id) :: rest) =
      looksOf p formats pairs ((name, look) :: looks) rest := by
  simp only [looksOf, htarget, htext]
  show (do
    let look ← (SheetLook.ofEvents formats (strictEvents text)).mapError Failure.read
    looksOf p formats pairs ((name, look) :: looks) rest) = _
  rw [hlook]
  rfl

/-- The looks of a package that has everything they are made of. -/
theorem looks_eq {workbook rels styles : String} {table : StyleTable}
    {entries : List (String × String)}
    (hworkbook : p.text? "xl/workbook.xml" = .ok (some workbook))
    (hrels : p.text? "xl/_rels/workbook.xml.rels" = .ok (some rels))
    (hstyles : p.text? StyleTable.partName = .ok (some styles))
    (hpairs : valuePairs "Relationship" "Id" "Target" "workbook relationships"
      (strictEvents rels) = .ok pairs)
    (htable : StyleTable.ofEvents (strictEvents styles) = .ok table)
    (hentries : valuePairs "sheet" "name" "id" "xl/workbook.xml" (strictEvents workbook) =
      .ok entries) :
    p.looks = looksOf p table.presentations pairs [] entries := by
  simp only [looks, hworkbook, hrels, hstyles]
  show (do
    let relationships ← (valuePairs "Relationship" "Id" "Target" "workbook relationships"
      (strictEvents rels)).mapError Failure.read
    let table ← (StyleTable.ofEvents (strictEvents styles)).mapError Failure.read
    let sheets ← (valuePairs "sheet" "name" "id" "xl/workbook.xml"
      (strictEvents workbook)).mapError Failure.read
    looksOf p table.presentations relationships [] sheets) = _
  rw [hpairs, htable, hentries]
  rfl

end readers

section written
variable {sheets : List WrittenSheet}

def partText (sheets : List WrittenSheet) (index : Nat) (s : WrittenSheet) : String :=
  document (s.node (formatsOf sheets) (textsBefore sheets index))

theorem text?_eq_ok {p : Package} {name text : String} (h : p.part? name = some { text }) :
    p.text? name = .ok (some text) := by
  rw [text?, h]
  rfl

/-- The looks of some of the sheets, given that of each. -/
theorem looksOf_entries {formats : Array Presentation} {look : Nat → SheetLook}
    {entries : List (String × Nat)} (h : ∀ e ∈ entries, e.2 < sheets.length)
    (hlook : ∀ i s, sheets[i]? = some s →
      SheetLook.ofEvents formats (strictEvents (partText sheets i s)) = .ok (look i))
    (looks : List (String × SheetLook)) :
    looksOf (ofSheets sheets) formats ((links sheets.length).map fun link => (link.1, link.2.2))
        looks (entries.map fun e => (e.1, sheetLink e.2)) =
      .ok ((entries.map fun e => (e.1, look e.2)).reverse ++ looks) := by
  induction entries generalizing looks with
  | nil => rfl
  | cons e entries ih =>
    obtain ⟨he, hrest⟩ := List.forall_mem_cons.1 h
    obtain ⟨s, hs⟩ : ∃ s, sheets[e.2]? = some s := ⟨_, List.getElem?_eq_getElem he⟩
    have htext : (ofSheets sheets).text? (targetPart (sheetTarget e.2)) =
        .ok (some (partText sheets e.2 s)) := by
      rw [targetPart_sheetTarget]
      exact text?_eq_ok (part?_sheet hs)
    rw [List.map_cons, looksOf_cons (lastOf?_links he) htext (hlook e.2 s hs), ih hrest,
      List.map_cons, List.reverse_cons, List.append_assoc, List.singleton_append]

/-- Every sheet of a written package gets the look of its part, if every part has a look whatever
formats without validations it is read with. -/
theorem exists_looks_ofSheets (sheets : List WrittenSheet) {P : Nat → SheetLook → Prop}
    (h : ∀ formats : Array Presentation, (∀ p ∈ formats, p.validation = none) →
      ∀ i s, sheets[i]? = some s → ∃ look,
        SheetLook.ofEvents formats (strictEvents (partText sheets i s)) = .ok look ∧ P i look) :
    ∃ look : Nat → SheetLook, (∀ i < sheets.length, P i (look i)) ∧ (ofSheets sheets).looks =
      .ok ((sheets.map WrittenSheet.name).zipIdx.map fun e => (e.1, look e.2)).reverse := by
  obtain ⟨table, htable⟩ := StyleTable.exists_ofEvents (formatsOf sheets)
  have hread := h table.presentations fun p hp => StyleTable.validation_of_mem_presentations hp
  have hall : ∀ i, ∃ look, ∀ s, sheets[i]? = some s →
      SheetLook.ofEvents table.presentations (strictEvents (partText sheets i s)) = .ok look ∧
        P i look := by
    intro i
    cases hs : sheets[i]? with
    | none => exact ⟨plainLook, fun s hs => absurd hs.symm (Option.some_ne_none s)⟩
    | some s =>
      obtain ⟨look, hlook⟩ := hread i s hs
      exact ⟨look, fun s' hs' => Option.some.inj hs' ▸ hlook⟩
  choose look hlook using hall
  refine ⟨look, fun i hi => (hlook i _ (List.getElem?_eq_getElem hi)).2, ?_⟩
  have hindex : ∀ e ∈ (sheets.map WrittenSheet.name).zipIdx, e.2 < sheets.length := by
    intro e he
    simpa using List.snd_lt_of_mem_zipIdx he
  rw [looks_eq (text?_eq_ok part?_workbook) (text?_eq_ok part?_links) (text?_eq_ok part?_styles)
      (valuePairs_links ..) htable (valuePairs_entries ..),
    looksOf_entries hindex (fun i s hs => (hlook i s hs).1), List.append_nil]

end written

end SheetTemplate.Package
