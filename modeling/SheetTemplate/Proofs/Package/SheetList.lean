import SheetTemplate.Proofs.Package.Parts
import SheetTemplate.Proofs.Xml.Fold
/-!
The list of sheets of a written package: both kinds of readers find the sheets that were written,
in their order and with their parts.
-/
namespace SheetTemplate
open Xml

namespace Package

def linkNames : List String := ["Relationships", "Relationship"]

def listNames : List String := ["workbook", "sheets", "sheet"]

def linkNode (link : String × String × String) : Node :=
  .leaf "Relationship" [("Id", link.1), ("Type", linkVocabulary ++ "/" ++ link.2.1),
    ("Target", link.2.2)]

theorem linksNode_eq (links : List (String × String × String)) : linksNode links =
    .element "Relationships" [("xmlns", vocabulary "package/2006/relationships")]
      (links.map linkNode) :=
  rfl

def entryNode (index : Nat) (name : String) : Node :=
  .leaf "sheet" [("name", name), ("sheetId", Text.decimal (index + 1)), ("r:id", sheetLink index)]

theorem workbookNode_eq (names : List String) : workbookNode names =
    .element "workbook" [("xmlns", workbookVocabulary), ("xmlns:r", linkVocabulary)]
      [.element "sheets" [] (names.mapIdx entryNode)] :=
  rfl

theorem linkFields_plain (link : String × String × String) : Fields.Plain
    [("Id", link.1), ("Type", linkVocabulary ++ "/" ++ link.2.1), ("Target", link.2.2)] := by
  simp [Fields.Plain]
  decide

theorem entryFields_plain (index : Nat) (name : String) : Fields.Plain
    [("name", name), ("sheetId", Text.decimal (index + 1)), ("r:id", sheetLink index)] := by
  simp [Fields.Plain]
  decide

theorem tidy_linksNode (links : List (String × String × String)) :
    (linksNode links).Tidy linkNames := by
  refine .element (by decide) (by decide) (by simp [Fields.Plain]; decide) fun n hn => ?_
  obtain ⟨link, -, rfl⟩ := List.mem_map.1 hn
  exact .leaf (by decide) (by decide) (linkFields_plain link)

theorem tidy_workbookNode (names : List String) : (workbookNode names).Tidy listNames := by
  refine .element (by decide) (by decide) (by simp [Fields.Plain]; decide) fun n hn => ?_
  rw [List.mem_singleton.1 hn]
  refine .element (by decide) (by decide) Fields.plain_nil fun m hm => ?_
  obtain ⟨i, hi, rfl⟩ := List.mem_mapIdx.1 hm
  exact .leaf (by decide) (by decide) (entryFields_plain i _)

def links (sheets : Nat) : List (String × String × String) :=
  (List.range sheets).map (fun i => (sheetLink i, "worksheet", sheetTarget i))
    ++ [(sheetLink sheets, "styles", "styles.xml"),
      (sheetLink (sheets + 1), "sharedStrings", "sharedStrings.xml")]

theorem workbookLinks_eq (sheets : Nat) : workbookLinks sheets = linksNode (links sheets) := rfl

/-- The target of a link is that of a sheet if the identifier is. -/
theorem target_of_mem_links {sheets i : Nat} {link : String × String × String}
    (h : link ∈ links sheets) (hi : i < sheets) (hid : link.1 = sheetLink i) :
    link.2.2 = sheetTarget i := by
  simp only [links, List.mem_append, List.mem_map, List.mem_range, List.mem_cons, List.not_mem_nil,
    or_false] at h
  rcases h with ⟨j, hj, rfl⟩ | rfl | rfl
  · rw [sheetLink_injective hid]
  · exact absurd (sheetLink_injective hid) (by omega)
  · exact absurd (sheetLink_injective hid) (by omega)

private theorem mem_links {sheets i : Nat} (hi : i < sheets) :
    (sheetLink i, "worksheet", sheetTarget i) ∈ links sheets :=
  List.mem_append_left _ (List.mem_map.2 ⟨i, List.mem_range.2 hi, rfl⟩)

/-- The link to the part of a sheet is found by its identifier, however both are written. -/
theorem find?_link {α β : Type} [DecidableEq α] {f : String → α}
    (hf : ∀ {a b}, f a = f b → a = b) (g : String → β) {sheets i : Nat} (hi : i < sheets) :
    (((links sheets).map fun link => (f link.1, g link.2.2)).reverse.find? fun e =>
        e.1 = f (sheetLink i)) =
      some (f (sheetLink i), g (sheetTarget i)) := by
  have hmem : (f (sheetLink i), g (sheetTarget i)) ∈
      ((links sheets).map fun link => (f link.1, g link.2.2)).reverse :=
    List.mem_reverse.2 (List.mem_map.2 ⟨_, mem_links hi, rfl⟩)
  cases hfind : ((links sheets).map fun link => (f link.1, g link.2.2)).reverse.find? fun e =>
      e.1 = f (sheetLink i) with
  | none => exact absurd (List.find?_eq_none.1 hfind _ hmem) (by simp)
  | some e =>
    obtain ⟨link, hlink, rfl⟩ :=
      List.mem_map.1 (List.mem_reverse.1 (List.mem_of_find?_eq_some hfind))
    have hfound := List.find?_some hfind
    have hid : f link.1 = f (sheetLink i) := of_decide_eq_true hfound
    rw [hid, target_of_mem_links hlink hi (hf hid)]

end Package

namespace SheetEntry
open Package

def writtenLink (link : String × String × String) : List Char × List Char :=
  (escapeValue link.1, escapeValue link.2.2)

private theorem foldlM_linkNode {r : Relationships} (hr : r.done = false)
    (link : String × String × String) : (linkNode link).events.foldlM readRelationship? r =
      some { r with targets := writtenLink link :: r.targets } := by
  obtain ⟨targets, done⟩ := r
  subst hr
  have hopen : readRelationship? ⟨targets, false⟩ (.opening "Relationship" (Fields.chars
      [("Id", link.1), ("Type", linkVocabulary ++ "/" ++ link.2.1), ("Target", link.2.2)])) =
        some ⟨writtenLink link :: targets, false⟩ := by
    simp [readRelationship?, localName_eq_self, attributes_chars (linkFields_plain link),
      Fields.written, attribute?, writtenLink]
  refine foldlM_element hopen rfl ?_
  simp [readRelationship?, localName_eq_self]

private theorem foldlM_linkNodes {r : Relationships} (hr : r.done = false)
    (links : List (String × String × String)) :
    ((links.map linkNode).flatMap Node.events).foldlM readRelationship? r =
      some { r with targets := (links.map writtenLink).reverse ++ r.targets } := by
  induction links generalizing r with
  | nil => rfl
  | cons link links ih =>
    have hrest := ih (r := { r with targets := writtenLink link :: r.targets }) hr
    rw [List.map_cons, List.flatMap_cons, foldlM_append_of_eq_pure (foldlM_linkNode hr link), hrest]
    simp

/-- The links of a written package are found, the last one first. -/
theorem relationships?_ofSheets (sheets : List WrittenSheet) :
    relationships? (ofSheets sheets) = some ((links sheets.length).map writtenLink).reverse := by
  have hopen (raw : List Char) : readRelationship? {} (.opening "Relationships" raw) = some {} := by
    simp [readRelationship?, localName_eq_self]
  have hlinks := foldlM_linkNodes (r := {}) rfl (links sheets.length)
  have hread : (tolerantEvents (document (workbookLinks sheets.length))).foldlM
      readRelationship? {} = some ⟨((links sheets.length).map writtenLink).reverse, true⟩ := by
    refine foldlM_document (tidy_linksNode _) rfl rfl (foldlM_element (hopen _) hlinks ?_)
    simp [readRelationship?, localName_eq_self]
  rw [relationships?, tolerantEvents?, similarPart?_links]
  simp [hread]

def ofNumber (name : String) (index : Nat) : SheetEntry :=
  ⟨name, sheetPart index, true⟩

theorem escapeValue_injective {a b : String} (h : escapeValue a = escapeValue b) : a = b := by
  have := unescape?_escapeValue a
  rw [h, unescape?_escapeValue, Option.some.injEq] at this
  exact this.symm

private theorem escapeValue_sheetTarget (index : Nat) :
    escapeValue (sheetTarget index) = (sheetTarget index).toList := by
  apply escape_eq_self
  intro c hc
  rcases mem_sheetTarget hc with hc | hdigit
  · exact Text.forall_mem_of_all (P := fun d => d ∉ ['&', '<', '>', '"', '\n']) (by decide) c hc
  · intro hmark
    simp only [List.mem_cons, List.not_mem_nil, or_false] at hmark
    rcases hmark with rfl | rfl | rfl | rfl | rfl <;> exact absurd hdigit (by decide)

private theorem partName_sheetTarget (index : Nat) :
    partName (sheetTarget index) = sheetPart index := by
  have habsolute : "/xl/".toList.isPrefixOf (sheetTarget index).toList = false := by
    rw [toList_sheetTarget]
    rfl
  have hwhole : "xl/".toList.isPrefixOf (sheetTarget index).toList = false := by
    rw [toList_sheetTarget]
    rfl
  simp only [partName, habsolute, hwhole, Bool.false_eq_true, if_false]
  rfl

private theorem ofPart?_sheetPart (name : String) (index : Nat) :
    ofPart? name (sheetPart index) = some (ofNumber name index) := by
  have hsplit : (Text.split '/' (sheetPart index))[1]? = some "worksheets" := by
    rw [Text.split, toList_sheetPart, Text.parts_append, toList_sheetTarget, Text.parts_append,
      Text.parts_of_not_mem (by decide), Text.parts_of_not_mem (by decide)]
    rfl
  simp only [ofPart?, hsplit]
  rfl

private theorem ofAttributes?_entry {sheets i : Nat} (hi : i < sheets) (name : String) :
    ofAttributes? ((links sheets).map writtenLink).reverse "" ""
        (Fields.written [("name", name), ("sheetId", Text.decimal (i + 1)),
          ("r:id", sheetLink i)]) =
      some (ofNumber name i) := by
  have hfind : ((links sheets).map writtenLink).reverse.find? (fun e =>
      decide (e.1 = escapeValue (sheetLink i))) =
        some (escapeValue (sheetLink i), escapeValue (sheetTarget i)) :=
    find?_link escapeValue_injective escapeValue hi
  simp [Fields.written, ofAttributes?, unescape?_escapeValue, hfind, escapeValue_sheetTarget,
    partName_sheetTarget, ofPart?_sheetPart]

def numbered (names : List String) : List SheetEntry :=
  names.zipIdx.map fun e => ofNumber e.1 e.2

private theorem foldlM_entryNode {sheets i : Nat} (hi : i < sheets) (name : String) {r : Reading}
    (hname : r.definedName = none) (hdone : r.done = false) :
    (entryNode i name).events.foldlM (readEvent? ((links sheets).map writtenLink).reverse) r =
      some { r with sheets := ofNumber name i :: r.sheets } := by
  obtain ⟨found, definedName, done⟩ := r
  subst hname hdone
  have hopen : readEvent? ((links sheets).map writtenLink).reverse ⟨found, none, false⟩
      (.opening "sheet" (Fields.chars [("name", name), ("sheetId", Text.decimal (i + 1)),
        ("r:id", sheetLink i)])) = some ⟨ofNumber name i :: found, none, false⟩ := by
    simp [readEvent?, localName_eq_self, attributes_chars (entryFields_plain i name),
      ofAttributes?_entry hi]
  refine foldlM_element hopen rfl ?_
  simp [readEvent?, localName_eq_self]

private theorem foldlM_entryNodes {sheets : Nat} {entries : List (String × Nat)}
    (h : ∀ e ∈ entries, e.2 < sheets) {r : Reading} (hname : r.definedName = none)
    (hdone : r.done = false) :
    ((entries.map fun e => entryNode e.2 e.1).flatMap Node.events).foldlM
        (readEvent? ((links sheets).map writtenLink).reverse) r =
      some { r with sheets := (entries.map fun e => ofNumber e.1 e.2).reverse ++ r.sheets } := by
  induction entries generalizing r with
  | nil => rfl
  | cons e entries ih =>
    obtain ⟨he, hrest⟩ := List.forall_mem_cons.1 h
    have hnext := ih hrest (r := { r with sheets := ofNumber e.1 e.2 :: r.sheets }) hname hdone
    rw [List.map_cons, List.flatMap_cons,
      foldlM_append_of_eq_pure (foldlM_entryNode he e.1 hname hdone), hnext]
    simp

/-- A written package lists the sheets that it was made of. -/
theorem ofPackage?_ofSheets (sheets : List WrittenSheet) :
    ofPackage? (ofSheets sheets) = some (numbered (sheets.map WrittenSheet.name)) := by
  obtain ⟨targets, htargets⟩ : ∃ targets,
      targets = ((links sheets.length).map writtenLink).reverse := ⟨_, rfl⟩
  have hopen {name : String} (hname : name ∈ ["workbook", "sheets"]) (raw : List Char) :
      readEvent? targets {} (.opening name raw) = some {} := by
    simp only [List.mem_cons, List.not_mem_nil, or_false] at hname
    rcases hname with rfl | rfl <;> simp [readEvent?, localName_eq_self]
  have hindex : ∀ e ∈ (sheets.map WrittenSheet.name).zipIdx, e.2 < sheets.length := by
    intro e he
    simpa using List.snd_lt_of_mem_zipIdx he
  have hentries := foldlM_entryNodes hindex (r := {}) rfl rfl
  have hlist : ((sheets.map WrittenSheet.name).mapIdx entryNode) =
      (sheets.map WrittenSheet.name).zipIdx.map fun e => entryNode e.2 e.1 :=
    List.mapIdx_eq_zipIdx_map
  rw [← htargets, ← hlist, List.append_nil] at hentries
  have hsheets : (Node.element "sheets" []
      ((sheets.map WrittenSheet.name).mapIdx entryNode)).events.foldlM (readEvent? targets) {} =
        some { sheets := (numbered (sheets.map WrittenSheet.name)).reverse } := by
    refine foldlM_element (hopen (by simp) _) hentries ?_
    simp [readEvent?, localName_eq_self, numbered]
  have hread : (tolerantEvents (document (workbookNode (sheets.map WrittenSheet.name)))).foldlM
      (readEvent? targets) {} =
        some { sheets := (numbered (sheets.map WrittenSheet.name)).reverse, done := true } := by
    refine foldlM_document (tidy_workbookNode _) rfl rfl (foldlM_element (hopen (by simp) _) (d := {
      sheets := (numbered (sheets.map WrittenSheet.name)).reverse }) ?_ ?_)
    · rw [List.flatMap_singleton]
      exact hsheets
    · simp [readEvent?, localName_eq_self]
  rw [ofPackage?, relationships?_ofSheets, ← htargets, tolerantEvents?, similarPart?_workbook]
  simp [hread]

end SheetEntry

end SheetTemplate
