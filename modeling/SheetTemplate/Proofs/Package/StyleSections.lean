import SheetTemplate.Package.StyleTable
import SheetTemplate.Proofs.Xml.Fold
import SheetTemplate.Proofs.Xml.Tree
/-!
Reading the styles section by section. The flag that says where the reader is follows the tree, as
long as no section has one of the four containers inside it.
-/
namespace SheetTemplate.StyleTable
open Xml

def IsNoSection (name : String) : Prop :=
  Section.ofName? name = none

instance (name : String) : Decidable (IsNoSection name) :=
  inferInstanceAs (Decidable (_ = _))

def readInner (r : Reading) (tag : String × Fields) : Reading :=
  readTag r false tag.1 tag.2

def readSection (r : Reading) (e : Element) : Reading :=
  match Section.ofName? e.name with
  | some place => { (tagsOfAll e.children).foldl readInner { r with place } with place := .outside }
  | none => e.tags.foldl readInner r

section tags
variable {r : Reading} {name : String} {raw : List Char} {fields : Fields}

theorem readTag_of_isNoSection (h : IsNoSection name) (r : Reading) (opens : Bool)
    (fields : Fields) : readTag r opens name fields = readInner r (name, fields) := by
  rw [IsNoSection] at h
  cases opens <;> simp only [readInner, readTag, h]

theorem readEvent_opening (h : fields? raw = some fields) (r : Reading) (name : String) :
    readEvent r (.opening name raw) = pure (readTag r true (localName name) fields) := by
  simp only [readEvent, h]
  rfl

theorem readEvent_selfClosing (h : fields? raw = some fields) (r : Reading) (name : String) :
    readEvent r (.selfClosing name raw) = pure (readTag r false (localName name) fields) := by
  simp only [readEvent, h]
  rfl

theorem readEvent_closing (h : IsNoSection (localName name)) (r : Reading) :
    readEvent r (.closing name) = pure r := by
  rw [IsNoSection] at h
  simp only [readEvent, h]
  rfl

private theorem place_readElement (r : Reading) (name : String) (fields : Fields) :
    (readElement r name fields).place = r.place := by
  unfold readElement
  split <;> first | rfl | (split <;> rfl)

theorem place_readInner (r : Reading) (tag : String × Fields) :
    (readInner r tag).place = r.place := by
  unfold readInner readTag
  split
  · split <;> rfl
  · exact place_readElement r tag.1 tag.2

private theorem place_foldl_readInner (r : Reading) (tags : List (String × Fields)) :
    (tags.foldl readInner r).place = r.place := by
  induction tags generalizing r with
  | nil => rfl
  | cons tag tags ih => rw [List.foldl_cons, ih, place_readInner]

/-- A code of numbers is no container. -/
theorem ne_numFmt_of_section {place : Section} (h : Section.ofName? name = some place) :
    name ≠ "numFmt" := by
  rintro rfl
  cases h

/-- Outside the containers an empty tag is read like an element without children. -/
theorem readTag_of_outside (h : r.place = .outside) (name : String) (fields : Fields) :
    readTag r false name fields = readSection r ⟨name, fields, []⟩ := by
  unfold readSection
  split
  · rename_i place hplace
    have hname : name ≠ "numFmt" := ne_numFmt_of_section hplace
    obtain ⟨_, solid, t⟩ := r
    subst h
    simp only [readTag, hname, if_false]
    rfl
  · rfl

theorem place_readSection (h : r.place = .outside) (e : Element) :
    (readSection r e).place = .outside := by
  unfold readSection
  split
  · rfl
  · rw [place_foldl_readInner, h]

private theorem place_foldl_readSection (h : r.place = .outside) (es : List Element) :
    (es.foldl readSection r).place = .outside := by
  induction es generalizing r with
  | nil => exact h
  | cons e es ih => exact ih (place_readSection h e)

end tags

/-- The closing tag of an element completes it. -/
theorem readEvent_closing_section (r : Reading) (name : String) (fields : Fields)
    (children : List Element) :
    readEvent ((tagsOfAll children).foldl readInner (readTag r true (localName name) fields))
      (.closing name) = pure (readSection r ⟨localName name, fields, children⟩) := by
  cases hsection : Section.ofName? (localName name) with
  | none =>
    rw [readEvent_closing hsection, readTag_of_isNoSection hsection]
    simp only [readSection, hsection, Element.tags, List.foldl_cons]
  | some place =>
    have hname : localName name ≠ "numFmt" := ne_numFmt_of_section hsection
    simp only [readEvent, readSection, readTag, hsection, hname, if_false, Option.isSome_some,
      if_true]
    rfl

/-! ### Events of trees -/

/-- Where no container is, each tag is read by itself. -/
theorem foldlM_of_isNoSection {es : List Element} {events : List Event} (h : Spells es events)
    (hnames : ∀ tag ∈ tagsOfAll es, IsNoSection tag.1) (r : Reading) :
    events.foldlM readEvent r = pure ((tagsOfAll es).foldl readInner r) := by
  induction h generalizing r with
  | nil => rfl
  | text raw h ih => exact (foldlM_cons_of_eq_pure rfl _).trans (ih hnames r)
  | other h ih => exact (foldlM_cons_of_eq_pure rfl _).trans (ih hnames r)
  | @empty name raw fields es events hfields h ih =>
    obtain ⟨-, hrest⟩ := List.forall_mem_cons.1 hnames
    rw [foldlM_cons_of_eq_pure (readEvent_selfClosing hfields r name)]
    exact ih hrest _
  | @element name raw fields children es inner events hfields hchildren h ihchildren ih =>
    rw [tagsOfAll, Element.tags, List.cons_append] at hnames
    obtain ⟨hname, hinner⟩ := List.forall_mem_cons.1 hnames
    obtain ⟨hinner, hrest⟩ := List.forall_mem_append.1 hinner
    rw [foldlM_cons_of_eq_pure (readEvent_opening hfields r name),
      foldlM_append_of_eq_pure (ihchildren hinner _),
      foldlM_cons_of_eq_pure (readEvent_closing hname _), ih hrest, readTag_of_isNoSection hname,
      tagsOfAll, Element.tags, List.cons_append, List.foldl_cons, List.foldl_append]

/-- Outside the containers, what follows is read element by element. -/
theorem foldlM_sections {es : List Element} {events : List Event} (h : Spells es events)
    (hnames : ∀ e ∈ es, ∀ tag ∈ tagsOfAll e.children, IsNoSection tag.1) {r : Reading}
    (hplace : r.place = .outside) :
    events.foldlM readEvent r = pure (es.foldl readSection r) := by
  induction h generalizing r with
  | nil => rfl
  | text raw h ih => exact (foldlM_cons_of_eq_pure rfl _).trans (ih hnames hplace)
  | other h ih => exact (foldlM_cons_of_eq_pure rfl _).trans (ih hnames hplace)
  | @empty name raw fields es events hfields h ih =>
    obtain ⟨-, hrest⟩ := List.forall_mem_cons.1 hnames
    rw [foldlM_cons_of_eq_pure (readEvent_selfClosing hfields r name), readTag_of_outside hplace]
    exact ih hrest (place_readSection hplace _)
  | @element name raw fields children es inner events hfields hchildren h _ ih =>
    obtain ⟨hinner, hrest⟩ := List.forall_mem_cons.1 hnames
    rw [foldlM_cons_of_eq_pure (readEvent_opening hfields r name),
      foldlM_append_of_eq_pure (foldlM_of_isNoSection hchildren hinner _)]
    rw [foldlM_cons_of_eq_pure (readEvent_closing_section r name fields children)]
    exact ih hrest (place_readSection hplace _)

/-- A root is read by its tag and then section by section. -/
theorem foldlM_roots {es : List Element} {events : List Event} (h : Spells es events)
    (hroot : ∀ e ∈ es, IsNoSection e.name)
    (hnames : ∀ e ∈ es, ∀ c ∈ e.children, ∀ tag ∈ tagsOfAll c.children, IsNoSection tag.1)
    {r : Reading} (hplace : r.place = .outside) :
    events.foldlM readEvent r =
      pure (es.foldl (fun r e => e.children.foldl readSection (readInner r e.tag)) r) := by
  induction h generalizing r with
  | nil => rfl
  | text raw h ih => exact (foldlM_cons_of_eq_pure rfl _).trans (ih hroot hnames hplace)
  | other h ih => exact (foldlM_cons_of_eq_pure rfl _).trans (ih hroot hnames hplace)
  | @empty name raw fields es events hfields h ih =>
    obtain ⟨-, hroots⟩ := List.forall_mem_cons.1 hroot
    obtain ⟨-, hrest⟩ := List.forall_mem_cons.1 hnames
    rw [foldlM_cons_of_eq_pure (readEvent_selfClosing hfields r name)]
    exact ih hroots hrest ((place_readInner r (localName name, fields)).trans hplace)
  | @element name raw fields children es inner events hfields hchildren h _ ih =>
    obtain ⟨hname, hroots⟩ := List.forall_mem_cons.1 hroot
    obtain ⟨hinner, hrest⟩ := List.forall_mem_cons.1 hnames
    have hinside := (place_readInner r (localName name, fields)).trans hplace
    rw [foldlM_cons_of_eq_pure (readEvent_opening hfields r name), readTag_of_isNoSection hname,
      foldlM_append_of_eq_pure (foldlM_sections hchildren hinner hinside),
      foldlM_cons_of_eq_pure (readEvent_closing hname _)]
    exact ih hroots hrest (place_foldl_readSection hinside _)

/-- The styles are read as the sections of their root, if the containers are among these and in
none of them. -/
theorem ofEvents_of_spells {root : Element} {events : List Event} (h : Spells [root] events)
    (hroot : IsNoSection root.name)
    (hnames : ∀ e ∈ root.children, ∀ tag ∈ tagsOfAll e.children, IsNoSection tag.1) :
    ofEvents events = .ok (root.children.foldl readSection (readInner {} root.tag)).table := by
  rw [ofEvents, foldlM_roots h (by simpa using hroot) (by simpa using hnames) rfl]
  rfl

end SheetTemplate.StyleTable
