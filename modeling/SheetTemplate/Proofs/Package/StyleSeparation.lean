import SheetTemplate.Proofs.Package.StyleReading
/-!
What sections of the styles can do to cell formats that are not made of them. The tables of fonts,
fills, borders and cell formats get nothing from elsewhere. Codes of numbers are taken wherever they
stand, so a cell format depends on other sections through the code of its number, and only so.
-/
namespace SheetTemplate.StyleTable
open Xml

/-! ### Codes in a tree -/

def codeOf? (tag : String × Fields) : Option (Nat × String) :=
  if tag.1 = "numFmt" then
    (tag.2.natural? (twoTo 32) "numFmtId").bind fun id => (tag.2.get? "formatCode").map (id, ·)
  else none

/-- The codes that the tree gives, in the order of their tags. -/
def codesIn (root : Element) : List (Nat × String) :=
  root.tags.filterMap codeOf?

/-- The code of a number: the last one that the tree gives it anywhere, or else the built-in one.
Number 0 has none. -/
def codeIn (root : Element) (id : Nat) : Option String :=
  if id = 0 then none
  else (((codesIn root).filter (·.1 = id)).getLast?.or (builtInCodes.find? (·.1 = id))).map (·.2)

/-- The codes that the tree gives outside the sections for codes. -/
def strayCodes (root : Element) : List (Nat × String) :=
  (root.tag :: (root.children.filter (·.name ≠ "numFmts")).flatMap Element.tags).filterMap codeOf?

/-- The numbers that the cell formats of the tree point to, in the order of the formats. -/
def numbersUsed (root : Element) : List Nat :=
  ((tagsOfAll (entries root "cellXfs")).filter (·.1 = "xf")).map fun tag =>
    (newFormat tag.2).numberFormat

/-- The containers are among the sections of the root, in any place, and nowhere else. -/
structure Sectioned (root : Element) : Prop where
  outermost : root.name ∉ containers
  sections : ∀ e ∈ root.children, Lacks e.children containers

/-- The sections that cell formats are made of have the same entries in both trees. -/
def SameSections (root root' : Element) : Prop :=
  ∀ name ∈ "numFmts" :: containers, entries root name = entries root' name

instance (root : Element) : Decidable (Sectioned root) :=
  decidable_of_iff (root.name ∉ containers ∧ ∀ e ∈ root.children, Lacks e.children containers)
    ⟨fun ⟨houtermost, hsections⟩ => ⟨houtermost, hsections⟩, fun h => ⟨h.outermost, h.sections⟩⟩

instance (root root' : Element) : Decidable (SameSections root root') :=
  inferInstanceAs (Decidable (∀ _ ∈ _, _))

def withoutNumber (p : Presentation) : Presentation :=
  { p with style := some { p.style.getD {} with numberFormat := none } }

/-! ### Reading codes -/

theorem codes_readElement (r : Reading) (name : String) (fields : Fields) :
    (readElement r name fields).table.codes = r.table.codes := by
  unfold readElement
  split <;> first | rfl | (split <;> rfl)

theorem codes_readInner (r : Reading) (tag : String × Fields) :
    (readInner r tag).table.codes = (codeOf? tag).toList ++ r.table.codes := by
  unfold readInner readTag codeOf?
  split
  · cases tag.2.natural? (twoTo 32) "numFmtId" with
    | none => rfl
    | some id => cases tag.2.get? "formatCode" <;> rfl
  · exact codes_readElement r tag.1 tag.2

theorem codes_foldl_readInner (r : Reading) (tags : List (String × Fields)) :
    (tags.foldl readInner r).table.codes = (tags.filterMap codeOf?).reverse ++ r.table.codes := by
  induction tags generalizing r with
  | nil => rfl
  | cons tag tags ih =>
    rw [List.foldl_cons, ih, codes_readInner, List.filterMap_cons]
    cases codeOf? tag <;> simp

/-- A container is read for the codes in it like any other section. -/
theorem codes_readSection (r : Reading) (e : Element) :
    (readSection r e).table.codes = (e.tags.filterMap codeOf?).reverse ++ r.table.codes := by
  cases h : Section.ofName? e.name with
  | none =>
    simp only [readSection, h]
    exact codes_foldl_readInner r e.tags
  | some place =>
    have htag : codeOf? e.tag = none := if_neg (ne_numFmt_of_section h)
    have hinside := codes_foldl_readInner { r with place } (tagsOfAll e.children)
    rw [Element.tags_eq, List.filterMap_cons, htag]
    simp only [readSection, h]
    exact hinside

private theorem codes_foldl_readSection (r : Reading) (es : List Element) :
    (es.foldl readSection r).table.codes =
      ((tagsOfAll es).filterMap codeOf?).reverse ++ r.table.codes := by
  induction es generalizing r with
  | nil => rfl
  | cons e es ih =>
    rw [List.foldl_cons, ih, codes_readSection, tagsOfAll, List.filterMap_append,
      List.reverse_append, List.append_assoc]

/-! ### Reading the other tables -/

/-- What the containers among the sections make of the tables, without codes. -/
def readTables (r : Reading) (es : List Element) : Reading where
  place := .outside
  solid := ((tagsOfAll (childrenOf "fills" es)).foldl fillsStep (r.solid, r.table.fills)).1
  table := {
    fonts := (tagsOfAll (childrenOf "fonts" es)).foldl fontsStep r.table.fonts
    fills := ((tagsOfAll (childrenOf "fills" es)).foldl fillsStep (r.solid, r.table.fills)).2
    borders := (tagsOfAll (childrenOf "borders" es)).foldl bordersStep r.table.borders
    formats := (tagsOfAll (childrenOf "cellXfs" es)).foldl formatsStep r.table.formats }

theorem tagsOfAll_append (es es' : List Element) :
    tagsOfAll (es ++ es') = tagsOfAll es ++ tagsOfAll es' := by
  induction es with
  | nil => rfl
  | cons e es ih => rw [List.cons_append, tagsOfAll, tagsOfAll, ih, List.append_assoc]

private theorem readTables_append (r : Reading) (es es' : List Element) :
    readTables r (es ++ es') = readTables (readTables r es) es' := by
  simp only [readTables, childrenOf_append, tagsOfAll_append, List.foldl_append]

/-- A section changes its own table if it is a container, and nothing but codes if it is not. -/
theorem withoutCodes_readSection {r : Reading} (hplace : r.place = .outside) (e : Element) :
    (readSection r e).withoutCodes = readTables r [e] := by
  obtain ⟨place, solid, t⟩ := r
  obtain ⟨name, fields, children⟩ := e
  subst hplace
  have hinside (place : Section) :
      ((tagsOfAll children).foldl readInner ⟨place, solid, t⟩).withoutCodes =
        (tagsOfAll children).foldl readPlain ⟨place, solid, { t with codes := [] }⟩ :=
    withoutCodes_foldl_readInner _ _
  have hcontainer {place : Section} (h : Section.ofName? name = some place) :
      (readSection ⟨.outside, solid, t⟩ ⟨name, fields, children⟩).withoutCodes =
        { (tagsOfAll children).foldl readPlain ⟨place, solid, { t with codes := [] }⟩ with
          place := .outside } := by
    rw [← hinside]
    simp only [readSection, h]
    rfl
  by_cases hname : name ∈ containers
  · simp only [containers, List.mem_cons, List.not_mem_nil, or_false] at hname
    rcases hname with rfl | rfl | rfl | rfl
    · rw [hcontainer rfl, foldl_readPlain_fonts]
      simp [readTables, childrenOf_singleton, tagsOfAll]
    · rw [hcontainer rfl, foldl_readPlain_fills]
      simp [readTables, childrenOf_singleton, tagsOfAll]
    · rw [hcontainer rfl, foldl_readPlain_borders]
      simp [readTables, childrenOf_singleton, tagsOfAll]
    · rw [hcontainer rfl, foldl_readPlain_formats]
      simp [readTables, childrenOf_singleton, tagsOfAll]
  · have hsection : Section.ofName? name = none := isNoSection_of_not_mem hname
    have hfold := withoutCodes_foldl_readInner ⟨.outside, solid, t⟩
      (Element.tags ⟨name, fields, children⟩)
    simp only [containers, List.mem_cons, List.not_mem_nil, or_false, not_or] at hname
    simp only [readSection, hsection]
    rw [hfold, Reading.withoutCodes, foldl_readPlain_outside]
    simp [readTables, childrenOf_singleton, tagsOfAll, hname]

private theorem withoutCodes_foldl_readSection {r : Reading} (hplace : r.place = .outside)
    (es : List Element) : (es.foldl readSection r).withoutCodes = readTables r es := by
  induction es generalizing r with
  | nil =>
    obtain ⟨place, solid, t⟩ := r
    subst hplace
    rfl
  | cons e es ih =>
    have hnext : readTables (readSection r e) es = readTables (readSection r e).withoutCodes es :=
      rfl
    rw [List.foldl_cons, ih (place_readSection hplace e), hnext, withoutCodes_readSection hplace,
      ← readTables_append, List.singleton_append]

/-- The tables of a tree: the codes of the whole tree, and what the containers give. -/
def tablesOf (root : Element) : StyleTable :=
  { (readTables {} root.children).table with codes := (codesIn root).reverse }

/-- The tables that are read from the styles are those of their tree. -/
theorem ofEvents_eq_tablesOf {root : Element} {events : List Event} (h : Spells [root] events)
    (hroot : Sectioned root) : ofEvents events = .ok (tablesOf root) := by
  have houtermost := isNoSection_of_not_mem hroot.outermost
  have hnames : ∀ e ∈ root.children, ∀ tag ∈ tagsOfAll e.children, IsNoSection tag.1 :=
    fun e he tag htag => isNoSection_of_not_mem (hroot.sections e he tag htag)
  have hplace : (readInner {} root.tag).place = .outside := place_readInner {} root.tag
  have hstart : (readInner {} root.tag).withoutCodes = {} := withoutCodes_readInner {} root.tag
  have hsame : readTables (readInner {} root.tag) root.children =
      readTables (readInner {} root.tag).withoutCodes root.children := rfl
  have hcodes : (root.children.foldl readSection (readInner {} root.tag)).table.codes =
      (codesIn root).reverse := by
    rw [codes_foldl_readSection, codes_readInner, codesIn, Element.tags_eq, List.filterMap_cons]
    cases codeOf? root.tag <;> simp
  have htables := withoutCodes_foldl_readSection hplace root.children
  rw [hsame, hstart] at htables
  rw [ofEvents_of_spells h houtermost hnames, tablesOf, ← htables, ← hcodes]
  rfl

/-! ### Codes and numbers of the tables -/

private theorem code?_tablesOf (root : Element) (id : Nat) :
    (tablesOf root).code? id = codeIn root id := by
  have hlast : (codesIn root).reverse.find? (fun e => decide (e.1 = id)) =
      ((codesIn root).filter (·.1 = id)).getLast? := by
    rw [← List.head?_filter, List.filter_reverse, List.head?_reverse]
  rw [code?, codeIn, tablesOf, List.find?_append, hlast]

private theorem numberFormat_formatProperty (name : String) (fields : Fields) (f : CellFormat) :
    (formatProperty name fields f).numberFormat = f.numberFormat := by
  rw [formatProperty_eq]

private theorem map_numberFormat_changeLatest {change : CellFormat → CellFormat}
    (h : ∀ f, (change f).numberFormat = f.numberFormat) (formats : List CellFormat) :
    (changeLatest change formats).map CellFormat.numberFormat =
      formats.map CellFormat.numberFormat := by
  cases formats with
  | nil => rfl
  | cons f formats => rw [changeLatest, List.map_cons, List.map_cons, h]

/-- What stands in a cell format after its tag does not change its number. -/
theorem map_numberFormat_foldl (tags : List (String × Fields)) (formats : List CellFormat) :
    (tags.foldl formatsStep formats).map CellFormat.numberFormat =
      ((tags.filter (·.1 = "xf")).map fun tag => (newFormat tag.2).numberFormat).reverse
        ++ formats.map CellFormat.numberFormat := by
  induction tags generalizing formats with
  | nil => rfl
  | cons tag tags ih =>
    rw [List.foldl_cons, ih, formatsStep, List.filter_cons]
    by_cases hxf : tag.1 = "xf"
    · simp [hxf]
    · simp [hxf, map_numberFormat_changeLatest (numberFormat_formatProperty tag.1 tag.2)]

private theorem map_numberFormat_tablesOf (root : Element) :
    (tablesOf root).formats.map CellFormat.numberFormat = (numbersUsed root).reverse := by
  rw [tablesOf, readTables, map_numberFormat_foldl, List.map_nil, List.append_nil]
  rfl

private theorem forall_formats_iff (root : Element) (P : Nat → Prop) :
    (∀ f ∈ (tablesOf root).formats, P f.numberFormat) ↔ ∀ id ∈ numbersUsed root, P id := by
  have hmap : (∀ id ∈ (tablesOf root).formats.map CellFormat.numberFormat, P id) ↔
      ∀ f ∈ (tablesOf root).formats, P f.numberFormat := List.forall_mem_map
  rw [← hmap, map_numberFormat_tablesOf]
  simp only [List.mem_reverse]

/-! ### Two trees -/

section pairs
variable {t t' : StyleTable} {root root' : Element}

theorem tables_eq (h : { t with codes := [] } = { t' with codes := [] }) :
    t.fonts = t'.fonts ∧ t.fills = t'.fills ∧ t.borders = t'.borders ∧ t.formats = t'.formats := by
  simpa using h

private theorem presentation_eq_iff (h : { t with codes := [] } = { t' with codes := [] })
    (f : CellFormat) :
    t.presentation f = t'.presentation f ↔ t.code? f.numberFormat = t'.code? f.numberFormat := by
  obtain ⟨hfonts, hfills, hborders, -⟩ := tables_eq h
  constructor
  · intro heq
    have hstyle := congrArg (fun p => p.style.getD {}) heq
    simp only [presentation, getD_style?] at hstyle
    exact congrArg Style.numberFormat hstyle
  · intro hcode
    simp only [presentation, style?, hfonts, hfills, hborders, hcode]

private theorem withoutNumber_presentation (h : { t with codes := [] } = { t' with codes := [] })
    (f : CellFormat) : withoutNumber (t.presentation f) = withoutNumber (t'.presentation f) := by
  obtain ⟨hfonts, hfills, hborders, -⟩ := tables_eq h
  simp only [withoutNumber, presentation, getD_style?, hfonts, hfills, hborders]

/-- Presentations of the same cell formats are the same if the formats' numbers have the same
codes. -/
theorem presentations_eq_iff_code? (h : { t with codes := [] } = { t' with codes := [] }) :
    t.presentations = t'.presentations ↔
      ∀ f ∈ t.formats, t.code? f.numberFormat = t'.code? f.numberFormat := by
  obtain ⟨-, -, -, hformats⟩ := tables_eq h
  have hpresentations : t.presentations = t'.presentations ↔
      t.formats.reverse.map t.presentation = t.formats.reverse.map t'.presentation := by
    rw [presentations, presentations, ← hformats, ← Array.toList_inj]
  rw [hpresentations, List.map_inj_left]
  simp only [List.mem_reverse, presentation_eq_iff h]

private theorem readTables_eq_of_sameSections (h : SameSections root root') (r : Reading) :
    readTables r root.children = readTables r root'.children := by
  have hfonts : childrenOf "fonts" root.children = childrenOf "fonts" root'.children :=
    h "fonts" (by decide)
  have hfills : childrenOf "fills" root.children = childrenOf "fills" root'.children :=
    h "fills" (by decide)
  have hborders : childrenOf "borders" root.children = childrenOf "borders" root'.children :=
    h "borders" (by decide)
  have hformats : childrenOf "cellXfs" root.children = childrenOf "cellXfs" root'.children :=
    h "cellXfs" (by decide)
  simp only [readTables, hfonts, hfills, hborders, hformats]

theorem filter_codes_eq_nil {tags : List (String × Fields)} {id : Nat}
    (h : ∀ c ∈ tags.filterMap codeOf?, c.1 ≠ id) :
    (tags.filterMap codeOf?).filter (·.1 = id) = [] :=
  List.filter_eq_nil_iff.2 fun c hc => by simpa using h c hc

/-- Of a number that only sections for codes give a code, the codes are those in these sections. -/
theorem filter_codes_sections {es : List Element} {id : Nat}
    (h : ∀ e ∈ es, e.name ≠ "numFmts" → ∀ c ∈ e.tags.filterMap codeOf?, c.1 ≠ id) :
    ((tagsOfAll es).filterMap codeOf?).filter (·.1 = id) =
      ((tagsOfAll (childrenOf "numFmts" es)).filterMap codeOf?).filter (·.1 = id) := by
  induction es with
  | nil => rfl
  | cons e es ih =>
    obtain ⟨he, hes⟩ := List.forall_mem_cons.1 h
    have hfirst : (e.tags.filterMap codeOf?).filter (·.1 = id) =
        ((tagsOfAll (childrenOf "numFmts" [e])).filterMap codeOf?).filter (·.1 = id) := by
      rw [childrenOf_singleton]
      by_cases hname : e.name = "numFmts"
      · have htag : codeOf? e.tag = none := if_neg fun h => absurd (hname.symm.trans h) (by decide)
        rw [if_pos hname, Element.tags_eq, List.filterMap_cons, htag]
      · rw [if_neg hname, filter_codes_eq_nil (he hname)]
        rfl
    rw [tagsOfAll, ← List.singleton_append, childrenOf_append, tagsOfAll_append,
      List.filterMap_append, List.filterMap_append, List.filter_append, List.filter_append, hfirst,
      ih hes]

theorem filter_codesIn {id : Nat} (h : ∀ c ∈ strayCodes root, c.1 ≠ id) :
    (codesIn root).filter (·.1 = id) =
      ((tagsOfAll (entries root "numFmts")).filterMap codeOf?).filter (·.1 = id) := by
  rw [strayCodes, ← List.singleton_append, List.filterMap_append, List.forall_mem_append] at h
  obtain ⟨htag, hsections⟩ := h
  have hinside : ∀ e ∈ root.children, e.name ≠ "numFmts" →
      ∀ c ∈ e.tags.filterMap codeOf?, c.1 ≠ id := by
    intro e he hname c hc
    obtain ⟨tag, htag, hcode⟩ := List.mem_filterMap.1 hc
    refine hsections c (List.mem_filterMap.2 ⟨tag, List.mem_flatMap.2 ⟨e, ?_, htag⟩, hcode⟩)
    exact List.mem_filter.2 ⟨he, decide_eq_true hname⟩
  rw [codesIn, Element.tags_eq, ← List.singleton_append, List.filterMap_append, List.filter_append,
    filter_codes_eq_nil htag, List.nil_append, filter_codes_sections hinside]
  rfl

private theorem codeIn_eq_of_sameSections (h : SameSections root root') {id : Nat}
    (hid : ∀ c ∈ strayCodes root ++ strayCodes root', c.1 ≠ id) :
    codeIn root id = codeIn root' id := by
  obtain ⟨hstray, hstray'⟩ := List.forall_mem_append.1 hid
  have hcodes : entries root "numFmts" = entries root' "numFmts" := h "numFmts" (by decide)
  rw [codeIn, codeIn, filter_codesIn hstray, filter_codesIn hstray', hcodes]

end pairs

/-- Two styles with the same codes, fonts, fills, borders and cell formats in the sections for these
are presented alike apart from the codes of numbers. They are presented alike altogether exactly if
each number that a cell format points to has the same code in both trees; so they are if no other
section gives such a number a code. -/
theorem presentations_eq_iff_codeIn {s s' : String} {root root' : Element}
    (h : Spells [root] (strictEvents s)) (h' : Spells [root'] (strictEvents s'))
    (hroot : Sectioned root) (hroot' : Sectioned root') (hsame : SameSections root root') :
    ∃ t t', ofEvents (strictEvents s) = .ok t ∧ ofEvents (strictEvents s') = .ok t' ∧
      t.presentations.map withoutNumber = t'.presentations.map withoutNumber ∧
      (t.presentations = t'.presentations ↔
        ∀ id ∈ numbersUsed root, codeIn root id = codeIn root' id) ∧
      ((∀ c ∈ strayCodes root ++ strayCodes root', c.1 ∉ numbersUsed root) →
        t.presentations = t'.presentations) := by
  have htables : { tablesOf root with codes := [] } = { tablesOf root' with codes := [] } := by
    rw [tablesOf, tablesOf, readTables_eq_of_sameSections hsame]
  have hiff : (tablesOf root).presentations = (tablesOf root').presentations ↔
      ∀ id ∈ numbersUsed root, codeIn root id = codeIn root' id := by
    simp only [presentations_eq_iff_code? htables, code?_tablesOf]
    exact forall_formats_iff root fun id => codeIn root id = codeIn root' id
  refine ⟨_, _, ofEvents_eq_tablesOf h hroot, ofEvents_eq_tablesOf h' hroot', ?_, hiff,
    fun hstray => hiff.2 fun id hid => ?_⟩
  · obtain ⟨-, -, -, hformats⟩ := tables_eq htables
    simp only [presentations, ← hformats, List.map_toArray, List.map_map]
    congr 1
    exact List.map_congr_left fun f _ => withoutNumber_presentation htables f
  · exact codeIn_eq_of_sameSections hsame fun c hc heq => hstray c hc (heq ▸ hid)

/-- Styles whose one cell format has a code of its own, with other sections behind. -/
def rated (sections : List Element) : Element :=
  ⟨"styleSheet", [],
    [⟨"numFmts", [], [⟨"numFmt", [("numFmtId", "164"), ("formatCode", "0.0")], []⟩]⟩,
      ⟨"cellXfs", [], [⟨"xf", [("numFmtId", "164")], []⟩]⟩] ++ sections⟩

def ratedTags (sections : List String) : List String :=
  ["<styleSheet>", "<numFmts>", "<numFmt numFmtId='164' formatCode='0.0'/>", "</numFmts>",
    "<cellXfs>", "<xf numFmtId='164'/>", "</cellXfs>"] ++ sections ++ ["</styleSheet>"]

def ratedStyles (sections : List String) : String :=
  String.ofList ((ratedTags sections).flatMap String.toList)

/-- A section with the format of a condition, which has a bold font and a code for a number. -/
def conditional (id code : String) : Element :=
  ⟨"dxfs", [], [⟨"dxf", [], [⟨"font", [], [⟨"b", [], []⟩]⟩,
    ⟨"numFmt", [("numFmtId", id), ("formatCode", code)], []⟩]⟩]⟩

def conditionalTags (id code : String) : List String :=
  ["<dxfs>", "<dxf>", "<font>", "<b/>", "</font>",
    "<numFmt numFmtId='" ++ id ++ "' formatCode='" ++ code ++ "'/>", "</dxf>", "</dxfs>"]

theorem spells_of_trees? {cs : List Char} {root : Element} (hmark : cs.head? ≠ some '\ufeff')
    (h : trees? (strict [] (eventsFrom cs.length cs)) = some [root]) :
    Spells [root] (strictEvents (String.ofList cs)) := by
  rw [strictEvents_ofList hmark]
  exact trees?_eq_some_iff.1 h

theorem spells_rated : Spells [rated []] (strictEvents (ratedStyles [])) :=
  spells_of_trees? (by decide +kernel) (by decide +kernel)

/-- Without the section and with it, which gives another number a code, the cell format is the
same. -/
theorem rated_presentations_eq_iff :
    ∃ t t', ofEvents (strictEvents (ratedStyles [])) = .ok t ∧
      ofEvents (strictEvents (ratedStyles (conditionalTags "165" "0.000"))) = .ok t' ∧
      t.presentations = t'.presentations := by
  have hspells : Spells [rated [conditional "165" "0.000"]]
      (strictEvents (ratedStyles (conditionalTags "165" "0.000"))) :=
    spells_of_trees? (by decide +kernel) (by decide +kernel)
  obtain ⟨t, t', hread, hread', -, -, hstray⟩ := presentations_eq_iff_codeIn spells_rated hspells
    (by decide) (by decide) (by decide +kernel)
  exact ⟨t, t', hread, hread', hstray (by decide +kernel)⟩

/-- If the section gives the number of the cell format a code, the format changes. -/
theorem conditional_code_shown :
    Spells [rated []] (strictEvents (ratedStyles [])) ∧
      Spells [rated [conditional "164" "0.000"]]
        (strictEvents (ratedStyles (conditionalTags "164" "0.000"))) ∧
      Shape (rated []) ∧ Shape (rated [conditional "164" "0.000"]) ∧
      SameSections (rated []) (rated [conditional "164" "0.000"]) ∧
      ∃ t t', ofEvents (strictEvents (ratedStyles [])) = .ok t ∧
        ofEvents (strictEvents (ratedStyles (conditionalTags "164" "0.000"))) = .ok t' ∧
        t.presentations[0]? ≠ t'.presentations[0]? := by
  have hspells : Spells [rated [conditional "164" "0.000"]]
      (strictEvents (ratedStyles (conditionalTags "164" "0.000"))) :=
    spells_of_trees? (by decide +kernel) (by decide +kernel)
  refine ⟨spells_rated, hspells, by decide +kernel, by decide +kernel, by decide +kernel, _, _,
    ofEvents_eq_tablesOf spells_rated (by decide), ofEvents_eq_tablesOf hspells (by decide), ?_⟩
  decide +kernel

end SheetTemplate.StyleTable
