import SheetTemplate.Proofs.Package.StyleTree
/-!
The reader of the styles agrees with the tree. Each section adds its entries to its own table, and
what stands in other sections changes no table but that of the codes of numbers.
-/
namespace SheetTemplate.StyleTable
open Xml

/-- What is read apart from the codes of numbers, which may stand anywhere. -/
def Reading.withoutCodes (r : Reading) : Reading :=
  { r with table := { r.table with codes := [] } }

def readPlain (r : Reading) (tag : String × Fields) : Reading :=
  readElement r tag.1 tag.2

/-! ### One step in each place -/

section steps
variable (solid : Bool) (t : StyleTable) (tag : String × Fields)

theorem readPlain_fonts : readPlain ⟨.fonts, solid, t⟩ tag =
    ⟨.fonts, solid, { t with fonts := fontsStep t.fonts tag }⟩ := by
  unfold readPlain readElement fontsStep
  split <;> simp_all

theorem readPlain_fills : readPlain ⟨.fills, solid, t⟩ tag =
    ⟨.fills, (fillsStep (solid, t.fills) tag).1,
      { t with fills := (fillsStep (solid, t.fills) tag).2 }⟩ := by
  unfold readPlain readElement fillsStep
  cases solid <;> split <;> simp_all [get?_eq_lastNamed?, color?_eq_colorOf]

private theorem changeLatest_borderProperty (borders : List (Option Border)) :
    changeLatest (borderProperty tag) borders =
      if sides.contains tag.1 then changeLatest (·.or (lineOf tag.2)) borders else borders := by
  cases borders with
  | nil => split <;> rfl
  | cons border borders =>
    rw [changeLatest, borderProperty]
    split <;> rfl

theorem readPlain_borders : readPlain ⟨.borders, solid, t⟩ tag =
    ⟨.borders, solid, { t with borders := bordersStep t.borders tag }⟩ := by
  by_cases hborder : tag.1 = "border"
  · simp [readPlain, readElement, bordersStep, hborder]
  · rw [bordersStep, if_neg hborder, changeLatest_borderProperty, sides, ← line_eq_lineOf]
    simp only [readPlain, readElement]
    split <;> rfl

theorem readPlain_formats : readPlain ⟨.cellFormats, solid, t⟩ tag =
    ⟨.cellFormats, solid, { t with formats := formatsStep t.formats tag }⟩ := by
  unfold readPlain readElement formatsStep
  split <;> simp_all

end steps

/-! ### Codes of numbers -/

/-- No entry of a table is called like a code of numbers. -/
theorem readPlain_numFmt (r : Reading) (fields : Fields) : readPlain r ("numFmt", fields) = r := by
  obtain ⟨place, solid, ⟨codes, fonts, fills, borders, formats⟩⟩ := r
  cases place with
  | fonts => cases fonts <;> rfl
  | cellFormats => cases formats <;> rfl
  | outside | fills | borders => rfl

private theorem withoutCodes_readPlain (r : Reading) (tag : String × Fields) :
    (readPlain r tag).withoutCodes = readPlain r.withoutCodes tag := by
  obtain ⟨place, solid, t⟩ := r
  cases place with
  | outside => rfl
  | fonts => rw [readPlain_fonts, Reading.withoutCodes, Reading.withoutCodes, readPlain_fonts]
  | fills => rw [readPlain_fills, Reading.withoutCodes, Reading.withoutCodes, readPlain_fills]
  | borders => rw [readPlain_borders, Reading.withoutCodes, Reading.withoutCodes, readPlain_borders]
  | cellFormats =>
    rw [readPlain_formats, Reading.withoutCodes, Reading.withoutCodes, readPlain_formats]

theorem withoutCodes_readInner (r : Reading) (tag : String × Fields) :
    (readInner r tag).withoutCodes = readPlain r.withoutCodes tag := by
  obtain ⟨name, fields⟩ := tag
  by_cases hname : name = "numFmt"
  · subst hname
    rw [readPlain_numFmt]
    simp only [readInner, readTag, if_true]
    split <;> rfl
  · rw [← withoutCodes_readPlain]
    simp only [readInner, readTag, hname, if_false, readPlain]

theorem withoutCodes_foldl_readInner (r : Reading) (tags : List (String × Fields)) :
    (tags.foldl readInner r).withoutCodes = tags.foldl readPlain r.withoutCodes :=
  (List.foldl_hom Reading.withoutCodes fun r tag => (withoutCodes_readInner r tag).symm).symm

/-! ### Whole sections -/

section places
variable (solid : Bool) (t : StyleTable) (tags : List (String × Fields))

theorem foldl_readPlain_outside :
    tags.foldl readPlain ⟨.outside, solid, t⟩ = ⟨.outside, solid, t⟩ := by
  induction tags with
  | nil => rfl
  | cons tag tags ih => exact ih

theorem foldl_readPlain_fonts : tags.foldl readPlain ⟨.fonts, solid, t⟩ =
    ⟨.fonts, solid, { t with fonts := tags.foldl fontsStep t.fonts }⟩ :=
  List.foldl_hom (fun fonts => (⟨.fonts, solid, { t with fonts }⟩ : Reading))
    fun fonts tag => readPlain_fonts solid { t with fonts } tag

theorem foldl_readPlain_fills : tags.foldl readPlain ⟨.fills, solid, t⟩ =
    ⟨.fills, (tags.foldl fillsStep (solid, t.fills)).1,
      { t with fills := (tags.foldl fillsStep (solid, t.fills)).2 }⟩ := by
  induction tags generalizing solid t with
  | nil => rfl
  | cons tag tags ih =>
    rw [List.foldl_cons, readPlain_fills, ih]
    rfl

theorem foldl_readPlain_borders : tags.foldl readPlain ⟨.borders, solid, t⟩ =
    ⟨.borders, solid, { t with borders := tags.foldl bordersStep t.borders }⟩ :=
  List.foldl_hom (fun borders => (⟨.borders, solid, { t with borders }⟩ : Reading))
    fun borders tag => readPlain_borders solid { t with borders } tag

theorem foldl_readPlain_formats : tags.foldl readPlain ⟨.cellFormats, solid, t⟩ =
    ⟨.cellFormats, solid, { t with formats := tags.foldl formatsStep t.formats }⟩ :=
  List.foldl_hom (fun formats => (⟨.cellFormats, solid, { t with formats }⟩ : Reading))
    fun formats tag => readPlain_formats solid { t with formats } tag

end places

/-- The tables with the entries of some sections, without codes. -/
def addSections (t : StyleTable) (es : List Element) : StyleTable where
  fonts := ((childrenOf "fonts" es).map fontOf).reverse ++ t.fonts
  fills := ((childrenOf "fills" es).map fillOf).reverse ++ t.fills
  borders := ((childrenOf "borders" es).map borderOf).reverse ++ t.borders
  formats := ((childrenOf "cellXfs" es).map formatOf).reverse ++ t.formats

theorem childrenOf_singleton (name : String) (e : Element) :
    childrenOf name [e] = if e.name = name then e.children else [] := by
  by_cases h : e.name = name <;> simp [childrenOf, h]

theorem childrenOf_append (name : String) (es es' : List Element) :
    childrenOf name (es ++ es') = childrenOf name es ++ childrenOf name es' := by
  rw [childrenOf, List.filter_append, List.flatMap_append]
  rfl

private theorem addSections_append (t : StyleTable) (es es' : List Element) :
    addSections t (es ++ es') = addSections (addSections t es) es' := by
  simp only [addSections, childrenOf_append, List.map_append, List.reverse_append,
    List.append_assoc]

theorem HasEntries.of_append {es es' : List Element} (h : HasEntries (es ++ es')) :
    HasEntries es ∧ HasEntries es' := by
  obtain ⟨hfonts, hfills, hborders, hformats⟩ := h
  simp only [childrenOf_append, List.forall_mem_append] at hfonts hfills hborders hformats
  exact ⟨⟨hfonts.1, hfills.1, hborders.1, hformats.1⟩,
    ⟨hfonts.2, hfills.2, hborders.2, hformats.2⟩⟩

section sections
variable {r : Reading} {e : Element} {es : List Element}

private theorem table_readSection {place : Section} (h : Section.ofName? e.name = some place)
    (r : Reading) : (readSection r e).withoutCodes.table =
      ((tagsOfAll e.children).foldl readPlain ⟨place, r.solid, r.withoutCodes.table⟩).table := by
  have hinside := withoutCodes_foldl_readInner { r with place } (tagsOfAll e.children)
  have htable := congrArg Reading.table hinside
  simp only [readSection, h]
  exact htable

private theorem table_readSection_of_none (h : Section.ofName? e.name = none)
    (hplace : r.place = .outside) :
    (readSection r e).withoutCodes.table = r.withoutCodes.table := by
  have hfold := withoutCodes_foldl_readInner r e.tags
  have hsame : e.tags.foldl readPlain r.withoutCodes = r.withoutCodes := by
    obtain ⟨_, solid, t⟩ := r
    subst hplace
    exact foldl_readPlain_outside solid _ e.tags
  simp only [readSection, h]
  rw [hfold, hsame]

/-- A container adds its entries to the table that it holds, and nothing else changes a table. -/
theorem table_readSection_eq (h : HasEntries [e]) (hplace : r.place = .outside) :
    (readSection r e).withoutCodes.table = addSections r.withoutCodes.table [e] := by
  obtain ⟨hfonts, hfills, hborders, hformats⟩ := h
  simp only [childrenOf_singleton] at hfonts hfills hborders hformats
  cases hsection : Section.ofName? e.name with
  | none =>
    rw [table_readSection_of_none hsection hplace]
    unfold Section.ofName? at hsection
    split at hsection
    case h_5 hfonts' hfills' hborders' hformats' =>
      simp only [addSections, childrenOf_singleton, if_neg hfonts', if_neg hfills',
        if_neg hborders', if_neg hformats']
      rfl
    all_goals cases hsection
  | some place =>
    rw [table_readSection hsection]
    unfold Section.ofName? at hsection
    split at hsection
    case h_1 hname =>
      obtain rfl := Option.some.inj hsection
      rw [if_pos hname] at hfonts
      rw [foldl_readPlain_fonts, foldl_fonts hfonts]
      simp [addSections, childrenOf_singleton, hname, Reading.withoutCodes]
    case h_2 hname =>
      obtain rfl := Option.some.inj hsection
      rw [if_pos hname] at hfills
      rw [foldl_readPlain_fills, foldl_fills hfills]
      simp [addSections, childrenOf_singleton, hname, Reading.withoutCodes]
    case h_3 hname =>
      obtain rfl := Option.some.inj hsection
      rw [if_pos hname] at hborders
      rw [foldl_readPlain_borders, foldl_borders hborders]
      simp [addSections, childrenOf_singleton, hname, Reading.withoutCodes]
    case h_4 hname =>
      obtain rfl := Option.some.inj hsection
      rw [if_pos hname] at hformats
      rw [foldl_readPlain_formats, foldl_formats hformats]
      simp [addSections, childrenOf_singleton, hname, Reading.withoutCodes]
    case h_5 => cases hsection

/-- All sections together fill the tables with the entries of the tree. -/
theorem table_foldl_readSection (h : HasEntries es) (hplace : r.place = .outside) :
    (es.foldl readSection r).withoutCodes.table = addSections r.withoutCodes.table es := by
  induction es generalizing r with
  | nil => rfl
  | cons e es ih =>
    rw [← List.singleton_append] at h
    obtain ⟨he, hes⟩ := h.of_append
    rw [List.foldl_cons, ih hes (place_readSection hplace e), table_readSection_eq he hplace,
      ← addSections_append, List.singleton_append]

end sections

theorem isNoSection_of_not_mem {name : String} (h : name ∉ containers) : IsNoSection name := by
  simp only [containers, List.mem_cons, List.not_mem_nil, or_false, not_or] at h
  unfold IsNoSection Section.ofName?
  split <;> simp_all

/-- The tables that are read from the styles, without codes, are those of the tree. -/
theorem exists_ofEvents_of_shape {root : Element} {events : List Event} (h : Spells [root] events)
    (hshape : Shape root) : ∃ t, ofEvents events = .ok t ∧
      { t with codes := [] } = addSections {} root.children := by
  have hroot := isNoSection_of_not_mem hshape.outermost
  have hnames : ∀ e ∈ root.children, ∀ tag ∈ tagsOfAll e.children, IsNoSection tag.1 :=
    fun e he tag htag => isNoSection_of_not_mem (hshape.sections e he tag htag)
  have hplace : (readInner {} root.tag).place = .outside := place_readInner {} root.tag
  have hstart : (readInner {} root.tag).withoutCodes = {} := withoutCodes_readInner {} root.tag
  refine ⟨_, ofEvents_of_spells h hroot hnames, ?_⟩
  have htable := table_foldl_readSection hshape.toHasEntries hplace
  rwa [hstart] at htable

/-! ### Presentations -/

theorem getD_style? (t : StyleTable) (f : CellFormat) : ((t.style? f).getD {}) =
    { bold := (t.fonts.reverse.getD f.font {}).bold
      italic := (t.fonts.reverse.getD f.font {}).italic
      underline := (t.fonts.reverse.getD f.font {}).underline
      wrap := f.wrap
      fontName := unlessStandard (· = ·) (t.fonts.reverse.headD {}).name
        (t.fonts.reverse.getD f.font {}).name
      fontSize := unlessStandard Binary64.equals (t.fonts.reverse.headD {}).size
        (t.fonts.reverse.getD f.font {}).size
      fontColor := unlessStandard (· = ·) (t.fonts.reverse.headD {}).color
        (t.fonts.reverse.getD f.font {}).color
      fillColor := t.fills.reverse.getD f.fill none
      numberFormat := t.code? f.numberFormat
      align := f.align
      border := t.borders.reverse.getD f.border none } := by
  unfold style?
  simp only
  split
  · rename_i h
    exact h.symm
  · rfl

theorem unlessStandard_eq {α : Type} [DecidableEq α] (standard own : Option α) :
    unlessStandard (· = ·) standard own = own.filter fun a => standard ≠ some a := by
  rw [unlessStandard]
  congr 1
  funext a
  cases standard with
  | none => rfl
  | some s => simp [eq_comm]

private theorem unlessStandard_any {α : Type} (same : α → α → Bool) (standard own : Option α) :
    unlessStandard same standard own = own.filter fun a => !standard.any (same a) := by
  rw [unlessStandard]
  congr 1
  funext a
  cases standard <;> rfl

/-- A cell format is presented as the tree shows it, given the tables of the tree. -/
theorem shows_presentation {t : StyleTable} {root : Element}
    (ht : { t with codes := [] } = addSections {} root.children) (xf : Element) :
    Shows root xf (t.presentation (formatOf xf)) := by
  have hfonts : t.fonts = ((entries root "fonts").map fontOf).reverse :=
    (congrArg StyleTable.fonts ht).trans (List.append_nil _)
  have hfills : t.fills = ((entries root "fills").map fillOf).reverse :=
    (congrArg StyleTable.fills ht).trans (List.append_nil _)
  have hborders : t.borders = ((entries root "borders").map borderOf).reverse :=
    (congrArg StyleTable.borders ht).trans (List.append_nil _)
  have hfont (i : Nat) : t.fonts.reverse.getD i {} = fontAt root i := by
    rw [hfonts, List.reverse_reverse, List.getD_eq_getElem?_getD, List.getElem?_map]
    rfl
  have hstandard : t.fonts.reverse.headD {} = fontAt root 0 := by
    rw [List.headD_eq_head?_getD, List.head?_eq_getElem?, ← List.getD_eq_getElem?_getD, hfont]
  have hfill (i : Nat) : t.fills.reverse.getD i none = fillAt root i := by
    rw [hfills, List.reverse_reverse, List.getD_eq_getElem?_getD, List.getElem?_map, fillAt]
    cases (entries root "fills")[i]? <;> rfl
  have hborder (i : Nat) : t.borders.reverse.getD i none = borderAt root i := by
    rw [hborders, List.reverse_reverse, List.getD_eq_getElem?_getD, List.getElem?_map, borderAt]
    cases (entries root "borders")[i]? <;> rfl
  have hindex : (formatOf xf).font = indexOf "fontId" xf.fields ∧
      (formatOf xf).fill = indexOf "fillId" xf.fields ∧
      (formatOf xf).border = indexOf "borderId" xf.fields :=
    ⟨natural?_eq_indexOf _ _, natural?_eq_indexOf _ _, natural?_eq_indexOf _ _⟩
  have hstyle := getD_style? t (formatOf xf)
  rw [hfont, hstandard, hfill, hborder, hindex.1, hindex.2.1, hindex.2.2, unlessStandard_eq,
    unlessStandard_eq, unlessStandard_any] at hstyle
  exact {
    bold := congrArg Style.bold hstyle
    italic := congrArg Style.italic hstyle
    underline := congrArg Style.underline hstyle
    fontName := congrArg Style.fontName hstyle
    fontSize := congrArg Style.fontSize hstyle
    fontColor := congrArg Style.fontColor hstyle
    fillColor := congrArg Style.fillColor hstyle
    border := congrArg Style.border hstyle
    align := congrArg Style.align hstyle
    wrap := congrArg Style.wrap hstyle
    protection := rfl
    validation := rfl }

/-- The reader of the styles agrees with the tree: there is one presentation for each cell format,
in their order, and it is the one that the tree shows. -/
theorem styles_read_as_tree {s : String} {root : Element} (h : Spells [root] (strictEvents s))
    (hshape : Shape root) : ∃ t, ofEvents (strictEvents s) = .ok t ∧
      t.presentations.size = (entries root "cellXfs").length ∧
      ∀ (i : Nat) (xf : Element), (entries root "cellXfs")[i]? = some xf →
        ∃ p, t.presentations[i]? = some p ∧ Shows root xf p := by
  obtain ⟨t, hread, ht⟩ := exists_ofEvents_of_shape h hshape
  have hformats : t.formats = ((entries root "cellXfs").map formatOf).reverse :=
    (congrArg StyleTable.formats ht).trans (List.append_nil _)
  refine ⟨t, hread, ?_, fun i xf hxf => ?_⟩
  · simp [presentations, hformats]
  · refine ⟨t.presentation (formatOf xf), ?_, shows_presentation ht xf⟩
    simp [presentations, hformats, hxf]

/-- The tags of styles whose cell formats come first, with entries of other sections in front of
them and between them and the fonts. Some names have prefixes, and the last cell format is aligned
twice. -/
def mixedTags : List String :=
  ["<styleSheet>", "<cellStyleXfs>", "<xf fontId='5'/>", "</cellStyleXfs>", "<cellXfs>", "<xf/>",
    "<!-- red -->", "<xf fontId='1' borderId='7'>", "<alignment wrapText='1'/>", "</xf>",
    "<xf fontId=' 2 ' fillId='9' borderId='1'>",
    "<alignment s:horizontal='left' horizontal='center'/>",
    "<protection locked='0' hidden='TRUE'/>", "</xf>", "</cellXfs>", "<dxfs>", "<font>", "<b/>",
    "</font>", "</dxfs>", "<s:fonts>", "<font>", "<sz val='11'/>", "<name val='Calibri'/>",
    "</font>", "<font>", "<s:i/>", "<sz val='11.0'/>", "<name val='Arial'/>", "</font>", "<font>",
    "<b val='0'/>", "<u/>", "<sz val='12'/>", "<name val='Calibri'/>", "<color rgb='FF0000F1'/>",
    "</font>", "</s:fonts>", "<borders>", "<border/>", "<border>", "<left style='none'/>",
    "<top style='double'/>", "<bottom style='thin'/>", "</border>", "</borders>", "<fills>",
    "<fill>", "<patternFill patternType='solid'>", "<fgColor rgb='F00000'/>", "</patternFill>",
    "</fill>", "</fills>", "</styleSheet>"]

def mixedStyles : String :=
  String.ofList (mixedTags.flatMap String.toList)

/-- The first cell format has only the fill, since its font is the first one; the second lies past
the end of the borders and the third past that of the fills. -/
def mixedPresentations : List Presentation :=
  [{ style := some { fillColor := some 0xF00000 } },
    { style := some { italic := true, fontName := some "Arial", wrap := true,
                      fillColor := some 0xF00000 } },
    { style := some { underline := true, fontSize := some (.ofInt 12), fontColor := some 0x0000F1,
                      border := some .thick, align := some .center },
      protection := some { locked := false, hidden := true } }]

theorem mixedStyles_read_as_tree : ∃ root, Spells [root] (strictEvents mixedStyles) ∧ Shape root ∧
    ∃ t, ofEvents (strictEvents mixedStyles) = .ok t ∧
      t.presentations.toList = mixedPresentations ∧
      t.presentations.size = (entries root "cellXfs").length ∧
      ∀ (i : Nat) (xf : Element), (entries root "cellXfs")[i]? = some xf →
        ∃ p, t.presentations[i]? = some p ∧ Shows root xf p := by
  have hevents : strictEvents mixedStyles =
      strict [] (eventsFrom (mixedTags.flatMap String.toList).length
        (mixedTags.flatMap String.toList)) :=
    strictEvents_ofList (by decide +kernel)
  have hboth : (trees? (strict [] (eventsFrom (mixedTags.flatMap String.toList).length
        (mixedTags.flatMap String.toList)))).any (fun roots => roots.length == 1 && roots.all
          fun root => decide (Shape root)) = true ∧
      (ofEvents (strict [] (eventsFrom (mixedTags.flatMap String.toList).length
        (mixedTags.flatMap String.toList)))).toOption.map (fun t => t.presentations.toList) =
          some mixedPresentations := by
    decide +kernel
  rw [← hevents] at hboth
  obtain ⟨htree, hpresentations⟩ := hboth
  obtain ⟨roots, htrees, hroots⟩ := (Option.any_eq_true _ _).1 htree
  rw [Bool.and_eq_true, beq_iff_eq, List.all_eq_true] at hroots
  obtain ⟨root, rfl⟩ := List.length_eq_one_iff.1 hroots.1
  have hshape : Shape root := of_decide_eq_true (hroots.2 root List.mem_cons_self)
  have hspells := trees?_eq_some_iff.1 htrees
  obtain ⟨t, hread, hshows⟩ := styles_read_as_tree hspells hshape
  rw [hread] at hpresentations
  exact ⟨root, hspells, hshape, t, hread, Option.some.inj hpresentations, hshows⟩

end SheetTemplate.StyleTable
