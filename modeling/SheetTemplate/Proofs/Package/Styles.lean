import SheetTemplate.Package.Format
import SheetTemplate.Package.NumberKind
import SheetTemplate.Package.StyleTable
import SheetTemplate.Proofs.Xml.Fold
/-!
The styles of a package can be read by both of their readers, whatever the formats are.
-/
namespace SheetTemplate.Format
open Xml

def innerNames : List String :=
  ["numFmt", "fonts", "font", "b", "i", "u", "sz", "color", "name", "family", "fills", "fill",
    "patternFill", "fgColor", "bgColor", "borders", "border", "left", "right", "top", "bottom",
    "diagonal", "cellStyleXfs", "xf", "alignment", "protection", "cellStyles", "cellStyle"]

section trees
variable {names : List String}

theorem tidy_nodeIf {condition : Bool} {name : String} {fields : Fields} (hmem : name ∈ names)
    (hname : isPlainName name = true) (hfields : fields.Plain) :
    ∀ n ∈ nodeIf condition name fields, n.Tidy names := by
  intro n hn
  unfold nodeIf at hn
  split at hn
  · rw [List.mem_singleton.1 hn]
    exact .leaf hmem hname hfields
  · cases hn

end trees

private theorem tidy_fontNode (f : Format) : (fontNode f).Tidy innerNames := by
  refine .element (by decide) (by decide) Fields.plain_nil fun n hn => ?_
  simp only [List.mem_append, List.mem_cons, List.not_mem_nil, or_false] at hn
  rcases hn with ((hn | hn) | hn) | rfl | rfl | rfl | rfl
  · exact tidy_nodeIf (by decide) (by decide) Fields.plain_nil n hn
  · exact tidy_nodeIf (by decide) (by decide) Fields.plain_nil n hn
  · exact tidy_nodeIf (by decide) (by decide) Fields.plain_nil n hn
  · exact .leaf (by decide) (by decide) (by simp [Fields.Plain]; decide)
  · cases f.fontColor <;> exact .leaf (by decide) (by decide) (by simp [Fields.Plain]; decide)
  · exact .leaf (by decide) (by decide) (by simp [Fields.Plain]; decide)
  · exact .leaf (by decide) (by decide) (by simp [Fields.Plain]; decide)

private theorem tidy_fillNode (f : Format) : (fillNode f).Tidy innerNames := by
  refine .element (by decide) (by decide) Fields.plain_nil fun n hn => ?_
  cases hfill : f.fill with
  | none =>
    rw [hfill, List.mem_singleton] at hn
    rw [hn]
    exact .leaf (by decide) (by decide) (by simp [Fields.Plain]; decide)
  | some color =>
    rw [hfill, List.mem_singleton] at hn
    rw [hn]
    refine .element (by decide) (by decide) (by simp [Fields.Plain]; decide) fun m hm => ?_
    simp only [List.mem_cons, List.not_mem_nil, or_false] at hm
    rcases hm with rfl | rfl <;>
      exact .leaf (by decide) (by decide) (by simp [Fields.Plain]; decide)

private theorem tidy_borderNode (f : Format) : (borderNode f).Tidy innerNames := by
  have hside (line : Border) {name : String} (hmem : name ∈ innerNames)
      (hname : isPlainName name = true) :
      (Node.element name [("style", lineName line)] [.leaf "color" [("auto", "1")]]).Tidy
        innerNames := by
    refine .element hmem hname (by simp [Fields.Plain]; decide) fun m hm => ?_
    rw [List.mem_singleton.1 hm]
    exact .leaf (by decide) (by decide) (by simp [Fields.Plain]; decide)
  unfold borderNode
  cases f.border with
  | none =>
    refine .element (by decide) (by decide) Fields.plain_nil fun n hn => ?_
    simp only [List.mem_cons, List.not_mem_nil, or_false] at hn
    rcases hn with rfl | rfl | rfl | rfl | rfl <;>
      exact .leaf (by decide) (by decide) Fields.plain_nil
  | some line =>
    refine .element (by decide) (by decide) Fields.plain_nil fun n hn => ?_
    simp only [List.mem_cons, List.not_mem_nil, or_false] at hn
    rcases hn with rfl | rfl | rfl | rfl | rfl
    · exact hside line (by decide) (by decide)
    · exact hside line (by decide) (by decide)
    · exact hside line (by decide) (by decide)
    · exact hside line (by decide) (by decide)
    · exact .leaf (by decide) (by decide) Fields.plain_nil

private theorem tidy_formatNode (index : Nat) (f : Format) :
    (formatNode index f).Tidy innerNames := by
  refine .element (by decide) (by decide) (by simp [Fields.Plain]; decide) fun n hn => ?_
  rcases List.mem_append.1 hn with hn | hn
  · refine tidy_nodeIf (by decide) (by decide) ?_ n hn
    cases f.align <;> cases f.wrap <;> (simp [Fields.Plain]; decide)
  · refine tidy_nodeIf (by decide) (by decide) ?_ n hn
    cases f.locked <;> cases f.hidden <;> (simp [Fields.Plain]; decide)

theorem tidy_of_mem_codes {formats : List Format} :
    ∀ n ∈ (formats.mapIdx codeNodes).flatten, n.Tidy innerNames := by
  intro n hn
  obtain ⟨l, hl, hn⟩ := List.mem_flatten.1 hn
  obtain ⟨i, hi, rfl⟩ := List.mem_mapIdx.1 hl
  exact tidy_nodeIf (by decide) (by decide) (by simp [Fields.Plain]; decide) n hn

def middleNodes (formats : List Format) : List Node :=
  [.element "fonts" [("count", Text.decimal formats.length)] (formats.map fontNode),
    .element "fills" [("count", Text.decimal (formats.length + 2))]
      (firstFills ++ formats.map fillNode),
    .element "borders" [("count", Text.decimal formats.length)] (formats.map borderNode),
    .element "cellStyleXfs" [("count", Text.decimal 1)]
      [.leaf "xf" [("numFmtId", "0"), ("fontId", "0"), ("fillId", "0"), ("borderId", "0")]]]

def namesNode : Node :=
  .element "cellStyles" [("count", Text.decimal 1)]
    [.leaf "cellStyle" [("name", "Normal"), ("xfId", "0"), ("builtinId", "0")]]

theorem stylesNode_eq (formats : List Format) :
    stylesNode formats = .element "styleSheet" [("xmlns", Package.workbookVocabulary)]
      (.element "numFmts" [("count", Text.decimal (formats.mapIdx codeNodes).flatten.length)]
          (formats.mapIdx codeNodes).flatten ::
        (middleNodes formats ++
          [.element "cellXfs" [("count", Text.decimal formats.length)] (formats.mapIdx formatNode),
            namesNode])) :=
  rfl

theorem count_plain (count : String) : Fields.Plain [("count", count)] := by
  simp [Fields.Plain]
  decide

theorem tidy_of_mem_middle {formats : List Format} :
    ∀ n ∈ middleNodes formats, n.Tidy innerNames := by
  intro n hn
  simp only [middleNodes, List.mem_cons, List.not_mem_nil, or_false] at hn
  rcases hn with rfl | rfl | rfl | rfl
  · refine .element (by decide) (by decide) (count_plain _) fun m hm => ?_
    obtain ⟨f, -, rfl⟩ := List.mem_map.1 hm
    exact tidy_fontNode f
  · refine .element (by decide) (by decide) (count_plain _) fun m hm => ?_
    rcases List.mem_append.1 hm with hm | hm
    · simp only [firstFills, List.mem_cons, List.not_mem_nil, or_false] at hm
      rcases hm with rfl | rfl <;>
        refine .element (by decide) (by decide) Fields.plain_nil fun k hk => ?_ <;>
        rw [List.mem_singleton.1 hk] <;>
        exact .leaf (by decide) (by decide) (by simp [Fields.Plain]; decide)
    · obtain ⟨f, -, rfl⟩ := List.mem_map.1 hm
      exact tidy_fillNode f
  · refine .element (by decide) (by decide) (count_plain _) fun m hm => ?_
    obtain ⟨f, -, rfl⟩ := List.mem_map.1 hm
    exact tidy_borderNode f
  · refine .element (by decide) (by decide) (count_plain _) fun m hm => ?_
    rw [List.mem_singleton.1 hm]
    exact .leaf (by decide) (by decide) (by simp [Fields.Plain]; decide)

theorem tidy_namesNode : namesNode.Tidy innerNames := by
  refine .element (by decide) (by decide) (count_plain _) fun m hm => ?_
  rw [List.mem_singleton.1 hm]
  exact .leaf (by decide) (by decide) (by simp [Fields.Plain]; decide)

theorem tidy_of_mem_formats {formats : List Format} :
    ∀ n ∈ formats.mapIdx formatNode, n.Tidy innerNames := by
  intro n hn
  obtain ⟨i, hi, rfl⟩ := List.mem_mapIdx.1 hn
  exact tidy_formatNode i _

def styleNames : List String :=
  "styleSheet" :: "numFmts" :: "cellXfs" :: innerNames

theorem tidy_stylesNode (formats : List Format) : (stylesNode formats).Tidy styleNames := by
  have hsub : innerNames ⊆ styleNames := by decide
  rw [stylesNode_eq]
  refine .element (by decide) (by decide) (by simp [Fields.Plain]; decide) fun n hn => ?_
  simp only [List.mem_cons, List.mem_append, List.not_mem_nil, or_false] at hn
  rcases hn with rfl | hn | rfl | rfl
  · exact .element (by decide) (by decide) (count_plain _)
      fun m hm => (tidy_of_mem_codes m hm).mono hsub
  · exact (tidy_of_mem_middle n hn).mono hsub
  · exact .element (by decide) (by decide) (count_plain _)
      fun m hm => (tidy_of_mem_formats m hm).mono hsub
  · exact tidy_namesNode.mono hsub

end SheetTemplate.Format

namespace SheetTemplate.StyleTable
open Xml

/-- Any event of a printed tree can be read. -/
theorem exists_readEvent {names : List String} {e : Event} (h : e.Printed names) (r : Reading) :
    ∃ r', readEvent r e = .ok r' := by
  cases e with
  | opening name raw =>
    obtain ⟨-, fields, hplain, rfl⟩ := h
    refine ⟨readTag r true (localName name) fields.localNames, ?_⟩
    simp only [readEvent, fields?_chars hplain]
  | selfClosing _ _ => exact h.elim
  | broken => exact h.elim
  | _ => exact ⟨_, rfl⟩

/-- The styles of a package can be read. -/
theorem exists_ofEvents (formats : List Format) :
    ∃ t, ofEvents (strictEvents (document (Format.stylesNode formats))) = .ok t := by
  have htidy := Format.tidy_stylesNode formats
  obtain ⟨r, hr, -⟩ := exists_foldlM (P := fun _ => True) (f := readEvent) (b := {})
    (fun e he r _ => (exists_readEvent (htidy.printed_stripped e he) r).imp fun _ h => ⟨h, trivial⟩)
    trivial
  have hother : readEvent {} .other = pure {} := rfl
  refine ⟨r.table, ?_⟩
  rw [strictEvents_document htidy, ofEvents, foldlM_cons_of_eq_pure hother, hr]
  rfl

theorem validation_of_mem_presentations {t : StyleTable} {p : Presentation}
    (h : p ∈ t.presentations) : p.validation = none := by
  rw [presentations, List.mem_toArray] at h
  obtain ⟨f, -, rfl⟩ := List.mem_map.1 h
  rfl

end SheetTemplate.StyleTable

namespace SheetTemplate.NumberKind
open Xml

theorem exists_wellFormed? (name : String) (fields : Fields) :
    ∃ value, wellFormed? name fields.written = some value := by
  unfold Fields.written
  induction fields with
  | nil => exact ⟨[], rfl⟩
  | cons f fields ih =>
    obtain ⟨value, hvalue⟩ := ih
    exact ⟨if f.1 = name then escapeValue f.2 else value, by simp [wellFormed?, hvalue]⟩

/-- Inside the styles, an event leaves the reader in its place. -/
theorem exists_readEvent? {e : Event} (h : e.Printed Format.innerNames) {r : Reading}
    (hplace : r.place ≠ .done) : ∃ r', readEvent? r e = some r' ∧ r'.place = r.place := by
  have hlocal : ∀ name ∈ Format.innerNames, localName name = name ∧ name ≠ "numFmts" ∧
      name ≠ "cellXfs" ∧ name ≠ "styleSheet" := by decide
  obtain ⟨place, codes, kinds⟩ := r
  cases e with
  | selfClosing _ _ => exact h.elim
  | broken => exact h.elim
  | text raw => cases place <;> exact ⟨_, rfl, rfl⟩
  | other => exact h.elim
  | closing name =>
    obtain ⟨hname, hcodes, hformats, hend⟩ := hlocal name h
    cases place with
    | outside => simp [readEvent?, hname, hend]
    | codes => simp [readEvent?, hname, hcodes]
    | cellFormats => simp [readEvent?, hname, hformats]
    | done => exact absurd rfl hplace
  | opening name raw =>
    obtain ⟨hmem, fields, hplain, rfl⟩ := h
    obtain ⟨hname, hcodes, hformats, hend⟩ := hlocal name hmem
    cases place with
    | outside =>
      refine ⟨⟨.outside, codes, kinds⟩, ?_, rfl⟩
      simp only [readEvent?, hname]
    | codes =>
      obtain ⟨id, hid⟩ := exists_wellFormed? "numFmtId" fields
      obtain ⟨code, hcode⟩ := exists_wellFormed? "formatCode" fields
      by_cases hcode' : localName name = "numFmt"
      · simp only [readEvent?, attributes_chars hplain, hid, hcode, hcode', if_true]
        refine ⟨_, rfl, ?_⟩
        split <;> rfl
      · exact ⟨_, if_neg hcode', rfl⟩
    | cellFormats =>
      refine ⟨_, rfl, ?_⟩
      split <;> rfl
    | done => exact absurd rfl hplace

/-- What stands between the events that the reader looks for. -/
theorem exists_foldlM_nodes {nodes : List Node} (h : ∀ n ∈ nodes, n.Tidy Format.innerNames)
    {r : Reading} (hplace : r.place ≠ .done) :
    ∃ r', (nodes.flatMap Node.events).foldlM readEvent? r = some r' ∧ r'.place = r.place := by
  refine exists_foldlM (P := fun r' : Reading => r'.place = r.place) (fun e he r' hr' => ?_) rfl
  obtain ⟨n, hn, he⟩ := List.mem_flatMap.1 he
  obtain ⟨r'', hr'', hsame⟩ := exists_readEvent? ((h n hn).printed e he) (hr' ▸ hplace)
  exact ⟨r'', hr'', hsame.trans hr'⟩

theorem readEvent?_closing {r : Reading} {place : Place} {name : String}
    (hsection : (place, name) ∈ [(.codes, "numFmts"), (.cellFormats, "cellXfs")])
    (hplace : r.place = place) :
    readEvent? r (.closing name) = some { r with place := .outside } := by
  simp only [List.mem_cons, List.not_mem_nil, or_false, Prod.mk.injEq] at hsection
  obtain ⟨_, codes, kinds⟩ := r
  subst hplace
  rcases hsection with ⟨rfl, rfl⟩ | ⟨rfl, rfl⟩ <;> rfl

/-- The kinds of the formats of a package can be read. -/
theorem exists_foldlM_styles (formats : List Format) :
    ∃ r, (tolerantEvents (document (Format.stylesNode formats))).foldlM readEvent? {} = some r ∧
      r.place = .done := by
  obtain ⟨r₁, hr₁, hplace₁⟩ := exists_foldlM_nodes Format.tidy_of_mem_codes
    (r := { place := .codes }) (by simp)
  obtain ⟨r₂, hr₂, hplace₂⟩ := exists_foldlM_nodes Format.tidy_of_mem_middle
    (r := { r₁ with place := .outside }) (by simp)
  obtain ⟨r₃, hr₃, hplace₃⟩ := exists_foldlM_nodes Format.tidy_of_mem_formats
    (r := { r₂ with place := .cellFormats }) (by simp)
  have hnames : ∀ n ∈ [Format.namesNode], n.Tidy Format.innerNames := fun n hn =>
    List.mem_singleton.1 hn ▸ Format.tidy_namesNode
  obtain ⟨r₄, hr₄, hplace₄⟩ := exists_foldlM_nodes hnames
    (r := { r₃ with place := .outside }) (by simp)
  have hcodes : (Node.element "numFmts" [("count", Text.decimal
      (formats.mapIdx Format.codeNodes).flatten.length)]
        (formats.mapIdx Format.codeNodes).flatten).events.foldlM readEvent? {} =
          some { r₁ with place := .outside } :=
    foldlM_element rfl hr₁ (readEvent?_closing (by simp) hplace₁)
  have hformats : (Node.element "cellXfs" [("count", Text.decimal formats.length)]
      (formats.mapIdx Format.formatNode)).events.foldlM readEvent? r₂ =
        some { r₃ with place := .outside } := by
    refine foldlM_element ?_ hr₃ (readEvent?_closing (by simp) hplace₃)
    obtain ⟨_, codes, kinds⟩ := r₂
    subst hplace₂
    rfl
  have hchildren : ((Node.element "numFmts" [("count", Text.decimal
      (formats.mapIdx Format.codeNodes).flatten.length)]
        (formats.mapIdx Format.codeNodes).flatten ::
        (Format.middleNodes formats ++ [.element "cellXfs" [("count", Text.decimal formats.length)]
          (formats.mapIdx Format.formatNode), Format.namesNode])).flatMap Node.events).foldlM
            readEvent? {} = some r₄ := by
    rw [List.flatMap_cons, List.flatMap_append, List.flatMap_cons, foldlM_append_of_eq_pure hcodes,
      foldlM_append_of_eq_pure hr₂, foldlM_append_of_eq_pure hformats, hr₄]
  refine ⟨{ r₄ with place := .done }, ?_, rfl⟩
  refine foldlM_document (Format.tidy_stylesNode formats) rfl rfl ?_
  rw [Format.stylesNode_eq]
  refine foldlM_element rfl hchildren ?_
  obtain ⟨_, codes, kinds⟩ := r₄
  subst hplace₄
  rfl

end SheetTemplate.NumberKind
