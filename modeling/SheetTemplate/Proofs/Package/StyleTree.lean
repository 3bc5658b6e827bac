import Mathlib.Data.List.DropRight
import SheetTemplate.Proofs.Package.StyleSections
/-!
The cell formats as the tree of the styles tells them: by looking up children and attributes,
without a reader that goes through the tags. The reader finds the same formats in the same order.
-/
namespace SheetTemplate.StyleTable
open Xml

/-! ### Values of a tag -/

/-- What the last of the pairs with a name has: a later attribute or child takes the place of an
earlier one. -/
def lastNamed? {α : Type} (name : String) (pairs : List (String × α)) : Option α :=
  ((pairs.filter (·.1 = name)).getLast?).map (·.2)

section lastNamed
variable {α : Type} (name : String)

theorem lastNamed?_append (pairs pairs' : List (String × α)) :
    lastNamed? name (pairs ++ pairs') = (lastNamed? name pairs').or (lastNamed? name pairs) := by
  rw [lastNamed?, List.filter_append, List.getLast?_append, Option.map_or]
  rfl

theorem lastNamed?_singleton (pair : String × α) :
    lastNamed? name [pair] = if pair.1 = name then some pair.2 else none := by
  by_cases h : pair.1 = name <;> simp [lastNamed?, h]

theorem lastNamed?_concat (pairs : List (String × α)) (pair : String × α) :
    lastNamed? name (pairs ++ [pair]) =
      if pair.1 = name then some pair.2 else lastNamed? name pairs := by
  rw [lastNamed?_append, lastNamed?_singleton]
  split <;> rfl

end lastNamed

/-- A property is there, and its value is not one of those for no. -/
def turnsOn (fields : Fields) : Bool :=
  (lastNamed? "val" fields).all (· ∉ ["0", "false", "none"])

def saysYes (value : String) : Bool :=
  value = "1" || value.toList.map Char.toLower = "true".toList

def yesOr (missing : Bool) (name : String) (fields : Fields) : Bool :=
  ((lastNamed? name fields).map saysYes).getD missing

def pointsOf (fields : Fields) : Option Binary64 :=
  (lastNamed? "val" fields).bind fun s => Binary64.ofChars? (Text.trimChars s.toList)

/-- Two digits of opacity may stand in front of the six that count. -/
def colorOf (fields : Fields) : Option Nat :=
  (lastNamed? "rgb" fields).bind fun s =>
    if 6 ≤ s.toList.length then Text.unsigned? 16 (twoTo 32) (s.toList.rtake 6) else none

def strongLines : List (String × Border) :=
  [("medium", .medium), ("mediumDashed", .medium), ("mediumDashDot", .medium),
    ("mediumDashDotDot", .medium), ("thick", .thick), ("double", .thick)]

def lineOf (fields : Fields) : Option Border :=
  ((lastNamed? "style" fields).filter (· ≠ "none")).map fun s =>
    ((strongLines.find? (s = ·.1)).map (·.2)).getD .thin

def alignments : List (String × Align) :=
  [("left", .left), ("center", .center), ("right", .right)]

def alignOf (fields : Fields) : Option Align :=
  (lastNamed? "horizontal" fields).bind fun s => (alignments.find? (s = ·.1)).map (·.2)

def indexOf (name : String) (fields : Fields) : Nat :=
  ((lastNamed? name fields).bind fun s =>
    Text.unsigned? 10 (twoTo 64) (Text.trimChars s.toList)).getD 0

def protectionOf (fields : Fields) : Protection where
  locked := yesOr true "locked" fields
  hidden := yesOr false "hidden" fields

/-! ### Looking up in a tree -/

def lastChild? (name : String) (es : List Element) : Option Fields :=
  lastNamed? name (es.map Element.tag)

def fontProperties : List String :=
  ["b", "i", "u", "sz", "name", "color"]

def sides : List String :=
  ["left", "right", "top", "bottom"]

def fontOf (e : Element) : Font where
  bold := (lastChild? "b" e.children).any turnsOn
  italic := (lastChild? "i" e.children).any turnsOn
  underline := (lastChild? "u" e.children).any turnsOn
  name := (lastChild? "name" e.children).bind (lastNamed? "val")
  size := (lastChild? "sz" e.children).bind pointsOf
  color := (lastChild? "color" e.children).bind colorOf

def isSolid (e : Element) : Bool :=
  e.name = "patternFill" && lastNamed? "patternType" e.fields = some "solid"

/-- The colour of a fill is the foreground of its solid pattern. -/
def fillOf (e : Element) : Option Nat :=
  (lastChild? "fgColor" ((e.children.filter isSolid).flatMap (·.children))).bind colorOf

/-- The first of the lines of a border that is one. -/
def borderOf (e : Element) : Option Border :=
  (e.children.filter (sides.contains ·.name)).findSome? (lineOf ·.fields)

def childrenOf (name : String) (es : List Element) : List Element :=
  (es.filter (·.name = name)).flatMap (·.children)

def entries (root : Element) (name : String) : List Element :=
  childrenOf name root.children

def fontAt (root : Element) (i : Nat) : Font :=
  (((entries root "fonts")[i]?).map fontOf).getD {}

def fillAt (root : Element) (i : Nat) : Option Nat :=
  ((entries root "fills")[i]?).bind fillOf

def borderAt (root : Element) (i : Nat) : Option Border :=
  ((entries root "borders")[i]?).bind borderOf

def lastInside? (name : String) (e : Element) : Option Fields :=
  lastNamed? name (tagsOfAll e.children)

/-- The presentation of a cell format: the font, fill and border that it points to, and what stands
inside it. Of the font, what the first font has too is left out. -/
structure Shows (root xf : Element) (p : Presentation) : Prop where
  bold : (p.style.getD {}).bold = (fontAt root (indexOf "fontId" xf.fields)).bold
  italic : (p.style.getD {}).italic = (fontAt root (indexOf "fontId" xf.fields)).italic
  underline : (p.style.getD {}).underline = (fontAt root (indexOf "fontId" xf.fields)).underline
  fontName : (p.style.getD {}).fontName =
    (fontAt root (indexOf "fontId" xf.fields)).name.filter fun own =>
      (fontAt root 0).name ≠ some own
  fontSize : (p.style.getD {}).fontSize =
    (fontAt root (indexOf "fontId" xf.fields)).size.filter fun own =>
      !(fontAt root 0).size.any (own.equals ·)
  fontColor : (p.style.getD {}).fontColor =
    (fontAt root (indexOf "fontId" xf.fields)).color.filter fun own =>
      (fontAt root 0).color ≠ some own
  fillColor : (p.style.getD {}).fillColor = fillAt root (indexOf "fillId" xf.fields)
  border : (p.style.getD {}).border = borderAt root (indexOf "borderId" xf.fields)
  align : (p.style.getD {}).align = (lastInside? "alignment" xf).bind alignOf
  wrap : (p.style.getD {}).wrap = (lastInside? "alignment" xf).any (yesOr false "wrapText")
  protection : p.protection = ((lastInside? "protection" xf).map protectionOf).filter (· ≠ {})
  validation : p.validation = none

/-! ### The shape of the styles -/

def Lacks (es : List Element) (names : List String) : Prop :=
  ∀ tag ∈ tagsOfAll es, tag.1 ∉ names

instance (es : List Element) (names : List String) : Decidable (Lacks es names) :=
  inferInstanceAs (Decidable (∀ _ ∈ _, _))

def IsFont (e : Element) : Prop :=
  e.name = "font" ∧ ∀ p ∈ e.children, p.name ≠ "font" ∧ Lacks p.children ("font" :: fontProperties)

/-- A child of a fill: a pattern with its foreground as a child, or something else. -/
def IsFillChild (p : Element) : Prop :=
  p.name ∉ ["fill", "fgColor"] ∧
    if p.name = "patternFill" then ∀ c ∈ p.children, c.name ∉ ["fill", "patternFill"] ∧
      Lacks c.children ["fill", "patternFill", "fgColor"]
    else Lacks p.children ["fill", "patternFill", "fgColor"]

def IsFill (e : Element) : Prop :=
  e.name = "fill" ∧ ∀ p ∈ e.children, IsFillChild p

def IsBorder (e : Element) : Prop :=
  e.name = "border" ∧ ∀ l ∈ e.children, l.name ≠ "border" ∧ Lacks l.children ("border" :: sides)

def IsFormat (e : Element) : Prop :=
  e.name = "xf" ∧ Lacks e.children ["xf"]

instance (e : Element) : Decidable (IsFont e) :=
  inferInstanceAs (Decidable (_ ∧ ∀ _ ∈ _, _ ∧ _))

instance (p : Element) : Decidable (IsFillChild p) :=
  inferInstanceAs (Decidable (_ ∧ if p.name = "patternFill" then ∀ c ∈ p.children, _ ∧ _ else _))

instance (e : Element) : Decidable (IsFill e) :=
  inferInstanceAs (Decidable (_ ∧ ∀ _ ∈ _, _))

instance (e : Element) : Decidable (IsBorder e) :=
  inferInstanceAs (Decidable (_ ∧ ∀ _ ∈ _, _ ∧ _))

instance (e : Element) : Decidable (IsFormat e) :=
  inferInstanceAs (Decidable (_ ∧ _))

def containers : List String :=
  ["fonts", "fills", "borders", "cellXfs"]

/-- The containers among the elements have entries of their kind only. -/
structure HasEntries (es : List Element) : Prop where
  fonts : ∀ e ∈ childrenOf "fonts" es, IsFont e
  fills : ∀ e ∈ childrenOf "fills" es, IsFill e
  borders : ∀ e ∈ childrenOf "borders" es, IsBorder e
  formats : ∀ e ∈ childrenOf "cellXfs" es, IsFormat e

/-- The shape that the schema gives the styles, as far as it matters: the containers stand among the
sections of the root, in any place, and nowhere else. -/
structure Shape (root : Element) : Prop extends HasEntries root.children where
  outermost : root.name ∉ containers
  sections : ∀ e ∈ root.children, Lacks e.children containers

instance (es : List Element) : Decidable (HasEntries es) :=
  decidable_of_iff ((∀ e ∈ childrenOf "fonts" es, IsFont e) ∧
      (∀ e ∈ childrenOf "fills" es, IsFill e) ∧ (∀ e ∈ childrenOf "borders" es, IsBorder e) ∧
      ∀ e ∈ childrenOf "cellXfs" es, IsFormat e)
    ⟨fun ⟨hfonts, hfills, hborders, hformats⟩ => ⟨hfonts, hfills, hborders, hformats⟩, fun h =>
      ⟨h.fonts, h.fills, h.borders, h.formats⟩⟩

instance (root : Element) : Decidable (Shape root) :=
  decidable_of_iff (HasEntries root.children ∧ root.name ∉ containers ∧
      ∀ e ∈ root.children, Lacks e.children containers)
    ⟨fun ⟨hentries, houtermost, hsections⟩ => ⟨hentries, houtermost, hsections⟩, fun h =>
      ⟨h.toHasEntries, h.outermost, h.sections⟩⟩

/-! ### The reader's values -/

section values
variable (name : String) (fields : Fields)

/-- A later value takes the place of an earlier one for the reader, too. -/
theorem get?_eq_lastNamed? : fields.get? name = lastNamed? name fields := by
  induction fields with
  | nil => rfl
  | cons pair fields ih =>
    rw [← List.singleton_append, lastNamed?_append, lastNamed?_singleton, ← ih]
    rw [List.singleton_append, Fields.get?]
    cases Fields.get? name fields <;> rfl

theorem toggle_eq_turnsOn : fields.toggle = turnsOn fields := by
  rw [Fields.toggle, get?_eq_lastNamed?, turnsOn]
  cases lastNamed? "val" fields with
  | none => rfl
  | some s => simp [Bool.and_assoc]

private theorem lowerChar_eq_toLower : Text.lowerChar = Char.toLower := by
  funext c
  by_cases h : 'A' ≤ c ∧ c ≤ 'Z'
  · have hcapital : Text.isCapital c = true := by
      simpa only [Text.isCapital, Bool.and_eq_true, decide_eq_true_eq] using h
    have hbounds : 65 ≤ c.val.toNat ∧ c.val.toNat ≤ 90 := h
    have hvalid : (c.toNat + 32).isValidChar := .inl (by simp only [Char.toNat]; omega)
    have hlower : c.toLower.val = c.val + 32 := congrArg Char.val (dif_pos (c := _ ∧ _) h)
    rw [Text.lowerChar, if_pos hcapital, Char.ofNat, dif_pos hvalid]
    apply Char.ext
    apply UInt32.toNat_inj.1
    rw [hlower]
    change c.val.toNat + 32 = (c.val.toNat + 32) % 2 ^ 32
    omega
  · have hcapital : Text.isCapital c = false := by
      rw [Text.isCapital, Bool.and_eq_false_iff, decide_eq_false_iff_not, decide_eq_false_iff_not]
      exact not_and_or.1 h
    have hupper : c.toLower = c := dif_neg (c := _ ∧ _) h
    rw [Text.lowerChar, hcapital, hupper, if_neg Bool.false_ne_true]

theorem flag_eq_yesOr (missing : Bool) : fields.flag name missing = yesOr missing name fields := by
  rw [Fields.flag, get?_eq_lastNamed?, yesOr]
  cases lastNamed? name fields with
  | none => rfl
  | some s =>
    have hlower : Text.lowerAscii s = "true" ↔ s.toList.map Char.toLower = "true".toList := by
      rw [Text.lowerAscii, ← String.toList_inj, String.toList_ofList, lowerChar_eq_toLower]
    simp [saysYes, hlower]

theorem number?_eq_pointsOf : fields.number? "val" = pointsOf fields := by
  rw [Fields.number?, get?_eq_lastNamed?]
  rfl

theorem color?_eq_colorOf : fields.color? = colorOf fields := by
  rw [Fields.color?, get?_eq_lastNamed?, colorOf]
  congr 1
  funext s
  have hlength : (s.toList.drop (s.toList.length - 6)).length = 6 ↔ 6 ≤ s.toList.length := by
    rw [List.length_drop]
    omega
  simp only [hlength, List.rtake]

theorem border?_eq (s : String) :
    border? s = if s = "none" then none
      else some (((strongLines.find? (s = ·.1)).map (·.2)).getD .thin) := by
  unfold border?
  split
  · rfl
  · split
    · rename_i hmedium
      simp only [List.contains_iff_mem, List.mem_cons, List.not_mem_nil, or_false] at hmedium
      obtain rfl | rfl | rfl | rfl := hmedium <;> rfl
    · split
      · rename_i hthick
        simp only [List.contains_iff_mem, List.mem_cons, List.not_mem_nil, or_false] at hthick
        obtain rfl | rfl := hthick <;> rfl
      · rename_i hmedium hthick
        simp_all [strongLines]

theorem line_eq_lineOf : (fields.get? "style").bind border? = lineOf fields := by
  rw [get?_eq_lastNamed?, lineOf]
  cases lastNamed? "style" fields with
  | none => rfl
  | some s =>
    rw [Option.bind_some, border?_eq, Option.filter_some]
    by_cases hnone : s = "none" <;> simp [hnone]

theorem align_eq_alignOf : (fields.get? "horizontal").bind align? = alignOf fields := by
  rw [get?_eq_lastNamed?, alignOf]
  congr 1
  funext s
  unfold align?
  split <;> simp_all [alignments]

theorem natural?_eq_indexOf : (fields.natural? (twoTo 64) name).getD 0 = indexOf name fields := by
  rw [Fields.natural?, get?_eq_lastNamed?]
  rfl

end values

/-! ### Folds -/

section folds
variable {α σ : Type} {tags : List (String × Fields)} {es : List Element}

/-- Tags that change nothing. -/
theorem foldl_fixed {step : σ → String × Fields → σ} (h : ∀ s, ∀ tag ∈ tags, step s tag = s)
    (s : σ) : tags.foldl step s = s := by
  induction tags with
  | nil => rfl
  | cons tag tags ih =>
    rw [List.foldl_cons, h s tag List.mem_cons_self]
    exact ih fun s tag' h' => h s tag' (List.mem_cons_of_mem _ h')

/-- Where nothing inside the elements changes the state, their own tags do. -/
theorem foldl_tagsOfAll {step : σ → String × Fields → σ}
    (h : ∀ e ∈ es, ∀ s, ∀ tag ∈ tagsOfAll e.children, step s tag = s) (s : σ) :
    (tagsOfAll es).foldl step s = (es.map Element.tag).foldl step s := by
  induction es generalizing s with
  | nil => rfl
  | cons e es ih =>
    obtain ⟨he, hes⟩ := List.forall_mem_cons.1 h
    rw [tagsOfAll, List.foldl_append, Element.tags_eq, List.foldl_cons, foldl_fixed he, ih hes,
      List.map_cons, List.foldl_cons]

/-- The latest entry goes through all changes. -/
theorem foldl_changeLatest {step : List α → String × Fields → List α}
    {change : String × Fields → α → α}
    (h : ∀ tag ∈ tags, ∀ as, step as tag = changeLatest (change tag) as) (a : α) (as : List α) :
    tags.foldl step (a :: as) = tags.foldl (fun a tag => change tag a) a :: as := by
  induction tags generalizing a with
  | nil => rfl
  | cons tag tags ih =>
    obtain ⟨htag, htags⟩ := List.forall_mem_cons.1 h
    rw [List.foldl_cons, List.foldl_cons, htag]
    exact ih htags _

/-- A new entry goes through the changes of the tags inside its element. -/
theorem foldl_entry {step : List α → String × Fields → List α}
    {change : String × Fields → α → α} {e : Element} {new : α} {as : List α}
    (hnew : step as e.tag = new :: as)
    (h : ∀ tag ∈ tagsOfAll e.children, ∀ as, step as tag = changeLatest (change tag) as) :
    e.tags.foldl step as =
      (tagsOfAll e.children).foldl (fun a tag => change tag a) new :: as := by
  rw [Element.tags_eq, List.foldl_cons, hnew, foldl_changeLatest h]

/-- No tag begins an entry inside an entry. -/
theorem ne_of_mem_tagsOfAll {name : String} {names : List String}
    (h : ∀ p ∈ es, p.name ≠ name ∧ Lacks p.children (name :: names)) :
    ∀ tag ∈ tagsOfAll es, tag.1 ≠ name := by
  intro tag htag hname
  obtain ⟨p, hp, rfl | htag⟩ := mem_tagsOfAll.1 htag
  · exact (h p hp).1 hname
  · exact (h p hp).2 tag htag (hname ▸ List.mem_cons_self)

/-- Entry by entry, a table gets what each of them describes. -/
theorem foldl_entries {step : σ → String × Fields → σ} (part : σ → List α) {read : Element → α}
    (h : ∀ e ∈ es, ∀ s, part (e.tags.foldl step s) = read e :: part s) (s : σ) :
    part ((tagsOfAll es).foldl step s) = (es.map read).reverse ++ part s := by
  induction es generalizing s with
  | nil => rfl
  | cons e es ih =>
    obtain ⟨he, hes⟩ := List.forall_mem_cons.1 h
    rw [tagsOfAll, List.foldl_append, ih hes, he, List.map_cons, List.reverse_cons,
      List.append_assoc]
    rfl

end folds

/-! ### Fonts -/

/-- Each tag changes the property with its name. -/
theorem fontProperty_eq (name : String) (fields : Fields) (font : Font) :
    fontProperty name fields font =
      { bold := if name = "b" then turnsOn fields else font.bold
        italic := if name = "i" then turnsOn fields else font.italic
        underline := if name = "u" then turnsOn fields else font.underline
        name := if name = "name" then lastNamed? "val" fields else font.name
        size := if name = "sz" then pointsOf fields else font.size
        color := if name = "color" then colorOf fields else font.color } := by
  rw [← toggle_eq_turnsOn, ← get?_eq_lastNamed?, ← number?_eq_pointsOf, ← color?_eq_colorOf]
  unfold fontProperty
  split <;> simp_all

/-- Each property of a font is as the last tag with its name leaves it. -/
theorem foldl_fontProperty (tags : List (String × Fields)) :
    tags.foldl (fun font tag => fontProperty tag.1 tag.2 font) {} =
      { bold := (lastNamed? "b" tags).any turnsOn
        italic := (lastNamed? "i" tags).any turnsOn
        underline := (lastNamed? "u" tags).any turnsOn
        name := (lastNamed? "name" tags).bind (lastNamed? "val")
        size := (lastNamed? "sz" tags).bind pointsOf
        color := (lastNamed? "color" tags).bind colorOf } := by
  induction tags using List.reverseRecOn with
  | nil => rfl
  | append_singleton tags tag ih =>
    rw [List.foldl_append, List.foldl_cons, List.foldl_nil, ih, fontProperty_eq]
    simp only [lastNamed?_concat]
    congr 1 <;> split <;> rfl

private theorem fontProperty_of_not_mem {name : String} (h : name ∉ fontProperties)
    (fields : Fields)
    (font : Font) : fontProperty name fields font = font := by
  simp only [fontProperties, List.mem_cons, List.not_mem_nil, or_false, not_or] at h
  rw [fontProperty_eq]
  simp only [h, if_false]

def fontsStep (fonts : List Font) (tag : String × Fields) : List Font :=
  if tag.1 = "font" then {} :: fonts else changeLatest (fontProperty tag.1 tag.2) fonts

private theorem foldl_font {e : Element} (h : IsFont e) (fonts : List Font) :
    e.tags.foldl fontsStep fonts = fontOf e :: fonts := by
  obtain ⟨hname, hinner⟩ := h
  have hinside : ∀ p ∈ e.children, ∀ font : Font, ∀ tag ∈ tagsOfAll p.children,
      fontProperty tag.1 tag.2 font = font := by
    intro p hp font tag htag
    refine fontProperty_of_not_mem (fun hmem => ?_) tag.2 font
    exact (hinner p hp).2 tag htag (List.mem_cons_of_mem _ hmem)
  have hchange : ∀ tag ∈ tagsOfAll e.children, ∀ fonts,
      fontsStep fonts tag = changeLatest (fontProperty tag.1 tag.2) fonts :=
    fun tag htag fonts => if_neg (ne_of_mem_tagsOfAll hinner tag htag)
  have hnew : fontsStep fonts e.tag = {} :: fonts := if_pos hname
  rw [foldl_entry hnew hchange, foldl_tagsOfAll hinside, foldl_fontProperty]
  rfl

theorem foldl_fonts {es : List Element} (h : ∀ e ∈ es, IsFont e) (fonts : List Font) :
    (tagsOfAll es).foldl fontsStep fonts = (es.map fontOf).reverse ++ fonts :=
  foldl_entries id (fun e he fonts => foldl_font (h e he) fonts) fonts

/-! ### Borders -/

def borderProperty (tag : String × Fields) (border : Option Border) : Option Border :=
  if sides.contains tag.1 then border.or (lineOf tag.2) else border

def bordersStep (borders : List (Option Border)) (tag : String × Fields) : List (Option Border) :=
  if tag.1 = "border" then none :: borders else changeLatest (borderProperty tag) borders

private theorem foldl_borderProperty (lines : List Element) (border : Option Border) :
    (lines.map Element.tag).foldl (fun border tag => borderProperty tag border) border =
      border.or ((lines.filter (sides.contains ·.name)).findSome? (lineOf ·.fields)) := by
  induction lines generalizing border with
  | nil => simp
  | cons line lines ih =>
    have hstep : borderProperty line.tag border =
        if sides.contains line.name then border.or (lineOf line.fields) else border := rfl
    rw [List.map_cons, List.foldl_cons, ih, hstep, List.filter_cons]
    split
    · rw [List.findSome?_cons, Option.or_assoc]
      cases lineOf line.fields <;> rfl
    · rfl

private theorem foldl_border {e : Element} (h : IsBorder e) (borders : List (Option Border)) :
    e.tags.foldl bordersStep borders = borderOf e :: borders := by
  obtain ⟨hname, hinner⟩ := h
  have hinside : ∀ l ∈ e.children, ∀ border, ∀ tag ∈ tagsOfAll l.children,
      borderProperty tag border = border := by
    intro l hl border tag htag
    refine if_neg fun hside => (hinner l hl).2 tag htag ?_
    exact List.mem_cons_of_mem _ (List.contains_iff_mem.1 hside)
  have hchange : ∀ tag ∈ tagsOfAll e.children, ∀ borders,
      bordersStep borders tag = changeLatest (borderProperty tag) borders :=
    fun tag htag borders => if_neg (ne_of_mem_tagsOfAll hinner tag htag)
  have hnew : bordersStep borders e.tag = none :: borders := if_pos hname
  rw [foldl_entry hnew hchange, foldl_tagsOfAll hinside, foldl_borderProperty, Option.none_or]
  rfl

theorem foldl_borders {es : List Element} (h : ∀ e ∈ es, IsBorder e)
    (borders : List (Option Border)) :
    (tagsOfAll es).foldl bordersStep borders = (es.map borderOf).reverse ++ borders :=
  foldl_entries id (fun e he borders => foldl_border (h e he) borders) borders

/-! ### Cell formats -/

def formatsStep (formats : List CellFormat) (tag : String × Fields) : List CellFormat :=
  if tag.1 = "xf" then newFormat tag.2 :: formats
  else changeLatest (formatProperty tag.1 tag.2) formats

def formatOf (e : Element) : CellFormat :=
  { newFormat e.fields with
    align := (lastInside? "alignment" e).bind alignOf
    wrap := (lastInside? "alignment" e).any (yesOr false "wrapText")
    protection := (lastInside? "protection" e).map protectionOf }

theorem formatProperty_eq (name : String) (fields : Fields) (f : CellFormat) :
    formatProperty name fields f =
      { f with
        align := if name = "alignment" then alignOf fields else f.align
        wrap := if name = "alignment" then yesOr false "wrapText" fields else f.wrap
        protection := if name = "protection" then some (protectionOf fields)
          else f.protection } := by
  rw [← align_eq_alignOf, protectionOf, ← flag_eq_yesOr, ← flag_eq_yesOr, ← flag_eq_yesOr]
  unfold formatProperty
  split <;> simp_all

private theorem foldl_formatProperty (fields : Fields) (tags : List (String × Fields)) :
    tags.foldl (fun f tag => formatProperty tag.1 tag.2 f) (newFormat fields) =
      { newFormat fields with
        align := (lastNamed? "alignment" tags).bind alignOf
        wrap := (lastNamed? "alignment" tags).any (yesOr false "wrapText")
        protection := (lastNamed? "protection" tags).map protectionOf } := by
  induction tags using List.reverseRecOn with
  | nil => rfl
  | append_singleton tags tag ih =>
    rw [List.foldl_append, List.foldl_cons, List.foldl_nil, ih, formatProperty_eq]
    simp only [lastNamed?_concat]
    congr 1 <;> split <;> rfl

private theorem foldl_format {e : Element} (h : IsFormat e) (formats : List CellFormat) :
    e.tags.foldl formatsStep formats = formatOf e :: formats := by
  obtain ⟨hname, hinner⟩ := h
  have hchange : ∀ tag ∈ tagsOfAll e.children, ∀ formats,
      formatsStep formats tag = changeLatest (formatProperty tag.1 tag.2) formats :=
    fun tag htag formats => if_neg fun hformat => hinner tag htag (List.mem_singleton.2 hformat)
  have hnew : formatsStep formats e.tag = newFormat e.fields :: formats := if_pos hname
  rw [foldl_entry hnew hchange, foldl_formatProperty]
  rfl

theorem foldl_formats {es : List Element} (h : ∀ e ∈ es, IsFormat e) (formats : List CellFormat) :
    (tagsOfAll es).foldl formatsStep formats = (es.map formatOf).reverse ++ formats :=
  foldl_entries id (fun e he formats => foldl_format (h e he) formats) formats

/-! ### Fills -/

def fillsStep (s : Bool × List (Option Nat)) (tag : String × Fields) : Bool × List (Option Nat) :=
  if tag.1 = "fill" then (s.1, none :: s.2)
  else if tag.1 = "patternFill" then (lastNamed? "patternType" tag.2 = some "solid", s.2)
  else if tag.1 = "fgColor" then
    (s.1, if s.1 then changeLatest (fun _ => colorOf tag.2) s.2 else s.2)
  else s

theorem fillsStep_of_not_mem {tag : String × Fields}
    (h : tag.1 ∉ ["fill", "patternFill", "fgColor"]) (s : Bool × List (Option Nat)) :
    fillsStep s tag = s := by
  simp only [List.mem_cons, List.not_mem_nil, or_false, not_or] at h
  simp only [fillsStep, h, if_false]

/-- Inside a solid pattern the last foreground is the colour of the fill; inside another nothing
is. -/
theorem foldl_pattern {tags : List (String × Fields)}
    (h : ∀ tag ∈ tags, tag.1 ∉ ["fill", "patternFill"]) (solid : Bool) (color : Option Nat)
    (fills : List (Option Nat)) : tags.foldl fillsStep (solid, color :: fills) =
      (solid, (if solid then ((lastNamed? "fgColor" tags).map colorOf).getD color
        else color) :: fills) := by
  induction tags using List.reverseRecOn with
  | nil => cases solid <;> rfl
  | append_singleton tags tag ih =>
    obtain ⟨htags, htag⟩ := List.forall_mem_append.1 h
    have hnot := htag tag List.mem_cons_self
    simp only [List.mem_cons, List.not_mem_nil, or_false, not_or] at hnot
    rw [List.foldl_append, List.foldl_cons, List.foldl_nil, ih htags, lastNamed?_concat]
    simp only [fillsStep, hnot, if_false]
    cases solid with
    | false => simp
    | true =>
      split <;> rfl

/-- A child of a fill leaves the colour of its foreground, if it is a solid pattern. -/
theorem foldl_fillChild {p : Element} (h : IsFillChild p) (solid : Bool) (color : Option Nat)
    (fills : List (Option Nat)) : ∃ solid',
      p.tags.foldl fillsStep (solid, color :: fills) =
        (solid', ((lastChild? "fgColor" (if isSolid p then p.children else [])).map
          colorOf).getD color :: fills) := by
  obtain ⟨hname, hinner⟩ := h
  rw [Element.tags_eq, List.foldl_cons]
  by_cases hpattern : p.name = "patternFill"
  · rw [if_pos hpattern] at hinner
    have hstep : fillsStep (solid, color :: fills) p.tag = (isSolid p, color :: fills) := by
      simp [fillsStep, Element.tag, isSolid, hpattern]
    have hinside : ∀ c ∈ p.children, ∀ s, ∀ tag ∈ tagsOfAll c.children, fillsStep s tag = s :=
      fun c hc s tag htag => fillsStep_of_not_mem ((hinner c hc).2 tag htag) s
    have htags : ∀ tag ∈ p.children.map Element.tag, tag.1 ∉ ["fill", "patternFill"] := by
      intro tag htag
      obtain ⟨c, hc, rfl⟩ := List.mem_map.1 htag
      exact (hinner c hc).1
    rw [hstep, foldl_tagsOfAll hinside, foldl_pattern htags]
    refine ⟨isSolid p, ?_⟩
    cases isSolid p <;> rfl
  · rw [if_neg hpattern] at hinner
    have hnot : isSolid p = false := by simp [isSolid, hpattern]
    have hstep : fillsStep (solid, color :: fills) p.tag = (solid, color :: fills) := by
      refine fillsStep_of_not_mem ?_ _
      simp only [List.mem_cons, List.not_mem_nil, or_false, not_or] at hname ⊢
      exact ⟨hname.1, hpattern, hname.2⟩
    rw [hstep, foldl_fixed fun s tag htag => fillsStep_of_not_mem (hinner tag htag) s, hnot]
    exact ⟨solid, rfl⟩

private theorem foldl_fillChildren {ps : List Element} (h : ∀ p ∈ ps, IsFillChild p) (solid : Bool)
    (color : Option Nat) (fills : List (Option Nat)) :
    ((tagsOfAll ps).foldl fillsStep (solid, color :: fills)).2 =
      ((lastChild? "fgColor" ((ps.filter isSolid).flatMap (·.children))).map colorOf).getD
        color :: fills := by
  induction ps generalizing solid color with
  | nil => rfl
  | cons p ps ih =>
    obtain ⟨hp, hps⟩ := List.forall_mem_cons.1 h
    obtain ⟨solid', hstep⟩ := foldl_fillChild hp solid color fills
    have hsplit : ((p :: ps).filter isSolid).flatMap (·.children) =
        (if isSolid p then p.children else []) ++ (ps.filter isSolid).flatMap (·.children) := by
      rw [List.filter_cons]
      split
      · rw [List.flatMap_cons]
      · rfl
    rw [tagsOfAll, List.foldl_append, hstep, ih hps, hsplit]
    unfold lastChild?
    rw [List.map_append, lastNamed?_append]
    cases lastNamed? "fgColor" (((ps.filter isSolid).flatMap (·.children)).map Element.tag) <;> rfl

private theorem foldl_fill {e : Element} (h : IsFill e) (s : Bool × List (Option Nat)) :
    (e.tags.foldl fillsStep s).2 = fillOf e :: s.2 := by
  obtain ⟨hname, hinner⟩ := h
  have hstart : fillsStep s e.tag = (s.1, none :: s.2) := if_pos hname
  rw [Element.tags_eq, List.foldl_cons, hstart, foldl_fillChildren hinner, fillOf]
  cases lastChild? "fgColor" ((e.children.filter isSolid).flatMap (·.children)) <;> rfl

theorem foldl_fills {es : List Element} (h : ∀ e ∈ es, IsFill e) (s : Bool × List (Option Nat)) :
    ((tagsOfAll es).foldl fillsStep s).2 = (es.map fillOf).reverse ++ s.2 :=
  foldl_entries Prod.snd (fun e he s => foldl_fill (h e he) s) s

end SheetTemplate.StyleTable
