import SheetTemplate.Failure
import SheetTemplate.Sheet.Presentation
import SheetTemplate.Xml.Fields
/-!
The cell formats of a package. Its styles keep fonts, fills, borders and number formats in tables of
their own; a cell format points into them. Only the four sections with these tables and the cell
formats count, so nothing elsewhere shifts an index.
-/
namespace SheetTemplate

/-- An entry of the table of fonts. -/
structure Font where
  bold : Bool := false
  italic : Bool := false
  underline : Bool := false
  name : Option String := none
  size : Option Binary64 := none
  color : Option Nat := none
deriving DecidableEq

/-- A cell format, which points into the tables. -/
structure CellFormat where
  numberFormat : Nat := 0
  font : Nat := 0
  fill : Nat := 0
  border : Nat := 0
  align : Option Align := none
  wrap : Bool := false
  protection : Option Protection := none
deriving DecidableEq

/-- The tables, each with its latest entry first. -/
structure StyleTable where
  /-- Codes of number formats by their number. -/
  codes : List (Nat × String) := []
  fonts : List Font := []
  /-- Colours of solid fills. -/
  fills : List (Option Nat) := []
  borders : List (Option Border) := []
  formats : List CellFormat := []

namespace StyleTable

def border? (name : String) : Option Border :=
  if name = "none" then none
  else if ["medium", "mediumDashed", "mediumDashDot", "mediumDashDotDot"].contains name then
    some .medium
  else if ["thick", "double"].contains name then some .thick
  else some .thin

def align? (name : String) : Option Align :=
  match name with
  | "left" => some .left
  | "center" => some .center
  | "right" => some .right
  | _ => none

def builtInCodes : List (Nat × String) :=
  [(1, "0"), (2, "0.00"), (3, "#,##0"), (4, "#,##0.00"), (9, "0%"), (10, "0.00%"),
   (11, "0.00E+00"), (12, "# ?/?"), (13, "# ??/??"), (14, "mm-dd-yy"), (15, "d-mmm-yy"),
   (16, "d-mmm"), (17, "mmm-yy"), (18, "h:mm AM/PM"), (19, "h:mm:ss AM/PM"), (20, "h:mm"),
   (21, "h:mm:ss"), (22, "m/d/yy h:mm"), (37, "#,##0 ;(#,##0)"), (38, "#,##0 ;[Red](#,##0)"),
   (39, "#,##0.00;(#,##0.00)"), (40, "#,##0.00;[Red](#,##0.00)"), (45, "mm:ss"),
   (46, "[h]:mm:ss"), (47, "mm:ss.0"), (48, "##0.0E+0"), (49, "@")]

/-- The code of a number format. Number 0 has none. -/
def code? (t : StyleTable) (id : Nat) : Option String :=
  if id = 0 then none
  else (((t.codes ++ builtInCodes).find? fun e => e.1 = id)).map (·.2)

/-- The value, unless it is that of the standard font. -/
def unlessStandard {α : Type} (same : α → α → Bool) (standard : Option α) (own : Option α) :
    Option α :=
  own.filter fun a => match standard with
    | some s => !same a s
    | none => true

/-- The style of a cell format, if it differs from the standard. An index past the end of its table
points to nothing in particular. -/
def style? (t : StyleTable) (f : CellFormat) : Option Style :=
  let standard := t.fonts.reverse.headD {}
  let font := t.fonts.reverse.getD f.font {}
  let style : Style := {
    bold := font.bold
    italic := font.italic
    underline := font.underline
    wrap := f.wrap
    fontName := unlessStandard (· = ·) standard.name font.name
    fontSize := unlessStandard Binary64.equals standard.size font.size
    fontColor := unlessStandard (· = ·) standard.color font.color
    fillColor := t.fills.reverse.getD f.fill none
    numberFormat := t.code? f.numberFormat
    align := f.align
    border := t.borders.reverse.getD f.border none }
  if style = {} then none else some style

def presentation (t : StyleTable) (f : CellFormat) : Presentation where
  style := t.style? f
  protection := f.protection.filter (· ≠ {})

def presentations (t : StyleTable) : Array Presentation :=
  (t.formats.reverse.map t.presentation).toArray

def changeLatest {α : Type} (f : α → α) : List α → List α
  | [] => []
  | a :: rest => f a :: rest

/-- The part of the styles that a reader is in. -/
inductive Section where
  | outside
  | fonts
  | fills
  | borders
  | cellFormats
deriving DecidableEq

def Section.ofName? : String → Option Section
  | "fonts" => some .fonts
  | "fills" => some .fills
  | "borders" => some .borders
  | "cellXfs" => some .cellFormats
  | _ => none

/-- The tables while they are read. -/
structure Reading where
  place : Section := .outside
  /-- The latest pattern of a fill is solid. -/
  solid : Bool := false
  table : StyleTable := {}

def fontProperty (name : String) (fields : Xml.Fields) (font : Font) : Font :=
  match name with
  | "b" => { font with bold := fields.toggle }
  | "i" => { font with italic := fields.toggle }
  | "u" => { font with underline := fields.toggle }
  | "sz" => { font with size := fields.number? "val" }
  | "name" => { font with name := fields.get? "val" }
  | "color" => { font with color := fields.color? }
  | _ => font

def newFormat (fields : Xml.Fields) : CellFormat where
  numberFormat := (fields.natural? (twoTo 32) "numFmtId").getD 0
  font := (fields.natural? (twoTo 64) "fontId").getD 0
  fill := (fields.natural? (twoTo 64) "fillId").getD 0
  border := (fields.natural? (twoTo 64) "borderId").getD 0

def formatProperty (name : String) (fields : Xml.Fields) (f : CellFormat) : CellFormat :=
  match name with
  | "alignment" =>
    { f with
      align := (fields.get? "horizontal").bind align?
      wrap := fields.flag "wrapText" false }
  | "protection" =>
    { f with protection := some ⟨fields.flag "locked" true, fields.flag "hidden" false⟩ }
  | _ => f

def readElement (r : Reading) (name : String) (fields : Xml.Fields) : Reading :=
  let t := r.table
  match r.place, name with
  | .fonts, "font" => { r with table := { t with fonts := {} :: t.fonts } }
  | .fonts, name =>
    { r with table := { t with fonts := changeLatest (fontProperty name fields) t.fonts } }
  | .fills, "fill" => { r with table := { t with fills := none :: t.fills } }
  | .fills, "patternFill" => { r with solid := fields.get? "patternType" = some "solid" }
  | .fills, "fgColor" =>
    if r.solid then
      { r with table := { t with fills := changeLatest (fun _ => fields.color?) t.fills } }
    else r
  | .borders, "border" => { r with table := { t with borders := none :: t.borders } }
  | .borders, name =>
    if ["left", "right", "top", "bottom"].contains name then
      let line := (fields.get? "style").bind border?
      { r with table := { t with borders := changeLatest (·.or line) t.borders } }
    else r
  | .cellFormats, "xf" => { r with table := { t with formats := newFormat fields :: t.formats } }
  | .cellFormats, name =>
    { r with table := { t with formats := changeLatest (formatProperty name fields) t.formats } }
  | _, _ => r

def readTag (r : Reading) (opens : Bool) (name : String) (fields : Xml.Fields) : Reading :=
  if name = "numFmt" then
    match fields.natural? (twoTo 32) "numFmtId", fields.get? "formatCode" with
    | some id, some code =>
      { r with table := { r.table with codes := (id, code) :: r.table.codes } }
    | _, _ => r
  else
    match opens, Section.ofName? name with
    | true, some place => { r with place }
    | _, _ => readElement r name fields

def partName : String := "xl/styles.xml"

/-- The tables after one more event. The attributes of every tag have to be well formed. -/
def readEvent (r : Reading) (e : Xml.Event) : Except ReadFailure Reading :=
  let tag (opens : Bool) (name : String) (raw : List Char) : Except ReadFailure Reading :=
    match Xml.fields? raw with
    | some fields => .ok (readTag r opens (Xml.localName name) fields)
    | none => .error .malformedAttribute
  match e with
  | .opening name raw => tag true name raw
  | .selfClosing name raw => tag false name raw
  | .closing name =>
    .ok (if (Section.ofName? (Xml.localName name)).isSome then { r with place := .outside } else r)
  | .broken => .error (.part partName)
  | _ => .ok r

def ofEvents (events : List Xml.Event) : Except ReadFailure StyleTable :=
  (events.foldlM readEvent {}).map (·.table)

end StyleTable

end SheetTemplate
