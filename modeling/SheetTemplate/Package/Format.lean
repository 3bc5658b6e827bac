import SheetTemplate.Package.Basic
import SheetTemplate.Sheet.Cell
import SheetTemplate.Xml.Node
/-!
Formats of cells as a package states them: with a font, a fill, a border, a code for numbers and a
protection, whether or not the cell sets them. Each distinct format gets an entry in every table of
the styles, at its own index.
-/
namespace SheetTemplate

/-- A whole format. What nothing is said about is as in the standard format, which is `{}`. -/
structure Format where
  bold : Bool := false
  italic : Bool := false
  underline : Bool := false
  fontName : String := "Calibri"
  fontSize : Binary64 := Binary64.ofNat 11
  fontColor : Option Nat := none
  fill : Option Nat := none
  /-- The code for numbers, empty if there is none. -/
  code : String := ""
  align : Option Align := none
  wrap : Bool := false
  border : Option Border := none
  locked : Bool := true
  hidden : Bool := false
deriving DecidableEq

namespace Format

def color? (color : Option Nat) : Option Nat :=
  color.filter (· < twoTo 24)

/-- The code of a date without one of its own. -/
def dateCode (d : DateTime) : String :=
  if d.isMidnight then "yyyy-mm-dd" else "yyyy-mm-dd hh:mm:ss"

def codeOf (style : Style) (value : CellValue) : String :=
  match style.numberFormat, value with
  | some code, _ => code
  | none, .date d => dateCode d
  | none, _ => ""

def ofCell (c : Cell) : Format :=
  let style := c.presentation.style.getD {}
  let protection := c.presentation.protection.getD {}
  { bold := style.bold
    italic := style.italic
    underline := style.underline
    fontName := style.fontName.getD "Calibri"
    fontSize := style.fontSize.getD (Binary64.ofNat 11)
    fontColor := color? style.fontColor
    fill := color? style.fillColor
    code := codeOf style c.value
    align := style.align
    wrap := style.wrap
    border := style.border
    locked := protection.locked
    hidden := protection.hidden }

/-- A colour as two digits that say that it is opaque and six for its bytes. -/
def colorText (color : Nat) : String :=
  let digit (i : Nat) : Char := "0123456789ABCDEF".toList.getD (color / power 16 i % 16) '0'
  String.ofList ('F' :: 'F' :: [5, 4, 3, 2, 1, 0].map digit)

def nodeIf (condition : Bool) (name : String) (fields : Xml.Fields) : List Xml.Node :=
  if condition then [.leaf name fields] else []

def fontNode (f : Format) : Xml.Node :=
  .element "font" [] <|
    nodeIf f.bold "b" [] ++ nodeIf f.italic "i" [] ++ nodeIf f.underline "u" []
      ++ [.leaf "sz" [("val", f.fontSize.text)],
        .leaf "color" [match f.fontColor with
          | some color => ("rgb", colorText color)
          | none => ("theme", "1")],
        .leaf "name" [("val", f.fontName)], .leaf "family" [("val", "2")]]

def fillNode (f : Format) : Xml.Node :=
  .element "fill" [] <| match f.fill with
    | some color =>
      [.element "patternFill" [("patternType", "solid")]
        [.leaf "fgColor" [("rgb", colorText color)], .leaf "bgColor" [("indexed", "64")]]]
    | none => [.leaf "patternFill" [("patternType", "none")]]

def lineName : Border → String
  | .thin => "thin"
  | .medium => "medium"
  | .thick => "thick"

def borderNode (f : Format) : Xml.Node :=
  let side (name : String) : Xml.Node :=
    match f.border with
    | some line => .element name [("style", lineName line)] [.leaf "color" [("auto", "1")]]
    | none => .leaf name []
  .element "border" [] [side "left", side "right", side "top", side "bottom", .leaf "diagonal" []]

def alignName : Align → String
  | .left => "left"
  | .center => "center"
  | .right => "right"

/-- The number of the code of the format at an index. Numbers below 164 have a meaning of their
own. -/
def codeNumber (index : Nat) (f : Format) : Nat :=
  if f.code.isEmpty then 0 else 164 + index

def codeNodes (index : Nat) (f : Format) : List Xml.Node :=
  nodeIf (!f.code.isEmpty) "numFmt"
    [("numFmtId", Text.decimal (codeNumber index f)), ("formatCode", f.code)]

def alignmentNodes (f : Format) : List Xml.Node :=
  nodeIf (f.align.isSome || f.wrap) "alignment" <|
    f.align.toList.map (fun a => ("horizontal", alignName a))
      ++ if f.wrap then [("wrapText", "1")] else []

/-- The protection of a format, if it is not the usual one. -/
def protectionNodes (f : Format) : List Xml.Node :=
  nodeIf (!f.locked || f.hidden) "protection" <|
    (if f.locked then [] else [("locked", "0")]) ++ if f.hidden then [("hidden", "1")] else []

/-- The cell format at an index. The table of fills begins with two that every package has. -/
def formatNode (index : Nat) (f : Format) : Xml.Node :=
  .element "xf"
    [("numFmtId", Text.decimal (codeNumber index f)), ("fontId", Text.decimal index),
      ("fillId", Text.decimal (index + 2)), ("borderId", Text.decimal index), ("xfId", "0"),
      ("applyNumberFormat", "1"), ("applyFont", "1"), ("applyFill", "1"), ("applyBorder", "1"),
      ("applyAlignment", "1"), ("applyProtection", "1")]
    (alignmentNodes f ++ protectionNodes f)

/-- The two fills at the beginning of their table. -/
def firstFills : List Xml.Node :=
  [.element "fill" [] [.leaf "patternFill" [("patternType", "none")]],
    .element "fill" [] [.leaf "patternFill" [("patternType", "gray125")]]]

def stylesNode (formats : List Format) : Xml.Node :=
  let count (n : Nat) : Xml.Fields := [("count", Text.decimal n)]
  let codes := (formats.mapIdx codeNodes).flatten
  .element "styleSheet" [("xmlns", Package.workbookVocabulary)]
    [.element "numFmts" (count codes.length) codes,
      .element "fonts" (count formats.length) (formats.map fontNode),
      .element "fills" (count (formats.length + 2)) (firstFills ++ formats.map fillNode),
      .element "borders" (count formats.length) (formats.map borderNode),
      .element "cellStyleXfs" (count 1)
        [.leaf "xf" [("numFmtId", "0"), ("fontId", "0"), ("fillId", "0"), ("borderId", "0")]],
      .element "cellXfs" (count formats.length) (formats.mapIdx formatNode),
      .element "cellStyles" (count 1)
        [.leaf "cellStyle" [("name", "Normal"), ("xfId", "0"), ("builtinId", "0")]]]

end Format

end SheetTemplate
