import SheetTemplate.Package.WrittenSheet
import SheetTemplate.Text.LowerCase
/-!
The package of a workbook: a part for each sheet, and parts for the list of sheets, the formats and
the texts that they refer to by number.
-/
namespace SheetTemplate

namespace WrittenSheet

def texts (s : WrittenSheet) : List String :=
  s.cells.entries.filterMap fun (_, c) =>
    match c.value with
    | .text t => some t
    | _ => none

def formats (s : WrittenSheet) : List Format :=
  s.cells.entries.map fun e => e.2.format

/-- The element of a cell, given the index of its format and the number of its text. A blank cell
in the standard format has none. -/
def cellNode? (formatIndex textNumber : Nat) (place : CellRef) (value : WrittenValue) :
    Option Xml.Node :=
  let fields (type : Xml.Fields) : Xml.Fields :=
    ("r", place.text) :: (if formatIndex = 0 then [] else [("s", Text.decimal formatIndex)])
      ++ type
  match value with
  | .blank => if formatIndex = 0 then none else some (.leaf "c" (fields []))
  | .text _ =>
    some (.element "c" (fields [("t", "s")]) [.holding "v" [] (Text.decimal textNumber)])
  | .number x => some (.element "c" (fields []) [.holding "v" [] x.text])
  | .bool b =>
    some (.element "c" (fields [("t", "b")]) [.holding "v" [] (if b then "1" else "0")])
  | .formula f =>
    some (.element "c" (fields []) [.holding "f" [] f, .holding "v" [] "0"])

/-- The elements of cells with their rows. Texts are numbered in the order of the cells, from
`next` on. -/
def cellNodes (formats : List Format) (next : Nat) :
    List (CellRef × WrittenCell) → List (Nat × Xml.Node)
  | [] => []
  | (place, c) :: rest =>
    let next' := match c.value with
      | .text _ => next + 1
      | _ => next
    ((cellNode? (formats.idxOf c.format) next place c.value).toList.map (place.row, ·))
      ++ cellNodes formats next' rest

def rowNode (cells : List (Nat × Xml.Node)) : Xml.Node :=
  .element "row" (cells.head?.toList.map fun c => ("r", Text.decimal c.1)) (cells.map (·.2))

def widthNode (column : Nat) (width : Binary64) : Xml.Node :=
  .leaf "col" [("min", Text.decimal column), ("max", Text.decimal column), ("width", width.text),
    ("customWidth", "1")]

/-- A list of elements with their number, unless there are none. -/
def listNode (name : String) (nodes : List Xml.Node) : List Xml.Node :=
  if nodes.isEmpty then [] else [.element name [("count", Text.decimal nodes.length)] nodes]

def node (formats : List Format) (firstText : Nat) (s : WrittenSheet) : Xml.Node :=
  let rows := (cellNodes formats firstText s.cells.entries).splitBy fun a b => a.1 = b.1
  .element "worksheet" [("xmlns", Package.workbookVocabulary)] <|
    (if s.widths.isEmpty then []
      else [.element "cols" [] (s.widths.map fun (column, width) => widthNode column width)])
    ++ [.element "sheetData" [] (rows.map rowNode)]
    ++ listNode "mergeCells" (s.merges.map fun r => .leaf "mergeCell" [("ref", r.text)])
    ++ listNode "dataValidations" (s.validations.map StoredValidation.node)

end WrittenSheet

namespace Package

def linkVocabulary : String :=
  vocabulary "officeDocument/2006/relationships"

def linksNode (links : List (String × String × String)) : Xml.Node :=
  .element "Relationships" [("xmlns", vocabulary "package/2006/relationships")] <|
    links.map fun (id, kind, target) =>
      .leaf "Relationship" [("Id", id), ("Type", linkVocabulary ++ "/" ++ kind), ("Target", target)]

def sheetLink (index : Nat) : String :=
  "rId" ++ Text.decimal (index + 1)

def sheetTarget (index : Nat) : String :=
  "worksheets/sheet" ++ Text.decimal (index + 1) ++ ".xml"

def workbookNode (names : List String) : Xml.Node :=
  .element "workbook" [("xmlns", workbookVocabulary), ("xmlns:r", linkVocabulary)]
    [.element "sheets" [] <| names.mapIdx fun i name =>
      .leaf "sheet" [("name", name), ("sheetId", Text.decimal (i + 1)), ("r:id", sheetLink i)]]

def workbookLinks (sheets : Nat) : Xml.Node :=
  linksNode <|
    (List.range sheets).map (fun i => (sheetLink i, "worksheet", sheetTarget i))
      ++ [(sheetLink sheets, "styles", "styles.xml"),
        (sheetLink (sheets + 1), "sharedStrings", "sharedStrings.xml")]

def typesNode (sheets : Nat) : Xml.Node :=
  let kind (name : String) : String :=
    "application/vnd.openxmlformats-officedocument.spreadsheetml." ++ name ++ "+xml"
  let part (name type : String) : Xml.Node :=
    .leaf "Override" [("PartName", "/xl/" ++ name), ("ContentType", kind type)]
  .element "Types" [("xmlns", vocabulary "package/2006/content-types")] <|
    [.leaf "Default" [("Extension", "rels"),
        ("ContentType", "application/vnd.openxmlformats-package.relationships+xml")],
      .leaf "Default" [("Extension", "xml"), ("ContentType", "application/xml")],
      part "workbook.xml" "sheet.main"]
    ++ (List.range sheets).map (fun i => part (sheetTarget i) "worksheet")
    ++ [part "styles.xml" "styles", part "sharedStrings.xml" "sharedStrings"]

/-- A shared text as written. What looks like runs of rich text already is taken for that. -/
def sharedTextChars (s : String) : List Char :=
  let cs := s.toList
  if "<r>".toList.isPrefixOf cs && "</r>".toList.isSuffixOf cs then
    "<si>".toList ++ cs ++ "</si>".toList
  else (Xml.Node.element "si" [] [.holding "t" [("xml:space", "preserve")] s]).chars

def sharedTexts (texts : List String) : String :=
  String.ofList <| Xml.declaration ++ "<sst xmlns=\"".toList ++ workbookVocabulary.toList
    ++ "\">".toList ++ texts.flatMap sharedTextChars ++ "</sst>".toList

def sheetParts (formats : List Format) (firstText : Nat) (index : Nat) :
    List WrittenSheet → List (String × Part)
  | [] => []
  | s :: rest =>
    ("xl/" ++ sheetTarget index, { text := Xml.document (s.node formats firstText) })
      :: sheetParts formats (firstText + s.texts.length) (index + 1) rest

def ofSheets (sheets : List WrittenSheet) : Package :=
  let formats := ({} :: sheets.flatMap WrittenSheet.formats).eraseDups
  let part (name : String) (root : Xml.Node) : String × Part :=
    (name, { text := Xml.document root })
  ⟨[part "[Content_Types].xml" (typesNode sheets.length),
      part "_rels/.rels" (linksNode [("rId1", "officeDocument", "xl/workbook.xml")]),
      part "xl/workbook.xml" (workbookNode (sheets.map WrittenSheet.name)),
      part "xl/_rels/workbook.xml.rels" (workbookLinks sheets.length),
      part "xl/styles.xml" (Format.stylesNode formats),
      ("xl/sharedStrings.xml", { text := sharedTexts (sheets.flatMap WrittenSheet.texts) })]
    ++ sheetParts formats 0 0 sheets⟩

end Package

namespace Workbook

def onlySheet : WrittenSheet where
  name := "Sheet1"
  widths := []
  merges := []
  cells := Table.empty
  validations := []

/-- The package of the workbook, unless a sheet goes past a limit or two sheets have one name when
letters are taken in either case. -/
def save (w : Workbook) : Except Failure Package := do
  let sheets ← (w.sheets.mapM WrittenSheet.ofSheet).mapError .write
  let names := sheets.map fun s => Text.lower s.name
  if names.eraseDups.length < names.length then throw (.write .workbook)
  return Package.ofSheets (if sheets.isEmpty then [onlySheet] else sheets)

end Workbook

end SheetTemplate
