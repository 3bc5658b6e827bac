import SheetTemplate.Command.Session
import SheetTemplate.Package.Fill
/-!
The command that fills a template from a data file and writes the result.
-/
namespace SheetTemplate

/-- Paths of the three files, and whether the command says what it does. -/
structure FillRequest where
  template : String
  data : String
  output : String
  verbose : Bool := false

namespace FillRequest

def sheetLines (s : SheetSummary) : List String :=
  ["   📊 Worksheet: " ++ s.sheet]
    ++ s.expanded.map (fun e =>
      "      row " ++ Text.decimal e.row ++ " → " ++ Text.decimal e.rowsWritten ++ " rows from "
        ++ e.key)
    ++ s.skipped.map fun d =>
      "      row " ++ Text.decimal d.row ++ " kept (" ++ d.key ++ " not in data)"

def closingLines (r : FillRequest) (s : Summary) : List String :=
  ["✅ Fill Complete!",
    "   Worksheets:    " ++ Text.decimal s.sheets.length,
    "   Rows expanded: " ++ Text.decimal s.rowsExpanded,
    "   Rows written:  " ++ Text.decimal s.rowsWritten]
    ++ (if 0 < s.rowsSkipped then
      ["   ⚠️  " ++ Text.decimal s.rowsSkipped
        ++ " template rows kept as-is (array not in data)"]
    else [])
    ++ ["   Excel file: " ++ r.output ++ "\n"]

def fillTemplate (content : FileContent) (data : Data) : Session (Summary × Package) :=
  match Session.packageOf content >>= (·.fill data) with
  | .ok filled => pure filled
  | .error failure => do
    match failure.location? with
    | some (sheet, row) =>
      Session.say
        ("❌ Template error in worksheet '" ++ sheet ++ "' at row " ++ Text.decimal row)
    | none => pure ()
    throw failure

def run (r : FillRequest) : Session Unit := do
  Session.sayAll
    ["📄 Sheetfill - Filling template", "   Template: " ++ r.template,
      "   Data:     " ++ r.data, "   Output:   " ++ r.output ++ "\n"]
  Session.sayIf r.verbose "📖 Reading data file..."
  let data ← Session.loadData r.data
  Session.sayIf r.verbose "📖 Reading template..."
  let content ← Session.readFile r.template
  Session.sayIf r.verbose "🧩 Expanding rows and resolving markers..."
  let (summary, filled) ← fillTemplate content data
  if r.verbose then
    Session.sayAll (summary.sheets.flatMap sheetLines ++ ["", "💾 Writing workbook..."])
  Session.writePackage r.output filled
  Session.sayAll (closingLines r summary)

end FillRequest

end SheetTemplate
