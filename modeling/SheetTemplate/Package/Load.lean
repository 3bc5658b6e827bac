import SheetTemplate.Package.SheetList
import SheetTemplate.Package.SheetLook
import SheetTemplate.Package.StoredFormula
import SheetTemplate.Package.StoredMerge
import SheetTemplate.Package.StoredValue
import SheetTemplate.Sheet.Basic
/-!
The workbook in a package. Each sheet is laid over from three sources, cell by cell: values,
formulas, which win over values, and presentations. Values are found the tolerant way and
presentations the strict way, so a sheet may have values without a presentation.
-/
namespace SheetTemplate

/-- The sheet with a name on which the sources say what they do. Merged regions come in their
order, without single cells and repetitions. -/
def Sheet.overlay (name : String) (values : Table CellRef CellValue)
    (formulas : Table CellRef String) (merges : List Range) (look : SheetLook) : Sheet where
  name := name
  cells :=
    let shown := values.mergeWith (fun _ formula => formula)
      (formulas.mapValues fun _ f => CellValue.ofFormula f)
    (shown.mapValues fun _ value => ({ value } : Cell)).mergeWith
      (fun cell look => { cell with presentation := look.presentation })
      (look.cells.mapValues fun _ presentation => { presentation })
  merges := merges.foldl pushRange []
  widths := look.widths

namespace Package

def text? (p : Package) (name : String) : Except Failure (Option String) :=
  match p.part? name with
  | none => .ok none
  | some part => if part.isUtf8 then .ok (some part.text) else .error (.file .notUtf8)

/-- Two values of each element with a name, among the events of a part, where both are there. -/
def valuePairs (element first second part : String) :
    List Xml.Event → Except ReadFailure (List (String × String))
  | [] => .ok []
  | e :: rest =>
    let tag (name : String) (raw : List Char) : Except ReadFailure (List (String × String)) :=
      if Xml.localName name = element then
        match Xml.fields? raw with
        | none => .error .malformedAttribute
        | some fields =>
          match fields.get? first, fields.get? second with
          | some a, some b => (valuePairs element first second part rest).map ((a, b) :: ·)
          | _, _ => valuePairs element first second part rest
      else valuePairs element first second part rest
    match e with
    | .broken => .error (.part part)
    | .opening name raw => tag name raw
    | .selfClosing name raw => tag name raw
    | _ => valuePairs element first second part rest

def targetPart (target : String) : String :=
  match target.toList with
  | '/' :: cs => String.ofList cs
  | _ => "xl/" ++ target

def lastOf? (key : String) (pairs : List (String × String)) : Option String :=
  (pairs.reverse.find? fun e => e.1 = key).map (·.2)

/-- The looks of listed sheets by their names, the latest first. Sheets whose part cannot be found
have none. -/
def looksOf (p : Package) (formats : Array Presentation) (relationships : List (String × String))
    (looks : List (String × SheetLook)) :
    List (String × String) → Except Failure (List (String × SheetLook))
  | [] => .ok looks
  | (name, id) :: rest =>
    match lastOf? id relationships with
    | none => looksOf p formats relationships looks rest
    | some target => do
      match ← p.text? (targetPart target) with
      | none => looksOf p formats relationships looks rest
      | some text =>
        let look ← (SheetLook.ofEvents formats (Xml.strictEvents text)).mapError .read
        looksOf p formats relationships ((name, look) :: looks) rest

def looks (p : Package) : Except Failure (List (String × SheetLook)) := do
  match ← p.text? "xl/workbook.xml" with
  | none => return []
  | some workbook =>
    let relationships ← match ← p.text? "xl/_rels/workbook.xml.rels" with
      | some text =>
        (valuePairs "Relationship" "Id" "Target" "workbook relationships"
          (Xml.strictEvents text)).mapError .read
      | none => pure []
    let table ← match ← p.text? StyleTable.partName with
      | some text => (StyleTable.ofEvents (Xml.strictEvents text)).mapError .read
      | none => pure {}
    let sheets ← (valuePairs "sheet" "name" "id" "xl/workbook.xml"
      (Xml.strictEvents workbook)).mapError .read
    looksOf p table.presentations relationships [] sheets

def partOf? (entries : List SheetEntry) (name : String) : Option String :=
  (entries.find? fun e => e.name = name).map (·.part)

/-- The worksheet with a name and a look, unless its values cannot be read. Formulas that cannot be
read are left out. -/
def sheet? (p : Package) (shelf : Shelf) (entries : List SheetEntry) (name : String)
    (look : SheetLook) : Option Sheet := do
  let events ← (partOf? entries name).bind p.tolerantEvents?
  let values ← shelf.values? events
  let formulas := (SharedFormulas.ofEvents? events).getD []
  return Sheet.overlay name (Table.ofList values) (Table.ofList formulas)
    (StoredMerge.ofEvents events) look

def plainLook : SheetLook := ⟨Table.empty, Table.empty⟩

/-- Worksheets with the given names. Of several with one name the first takes the look. -/
def sheets (p : Package) (shelf : Shelf) (entries : List SheetEntry) :
    List (String × SheetLook) → List String → Except Failure (List Sheet)
  | _, [] => .ok []
  | looks, name :: rest =>
    let look := ((looks.find? fun e => e.1 = name).map (·.2)).getD plainLook
    match p.sheet? shelf entries name look with
    | none => .error (.read (.worksheet name))
    | some s =>
      (sheets p shelf entries (looks.filter fun e => e.1 ≠ name) rest).map (s :: ·)

def load (p : Package) : Except Failure Workbook := do
  let some texts := RichText.ofPackage? p | throw (.read .package)
  let some kinds := NumberKind.ofPackage? p | throw (.read .package)
  let some entries := SheetEntry.ofPackage? p | throw (.read .package)
  let parts := entries.filterMap fun e => p.tolerantEvents? e.part
  if !parts.all StoredMerge.readable then throw (.read .mergedRegions)
  let looks ← p.looks
  let names := (entries.filter SheetEntry.isWorksheet).map SheetEntry.name
  return ⟨← p.sheets ⟨texts.toArray, kinds.toArray⟩ entries looks names⟩

end Package

end SheetTemplate
