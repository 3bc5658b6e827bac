import SheetTemplate.Package.Basic
/-!
The sheets of a package: names in their order, and the parts that hold them. A sheet points to its
part through a relationship. The folder of the part tells worksheets from other sheets.
-/
namespace SheetTemplate

/-- A sheet by name, with the name of its part. -/
structure SheetEntry where
  name : String
  part : String
  isWorksheet : Bool
deriving DecidableEq

namespace SheetEntry

/-- The relationships of a package while they are read: targets by identifier, the latest first,
and whether the end has come. -/
structure Relationships where
  targets : List (List Char × List Char) := []
  done : Bool := false

def attribute? (name : String) : List Xml.Attribute → Option (List Char)
  | [] => some []
  | .malformed :: _ => none
  | .pair n raw :: rest =>
    (attribute? name rest).map fun value => if n = name then raw else value

def readRelationship? (r : Relationships) (e : Xml.Event) : Option Relationships :=
  if r.done then some r
  else
    match e with
    | .broken => none
    | .opening name raw =>
      if Xml.localName name = "Relationship" then
        let attributes := Xml.attributes raw
        match attribute? "Id" attributes, attribute? "Target" attributes with
        | some id, some target => some { r with targets := (id, target) :: r.targets }
        | _, _ => none
      else some r
    | .closing name => some { r with done := Xml.localName name = "Relationships" }
    | _ => some r

def relationships? (p : Package) : Option (List (List Char × List Char)) :=
  match p.tolerantEvents? "xl/_rels/workbook.xml.rels" with
  | none => none
  | some events =>
    match events.foldlM readRelationship? {} with
    | some r => if r.done then some r.targets else none
    | none => none

def partName (target : String) : String :=
  let cs := target.toList
  if "/xl/".toList.isPrefixOf cs then String.ofList (cs.drop 1)
  else if "xl/".toList.isPrefixOf cs then target
  else "xl/" ++ target

/-- The sheet of a part, unless its folder is not one for sheets. -/
def ofPart? (name part : String) : Option SheetEntry :=
  match (Text.split '/' part)[1]? with
  | some "worksheets" => some ⟨name, part, true⟩
  | some "chartsheets" => some ⟨name, part, false⟩
  | some "dialogsheets" => some ⟨name, part, false⟩
  | _ => none

/-- Name and part of a sheet, by its attributes. Its state has to be one of three. -/
def ofAttributes? (targets : List (List Char × List Char)) (name part : String) :
    List Xml.Attribute → Option SheetEntry
  | [] => ofPart? name part
  | .malformed :: _ => none
  | .pair n raw :: rest =>
    if n = "name" then
      match Xml.unescape? raw with
      | some name => ofAttributes? targets name part rest
      | none => none
    else if n = "state" then
      match Xml.unescape? raw with
      | some state =>
        if ["visible", "hidden", "veryHidden"].contains state then
          ofAttributes? targets name part rest
        else none
      | none => none
    else if n = "r:id" || n = "relationships:id" then
      match targets.find? fun e => e.1 = raw with
      | some (_, target) => ofAttributes? targets name (partName (String.ofList target)) rest
      | none => none
    else ofAttributes? targets name part rest

/-- The sheets of a package while they are read. -/
structure Reading where
  /-- The sheets so far, the latest first. -/
  sheets : List SheetEntry := []
  /-- The tag of the defined name that the reader is in. -/
  definedName : Option String := none
  done : Bool := false

/-- Whether the epoch that a workbook names is readable; dates do not depend on it. -/
def epochReadable (raw : List Char) : Bool :=
  match Package.rawAttribute? "date1904" (Xml.attributes raw) with
  | some (some value) => (Xml.unescape? value).isSome
  | some none => true
  | none => false

def readEvent? (targets : List (List Char × List Char)) (r : Reading) (e : Xml.Event) :
    Option Reading :=
  if r.done then some r
  else
    match r.definedName, e with
    | _, .broken => none
    | some _, .text raw => (Xml.unescape? raw).map fun _ => r
    | some tag, .closing name => some (if name = tag then { r with definedName := none } else r)
    | some _, _ => some r
    | none, .opening name raw =>
      if Xml.localName name = "sheet" then
        (ofAttributes? targets "" "" (Xml.attributes raw)).map fun s =>
          { r with sheets := s :: r.sheets }
      else if name = "workbookPr" then if epochReadable raw then some r else none
      else if Xml.localName name = "definedName" then
        let value? := (Xml.attributes raw).findSome? fun
          | .pair n value => if n = "name" then some value else none
          | .malformed => none
        match value? with
        | none => some r
        | some value =>
          (Xml.unescape? value).map fun _ => { r with definedName := some name }
      else some r
    | none, .closing name => some { r with done := Xml.localName name = "workbook" }
    | none, _ => some r

/-- The sheets of a package, none if it does not list any. The list has to reach its end. -/
def ofPackage? (p : Package) : Option (List SheetEntry) :=
  match relationships? p with
  | none => none
  | some targets =>
    match p.tolerantEvents? "xl/workbook.xml" with
    | none => some []
    | some events =>
      match events.foldlM (readEvent? targets) {} with
      | some r => if r.done then some r.sheets.reverse else none
      | none => none

end SheetEntry

end SheetTemplate
