import SheetTemplate.Package.Basic
/-!
What numbers mean: a number format may make them dates or durations. Formats with a code of their
own are classed by the code, the others by their number.
-/
namespace SheetTemplate

/-- What a number in a cell stands for. -/
inductive NumberKind where
  | number
  | date
  | duration
deriving DecidableEq

namespace NumberKind

def builtIn (id : String) : NumberKind :=
  if ["14", "15", "16", "17", "18", "19", "20", "21", "22", "45", "47"].contains id then date
  else if id = "46" then duration
  else number

/-- What is known in the middle of a format's code. -/
structure Scan where
  escaped : Bool := false
  quoted : Bool := false
  brackets : Nat := 0
  /-- An `a` came, as in `am/pm`. -/
  afterA : Bool := false
  /-- The open bracket holds only one letter of hours, minutes or seconds, perhaps repeated. -/
  unit : Bool := false
  before : Char := ' '

/-- What a code's next character says: a kind, or how to go on. -/
def scanChar (s : Scan) (c : Char) : NumberKind ⊕ Scan :=
  let l := Text.lowerChar c
  let go (s : Scan) : NumberKind ⊕ Scan := .inr { s with before := c }
  if s.escaped then go { s with escaped := false }
  else if c = '_' || c = '\\' then go { s with escaped := true }
  else if s.quoted then go { s with quoted := c ≠ '"' }
  else if c = '"' then go { s with quoted := true }
  else if c = ';' then .inl number
  else if c = '[' then go { s with brackets := s.brackets + 1 }
  else if c = ']' then
    if s.brackets = 1 && s.unit then .inl duration
    else go { s with brackets := s.brackets - 1 }
  else if s.brackets = 0 && !s.afterA && l = 'a' then go { s with afterA := true }
  else if s.brackets = 0 && s.afterA && (l = 'p' || l = 'm' || l = '/') then .inl date
  else if s.brackets = 0 && !s.afterA
      && (l = 'd' || l = 'm' || l = 'h' || l = 'y' || l = 's') then .inl date
  else if s.unit && l = Text.lowerChar s.before then go s
  else go { s with unit := s.before = '[' && (l = 'h' || l = 'm' || l = 's') }

/-- The kind of a code from some point on. Only its first section counts. -/
def scan (s : Scan) : List Char → NumberKind
  | [] => number
  | c :: cs =>
    match scanChar s c with
    | .inl kind => kind
    | .inr s => scan s cs

def ofCode (code : List Char) : NumberKind :=
  scan {} code

/-- Where in the styles of a package a reader is. -/
inductive Place where
  | outside
  | codes
  | cellFormats
  | done
deriving DecidableEq

/-- The styles of a package while the kinds of its cell formats are read. -/
structure Reading where
  place : Place := .outside
  /-- Codes by the number of the format, the latest first; both as written. -/
  codes : List (List Char × List Char) := []
  /-- Kinds of the cell formats, the latest first. -/
  kinds : List NumberKind := []

/-- The value of an attribute, empty if it is missing, among attributes that are all well
formed. -/
def wellFormed? (name : String) : List Xml.Attribute → Option (List Char)
  | [] => some []
  | .malformed :: _ => none
  | .pair n raw :: rest =>
    (wellFormed? name rest).map fun value => if n = name then raw else value

def ofFormat (codes : List (List Char × List Char)) (attributes : List Xml.Attribute) :
    NumberKind :=
  let id? := attributes.findSome? fun
    | .pair n raw => if n = "numFmtId" then some raw else none
    | .malformed => none
  match id? with
  | none => number
  | some id =>
    match codes.find? fun e => e.1 = id with
    | some (_, code) => ofCode code
    | none => builtIn (String.ofList id)

def readEvent? (r : Reading) (e : Xml.Event) : Option Reading :=
  match r.place, e with
  | .done, _ => some r
  | _, .broken => none
  | .outside, .opening name _ =>
    match Xml.localName name with
    | "numFmts" => some { r with place := .codes }
    | "cellXfs" => some { r with place := .cellFormats }
    | _ => some r
  | .outside, .closing name =>
    some (if Xml.localName name = "styleSheet" then { r with place := .done } else r)
  | .codes, .opening name raw =>
    if Xml.localName name = "numFmt" then
      let attributes := Xml.attributes raw
      match wellFormed? "numFmtId" attributes, wellFormed? "formatCode" attributes with
      | some id, some code =>
        some (if code.isEmpty then r else { r with codes := (id, code) :: r.codes })
      | _, _ => none
    else some r
  | .codes, .closing name =>
    some (if Xml.localName name = "numFmts" then { r with place := .outside } else r)
  | .cellFormats, .opening name raw =>
    some (if Xml.localName name = "xf" then
      { r with kinds := ofFormat r.codes (Xml.attributes raw) :: r.kinds }
    else r)
  | .cellFormats, .closing name =>
    some (if Xml.localName name = "cellXfs" then { r with place := .outside } else r)
  | _, _ => some r

/-- The kinds of the cell formats of a package, none if it has no styles. The styles have to reach
their end. -/
def ofPackage? (p : Package) : Option (List NumberKind) :=
  match p.tolerantEvents? "xl/styles.xml" with
  | none => some []
  | some events =>
    match events.foldlM readEvent? {} with
    | some r => if r.place = .done then some r.kinds.reverse else none
    | none => none

end NumberKind

end SheetTemplate
