import SheetTemplate.Failure
import SheetTemplate.Grid.CellRef
import SheetTemplate.Sheet.Presentation
import SheetTemplate.Xml.Node
/-!
Validations as a worksheet part stores them: an element with attributes and up to two formulas.
`validation?` reads such an element and `store` makes one.
-/
namespace SheetTemplate

/-- An element that describes a validation. -/
structure StoredValidation where
  fields : Xml.Fields
  first : Option String := none
  second : Option String := none

namespace StoredValidation

/-- A formula without the white space around it and without an equals sign at its front. -/
def bare (formula : List Char) : List Char :=
  match Text.trimChars formula with
  | '=' :: cs => cs
  | cs => cs

def undoubled : List Char → List Char
  | '"' :: '"' :: cs => '"' :: undoubled cs
  | c :: cs => c :: undoubled cs
  | [] => []

def quoted? : List Char → Option (List Char)
  | '"' :: cs => if cs.getLast? = some '"' then some cs.dropLast else none
  | _ => none

/-- A rule for choices: in quotes they are spelled out, with commas between them. -/
def choices (formula : List Char) : Rule :=
  match quoted? formula with
  | some cs => .list ((Text.parts ',' (undoubled cs)).map String.ofList)
  | none => .source (String.ofList formula)

def comparison? {α : Type} (read? : List Char → Option α) (operator : Option String)
    (first : List Char) (second : Option (List Char)) : Option (Comparison α) :=
  match read? first with
  | none => none
  | some a =>
    match operator.getD "between" with
    | "between" => (second.bind read?).map (.between a ·)
    | "notBetween" => (second.bind read?).map (.notBetween a ·)
    | "equal" => some (.equal a)
    | "notEqual" => some (.notEqual a)
    | "greaterThan" => some (.greaterThan a)
    | "greaterThanOrEqual" => some (.greaterThanOrEqual a)
    | "lessThan" => some (.lessThan a)
    | "lessThanOrEqual" => some (.lessThanOrEqual a)
    | _ => none

def int32? (cs : List Char) : Option Int32 :=
  (Text.signed? 10 (twoTo 31) cs).map Int32.ofInt

/-- The rule that the element describes, if its type is one of four. -/
def rule? (v : StoredValidation) : Option Rule :=
  match v.fields.get? "type", v.first.map fun f => bare f.toList with
  | some type, some first =>
    let operator := v.fields.get? "operator"
    let second := v.second.map fun f => bare f.toList
    match type with
    | "list" => some (choices first)
    | "whole" => (comparison? int32? operator first second).map .whole
    | "decimal" => (comparison? Binary64.ofChars? operator first second).map .decimal
    | "custom" => some (.custom (String.ofList first))
    | _ => none
  | _, _ => none

def validation? (v : StoredValidation) : Option Validation :=
  v.rule?.map fun rule =>
    { rule, ignoreBlank := v.fields.flag "allowBlank" false, message := v.fields.get? "error" }

/-- The most characters that choices, with the commas between them, and messages may have. -/
def longestText : Nat := 255

/-- A formula without a closing brace at its end, which would mark a formula of an array. -/
def dropBrace (s : String) : String :=
  if s.toList.getLast? = some '\x7d' then String.ofList s.toList.dropLast else s

def doubled (cs : List Char) : List Char :=
  cs.flatMap fun c => if c = '"' then ['"', '"'] else [c]

def joined (choices : List String) : List Char :=
  [','].intercalate (choices.map fun s => doubled s.toList)

/-- The name of a comparison, if it needs one, and its operands. -/
def operands {α : Type} (text : α → String) : Comparison α → Xml.Fields × String × Option String
  | .between a b => ([], text a, some (text b))
  | .notBetween a b => ([("operator", "notBetween")], text a, some (text b))
  | .equal a => ([("operator", "equal")], text a, none)
  | .notEqual a => ([("operator", "notEqual")], text a, none)
  | .greaterThan a => ([("operator", "greaterThan")], text a, none)
  | .greaterThanOrEqual a => ([("operator", "greaterThanOrEqual")], text a, none)
  | .lessThan a => ([("operator", "lessThan")], text a, none)
  | .lessThanOrEqual a => ([("operator", "lessThanOrEqual")], text a, none)

def storeRule : Rule → Except WriteFailure (Xml.Fields × String × Option String)
  | .list choices =>
    let text := joined choices
    if longestText < text.length then .error .choices
    else .ok ([("type", "list")], String.ofList ('"' :: text ++ ['"']), none)
  | .source formula => .ok ([("type", "list")], dropBrace formula, none)
  | .whole c =>
    let (operator, first, second) := operands (fun i => Text.decimalInt i.toInt) c
    .ok (("type", "whole") :: operator, first, second)
  | .decimal c =>
    let (operator, first, second) := operands Binary64.text c
    .ok (("type", "decimal") :: operator, first, second)
  | .custom formula => .ok ([("type", "custom")], dropBrace formula, none)

/-- The attribute for a message. An empty message is none. -/
def storeMessage : Option String → Except WriteFailure Xml.Fields
  | none => .ok []
  | some message =>
    if longestText < message.length then .error .entryMessage
    else .ok (if message.isEmpty then [] else [("error", message)])

def store (v : Validation) (place : CellRef) : Except WriteFailure StoredValidation := do
  let (kind, first, second) ← storeRule v.rule
  let message ← storeMessage v.message
  let blank := if v.ignoreBlank then [("allowBlank", "1")] else []
  return {
    fields := kind ++ blank ++ [("showInputMessage", "1"), ("showErrorMessage", "1")] ++ message
      ++ [("sqref", place.text)]
    first := some first
    second }

def node (v : StoredValidation) : Xml.Node :=
  .element "dataValidation" v.fields <|
    v.first.toList.map (.holding "formula1" []) ++ v.second.toList.map (.holding "formula2" [])

end StoredValidation

end SheetTemplate
