/-!
Tokens of a YAML text. Indentation has become tokens of its own: blocks begin and end like the
bracketed collections do.
-/
namespace SheetTemplate.Yaml

/-- How a scalar is written: bare, or with quotes or as a block. -/
inductive ScalarForm where
  | plain
  | marked
deriving DecidableEq

/-- A tag as written: the handle that a directive explains, and the rest. -/
structure TagName where
  handle : List Char
  suffix : List Char
deriving DecidableEq

inductive Token where
  | version (major minor : Nat)
  | tagDirective (handle expansion : List Char)
  | documentStart
  | documentEnd
  | blockSequence
  | blockMapping
  | blockEnd
  | sequenceOpen
  | sequenceClose
  | mappingOpen
  | mappingClose
  | entry
  | comma
  | key
  | value
  | alias (name : List Char)
  | anchor (name : List Char)
  | tag (name : TagName)
  | scalar (form : ScalarForm) (text : List Char)
deriving DecidableEq

end SheetTemplate.Yaml
