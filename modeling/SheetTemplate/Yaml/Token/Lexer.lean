import SheetTemplate.Yaml.Token.Name
import SheetTemplate.Yaml.Token.Scalar
/-!
The tokens of a YAML text. Two things are known only later than they begin: that a node is a key,
when its colon comes, and that a collection ends, when a line is indented less. So the lexer
keeps, for each open bracket, the place where a key may have begun, and the indentations of the
open blocks; a key's token is put in behind the tokens that came since.
-/
namespace SheetTemplate.Yaml

/-- A place where a key may have begun. A required one has to turn out a key, because nothing
else may stand at its indentation. -/
structure PossibleKey where
  required : Bool
  /-- Number of tokens in front of it. -/
  number : Nat
  line : Nat
  column : Nat
  index : Nat

/-- What is known in the middle of a text. -/
structure Lexer where
  cursor : Cursor
  /-- The tokens so far, the last one first. -/
  tokens : List Token := []
  count : Nat := 0
  /-- Number of open brackets. -/
  flow : Nat := 0
  /-- Indentation of the innermost block, -1 outside all blocks. -/
  indent : Int := -1
  outer : List Int := []
  keyAllowed : Bool := true
  /-- The possible key inside each open bracket, the innermost first, and outside them. -/
  keys : List (Option PossibleKey) := [none]

namespace Lexer

def push (t : Token) (l : Lexer) : Lexer :=
  { l with tokens := t :: l.tokens, count := l.count + 1 }

def insertAt (number : Nat) (t : Token) (l : Lexer) : Lexer :=
  let since := l.count - number
  { l with tokens := l.tokens.take since ++ t :: l.tokens.drop since, count := l.count + 1 }

/-- A key has to end on its line, and its colon has to come within 1024 characters. -/
def isStale (c : Cursor) (k : PossibleKey) : Bool :=
  k.line < c.line || k.index + 1024 < c.index

/-- The lexer without the possible keys that the cursor has left behind, none of which may be
required. -/
def dropStale? (l : Lexer) : Option Lexer :=
  if l.keys.any fun k => k.any fun k => isStale l.cursor k && k.required then none
  else some { l with keys := l.keys.map fun k => k.filter fun k => !isStale l.cursor k }

def removeKey? (l : Lexer) : Option Lexer :=
  match l.keys with
  | some k :: rest => if k.required then none else some { l with keys := none :: rest }
  | _ => some l

def saveKey? (l : Lexer) : Option Lexer :=
  if l.keyAllowed then
    l.removeKey?.map fun l =>
      let key : PossibleKey := {
        required := l.flow = 0 && l.indent = l.cursor.column
        number := l.count
        line := l.cursor.line
        column := l.cursor.column
        index := l.cursor.index }
      { l with keys := some key :: l.keys.drop 1 }
  else some l

/-- The lexer with a block opened at a column behind the first `number` tokens, if the column is
further right than the innermost block. -/
def openBlock (t : Token) (column number : Nat) (l : Lexer) : Lexer :=
  if l.flow = 0 && l.indent < column then
    insertAt number t { l with indent := column, outer := l.indent :: l.outer }
  else l

def closeBlocks (column : Int) (l : Lexer) : Lexer :=
  if l.flow = 0 then go l l.indent l.outer else l
where
  /-- The blocks with the given indentations. -/
  go (l : Lexer) (indent : Int) : List Int → Lexer
    | [] => { l with indent, outer := [] }
    | next :: outer =>
      if column < indent then go (l.push .blockEnd) next outer
      else { l with indent, outer := next :: outer }

def skip (n : Nat) (l : Lexer) : Lexer :=
  { l with cursor := l.cursor.skip n }

/-- The cursor at the next token, and whether a key may begin there. Tabs count as white space
only where no indentation is expected. -/
def toToken (flow keyAllowed comment : Bool) (c : Cursor) : Cursor × Bool :=
  match _h : c.rest with
  | [] => (c, keyAllowed)
  | x :: _ =>
    if isBreak x then toToken flow (keyAllowed || !flow) false c.step
    else if comment then toToken flow keyAllowed true c.step
    else if x = ' ' || (x = '\t' && (flow || !keyAllowed)) then
      toToken flow keyAllowed false c.step
    else if x = '#' then toToken flow keyAllowed true c.step
    else (c, keyAllowed)
termination_by c.rest.length
decreasing_by all_goals exact Cursor.step_lt ‹_›

/-- A directive, or a mark that begins or ends a document: all blocks end before it. -/
def outside? (l : Lexer) : Option Lexer :=
  (l.closeBlocks (-1)).removeKey?.map fun l => { l with keyAllowed := false }

def openBracket? (t : Token) (l : Lexer) : Option Lexer :=
  l.saveKey?.map fun l =>
    { l with keys := none :: l.keys, flow := l.flow + 1, keyAllowed := true }.skip 1 |>.push t

def closeBracket? (t : Token) (l : Lexer) : Option Lexer :=
  l.removeKey?.map fun l =>
    let l := if l.flow = 0 then l else { l with flow := l.flow - 1, keys := l.keys.drop 1 }
    { l with keyAllowed := false }.skip 1 |>.push t

def comma? (l : Lexer) : Option Lexer :=
  l.removeKey?.map fun l => { l with keyAllowed := true }.skip 1 |>.push .comma

/-- The hyphen before an entry of a block sequence, which it begins if it stands further right
than the block around. -/
def hyphen? (l : Lexer) : Option Lexer :=
  if l.flow = 0 && !l.keyAllowed then none
  else
    (l.openBlock .blockSequence l.cursor.column l.count).removeKey?.map fun l =>
      { l with keyAllowed := true }.skip 1 |>.push .entry

def explicitKey? (l : Lexer) : Option Lexer :=
  if l.flow = 0 && !l.keyAllowed then none
  else
    (l.openBlock .blockMapping l.cursor.column l.count).removeKey?.map fun l =>
      { l with keyAllowed := l.flow = 0 }.skip 1 |>.push .key

/-- The colon before a value. If a key may have begun, it did. -/
def colon? (l : Lexer) : Option Lexer :=
  match l.keys with
  | some k :: rest =>
    let l := (l.insertAt k.number .key).openBlock .blockMapping k.column k.number
    some ({ l with keys := none :: rest, keyAllowed := false }.skip 1 |>.push .value)
  | _ =>
    if l.flow = 0 && !l.keyAllowed then none
    else
      let l := l.openBlock .blockMapping l.cursor.column l.count
      some ({ l with keyAllowed := l.flow = 0 }.skip 1 |>.push .value)

def item? (read? : Cursor → Option (Token × Cursor)) (l : Lexer) : Option Lexer := do
  let l ← l.saveKey?
  let (t, cursor) ← read? l.cursor
  return { l with keyAllowed := false, cursor }.push t

def blockScalarToken? (literal : Bool) (l : Lexer) : Option Lexer := do
  let l ← l.removeKey?
  let (text, cursor) ← blockScalar? literal l.indent (l.cursor.skip 1)
  return { l with keyAllowed := true, cursor }.push (.scalar .marked text)

def bareToken? (l : Lexer) : Option Lexer := do
  let l ← l.saveKey?
  let b ← bare? (l.flow ≠ 0) (l.indent + 1) .none [] l.cursor
  return { l with keyAllowed := b.lineEnded, cursor := b.cursor }.push (.scalar .plain b.text)

def beginsBare (flow : Bool) (x : Char) (next : Option Char) : Bool :=
  if x = '-' then !next.any isBlank
  else if x = '?' || x = ':' then !flow && !endsWord next
  else !(isBlank x || isBreak x || ",[]\x7b\x7d#&*!|>'\"%@\x60".toList.contains x)

def token? (x : Char) (l : Lexer) : Option Lexer :=
  let c := l.cursor
  let next := c.peek 1
  let flow := l.flow ≠ 0
  if c.column = 0 && x = '%' then do
    let l ← l.outside?
    let (t, cursor) ← directive? (l.cursor.skip 1)
    return { l with cursor }.push t
  else if c.atMark '-' then l.outside?.map fun l => (l.skip 3).push .documentStart
  else if c.atMark '.' then l.outside?.map fun l => (l.skip 3).push .documentEnd
  else if x = '[' then l.openBracket? .sequenceOpen
  else if x = '{' then l.openBracket? .mappingOpen
  else if x = ']' then l.closeBracket? .sequenceClose
  else if x = '}' then l.closeBracket? .mappingClose
  else if x = ',' then l.comma?
  else if x = '-' && endsWord next then l.hyphen?
  else if x = '?' && (flow || endsWord next) then l.explicitKey?
  else if x = ':' && (flow || endsWord next) then l.colon?
  else if x = '*' then
    l.item? fun c => (anchorName? (c.skip 1)).map fun (name, c) => (.alias name, c)
  else if x = '&' then
    l.item? fun c => (anchorName? (c.skip 1)).map fun (name, c) => (.anchor name, c)
  else if x = '!' then l.item? fun c => (tag? flow c).map fun (tag, c) => (.tag tag, c)
  else if x = '|' && !flow then l.blockScalarToken? true
  else if x = '>' && !flow then l.blockScalarToken? false
  else if x = '\'' || x = '"' then
    l.item? fun c =>
      (quoted? (x = '"') .none [] (c.skip 1)).map fun (text, c) => (.scalar .marked text, c)
  else if beginsBare flow x next then l.bareToken?
  else none

def run? : Nat → Lexer → Option (List Token)
  | 0, _ => none
  | fuel + 1, l =>
    let (cursor, keyAllowed) := toToken (l.flow ≠ 0) l.keyAllowed false l.cursor
    match { l with cursor, keyAllowed }.dropStale? with
    | none => none
    | some l =>
      let l := l.closeBlocks cursor.column
      match l.cursor.rest with
      | [] => (l.closeBlocks (-1)).removeKey?.map fun l => l.tokens.reverse
      | x :: _ => (l.token? x).bind (run? fuel)

end Lexer

/-- The tokens of a text. Every step but the last takes a character. -/
def tokens? (s : String) : Option (List Token) :=
  let cs := match s.toList with
    | '\ufeff' :: cs => cs
    | cs => cs
  if cs.all isPermitted then Lexer.run? (cs.length + 1) { cursor := { rest := cs } } else none

end SheetTemplate.Yaml
