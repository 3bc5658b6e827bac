import SheetTemplate.Yaml.Cursor
import SheetTemplate.Text.Numeral
/-!
Scalars of a YAML text: bare, quoted, and as blocks. Line breaks inside them are folded: a single
one becomes a space, and of several the first is dropped. Each reader goes over the text once and
keeps the white space since the last other character aside, until it is known what it folds to.
-/
namespace SheetTemplate.Yaml

/-- White space inside a scalar on its way to being folded. Collected texts are reversed. -/
inductive Gap where
  | none
  | blanks (seen : List Char)
  /-- A line break, and the breaks after it. Blanks next to them do not count. An escaped break
  counts as an empty first one. -/
  | lines (first more : List Char)
deriving DecidableEq

namespace Gap

def blank (x : Char) : Gap → Gap
  | none => blanks [x]
  | blanks seen => blanks (x :: seen)
  | lines first more => lines first more

def line (x : Char) : Gap → Gap
  | lines first more => lines first (breakText x ++ more)
  | _ => lines (breakText x) []

def hasLines : Gap → Bool
  | lines _ _ => true
  | _ => false

def folded : Gap → List Char
  | none => []
  | blanks seen => seen
  | lines first more =>
    if first = ['\n'] then if more.isEmpty then [' '] else more
    else more ++ first

end Gap

def escapedChar? (c : Char) : Option Char :=
  ([('0', '\x00'), ('a', '\x07'), ('b', '\x08'), ('t', '\t'), ('\t', '\t'), ('n', '\n'),
    ('v', '\x0b'), ('f', '\x0c'), ('r', '\r'), ('e', '\x1b'), (' ', ' '), ('"', '"'), ('/', '/'),
    ('\\', '\\'), ('N', '\u0085'), ('_', '\u00a0'), ('L', '\u2028'), ('P', '\u2029')].find?
      fun e => e.1 = c).map (·.2)

def escapeWidth? (c : Char) : Option Nat :=
  if c = 'x' then some 2 else if c = 'u' then some 4 else if c = 'U' then some 8 else none

/-- The character that an escape stands for, from what follows the backslash, and the number of
characters of the escape after the backslash. -/
def escape? : List Char → Option (Char × Nat)
  | [] => none
  | c :: cs =>
    match escapeWidth? c with
    | none => (escapedChar? c).map fun x => (x, 1)
    | some width =>
      let ds := cs.take width
      match Text.natural? 16 ds with
      | none => none
      | some n =>
        if ds.length = width ∧ n.isValidChar then some (Char.ofNat n, width + 1) else none

def quoted? (double : Bool) (gap : Gap) (text : List Char) (c : Cursor) :
    Option (List Char × Cursor) :=
  match _h : c.rest with
  | [] => none
  | x :: rest =>
    if isBlank x then quoted? double (gap.blank x) text c.step
    else if isBreak x then quoted? double (gap.line x) text c.step
    else if c.atDocumentMark then none
    else
      let text := gap.folded ++ text
      if x = '\'' && !double then
        if rest.head? = some '\'' then quoted? double .none ('\'' :: text) (c.skip 2)
        else some (text.reverse, c.step)
      else if x = '"' && double then some (text.reverse, c.step)
      else if x = '\\' && double then
        if rest.head?.any isBreak then quoted? double (.lines [] []) text c.step.step
        else
          match escape? rest with
          | none => none
          | some (e, n) => quoted? double .none (e :: text) (c.skip (n + 1))
      else quoted? double .none (x :: text) c.step
termination_by c.rest.length
decreasing_by
  all_goals first
    | exact Nat.lt_of_le_of_lt (Cursor.step_le _) (Cursor.step_lt ‹_›)
    | exact Cursor.step_lt ‹_›
    | exact Cursor.skip_lt ‹_›

def isFlowIndicator (c : Char) : Bool :=
  c = ',' || c = '[' || c = ']' || c = '{' || c = '}'

/-- A bare scalar as read: its text, whether a line break follows it, and the cursor after the
white space behind it. -/
structure Bare where
  text : List Char
  lineEnded : Bool
  cursor : Cursor

/-- The rest of a bare scalar, of which lines have to be indented by `indent`. Inside brackets a
colon must not stand right before an indicator. -/
def bare? (flow : Bool) (indent : Int) (gap : Gap) (text : List Char) (c : Cursor) :
    Option Bare :=
  let stop : Bare := ⟨text.reverse, gap.hasLines, c⟩
  match _h : c.rest with
  | [] => some stop
  | x :: rest =>
    if isBlank x then
      if gap.hasLines && x = '\t' && c.column < indent then none
      else bare? flow indent (gap.blank x) text c.step
    else if isBreak x then bare? flow indent (gap.line x) text c.step
    else if gap ≠ .none
        && ((!flow && c.column < indent) || c.atDocumentMark || x = '#') then some stop
    else if flow && x = ':' && rest.head?.any (fun y => isFlowIndicator y || y = '?') then none
    else if (x = ':' && endsWord rest.head?) || (flow && isFlowIndicator x) then some stop
    else bare? flow indent .none (x :: (gap.folded ++ text)) c.step
termination_by c.rest.length
decreasing_by all_goals exact Cursor.step_lt ‹_›

/-- What happens to the line breaks at the end of a block scalar. -/
inductive Chomp where
  | strip
  | clip
  | keep
deriving DecidableEq

/-- A block scalar while it is read. Collected texts are reversed. -/
structure Block where
  /-- Indentation of the lines, zero as long as it is not known. -/
  indent : Nat
  /-- The widest indentation seen before the first line with text. -/
  widest : Nat := 0
  text : List Char := []
  /-- The line break after the last line with text. -/
  lead : List Char := []
  /-- The breaks of the empty lines since. -/
  trail : List Char := []
  /-- The last line with text begins with a blank, and so is not folded. -/
  blankLine : Bool := false
  inLine : Bool := false

namespace Block

/-- The block with a new line that begins with a character. Two folded lines are joined by a
space or by the empty lines between them. -/
def beginLine (literal : Bool) (x : Char) (b : Block) : Block :=
  let folds := !literal && b.lead.head? = some '\n' && !b.blankLine && !isBlank x
  let joint := if folds then if b.trail.isEmpty then [' '] else [] else b.lead
  { b with
    text := x :: (b.trail ++ (joint ++ b.text))
    lead := []
    trail := []
    blankLine := isBlank x
    inLine := true }

def chomped (chomp : Chomp) (b : Block) : List Char :=
  match chomp with
  | .strip => b.text.reverse
  | .clip => (b.lead ++ b.text).reverse
  | .keep => (b.trail ++ (b.lead ++ b.text)).reverse

end Block

/-- The lines of a block scalar. Its indentation, unless given, is that of its first line with
text, but at least one more than that of the collection around it. -/
def block? (literal : Bool) (around : Int) (b : Block) (c : Cursor) : Option (Block × Cursor) :=
  match _h : c.rest with
  | [] => some (b, c)
  | x :: _ =>
    if b.inLine then
      if isBreak x then
        block? literal around { b with inLine := false, lead := breakText x } c.step
      else block? literal around { b with text := x :: b.text } c.step
    else if b.indent = 0 || c.column < b.indent then
      if x = ' ' then
        block? literal around { b with widest := max b.widest (c.column + 1) } c.step
      else if x = '\t' then none
      else if isBreak x then
        block? literal around { b with trail := breakText x ++ b.trail } c.step
      else
        let indent := if b.indent = 0 then max b.widest (max (around + 1).toNat 1) else b.indent
        if c.column = indent then
          block? literal around ({ b with indent }.beginLine literal x) c.step
        else some (b, c)
    else if isBreak x then
      block? literal around { b with trail := breakText x ++ b.trail } c.step
    else if c.column = b.indent then
      block? literal around (b.beginLine literal x) c.step
    else some (b, c)
termination_by c.rest.length
decreasing_by all_goals exact Cursor.step_lt ‹_›

/-- The signs after the mark of a block scalar, in either order: how it ends, and its extra
indentation, zero if it is not given. -/
def blockHeader? : List Char → Option (Chomp × Nat × Nat)
  | [] => some (.clip, 0, 0)
  | c :: cs =>
    match chompOf? c with
    | some chomp =>
      match cs.head?.filter Text.isDigit with
      | some d => if d = '0' then none else some (chomp, d.toNat - 48, 2)
      | none => some (chomp, 0, 1)
    | none =>
      if !Text.isDigit c then some (.clip, 0, 0)
      else if c = '0' then none
      else
        match cs.head?.bind chompOf? with
        | some chomp => some (chomp, c.toNat - 48, 2)
        | none => some (.clip, c.toNat - 48, 1)
where
  /-- The sign for the end of a block scalar. -/
  chompOf? (c : Char) : Option Chomp :=
    if c = '+' then some .keep else if c = '-' then some .strip else none

def blockScalar? (literal : Bool) (around : Int) (c : Cursor) :
    Option (List Char × Cursor) := do
  let (chomp, extra, n) ← blockHeader? c.rest
  let c ← (c.skip n).endLine?
  let indent := if extra = 0 then 0 else (max around 0).toNat + extra
  let (b, c) ← block? literal around { indent } c
  return (b.chomped chomp, c)

end SheetTemplate.Yaml
