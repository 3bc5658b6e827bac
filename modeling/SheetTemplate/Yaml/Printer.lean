import SheetTemplate.Yaml.Value
import SheetTemplate.Json.Basic
/-!
YAML values as block text. A scalar is written bare where it reads back as itself, and otherwise
in single quotes, as a literal block if it has line feeds, or in double quotes if nothing else can
hold it.
-/
namespace SheetTemplate.Yaml.Printer

/-- The form of numbers: that of JSON, but without a plus sign in the exponent. -/
def layout : Binary64.Layout := { Json.layout with exponentPlus := false }

def floatText (x : Binary64) : String :=
  if x.isNaN then ".nan"
  else if x.isInfinite then if x.isNegative then "-.inf" else ".inf"
  else Binary64.finiteText layout x

def isPrintable (c : Char) : Bool :=
  let n := c.toNat
  n = 10 || (0x20 ≤ n && n ≤ 0x7E) || (0xA0 ≤ n && n ≠ 0xFEFF && n ≠ 0xFFFE && n ≠ 0xFFFF)

def hasPair (p q : Char → Bool) : List Char → Bool
  | a :: b :: cs => (p a && q b) || hasPair p q (b :: cs)
  | _ => false

def isGap (c : Char) : Bool :=
  c = ' ' || isBreak c

/-- After the first character, a colon before white space, or a number sign behind it, would end a
bare scalar. -/
def hasInnerIndicator : List Char → Bool
  | a :: b :: cs =>
    (b = ':' && endsWord cs.head?) || (b = '#' && endsWord (some a)) || hasInnerIndicator (b :: cs)
  | _ => false

def hasIndicator : List Char → Bool
  | [] => false
  | c :: cs =>
    (c :: cs).take 3 = "---".toList || (c :: cs).take 3 = "...".toList
      || "#,[]\x7b\x7d&*!|>'\"%@\x60".toList.contains c
      || ((c = '?' || c = ':' || c = '-') && endsWord cs.head?) || hasInnerIndicator (c :: cs)

/-- Some character has to be escaped, or a space would be lost before a line break. -/
def needsEscapes (cs : List Char) : Bool :=
  !cs.all isPrintable || hasPair (· = ' ') isBreak cs

def allowsBare (cs : List Char) : Bool :=
  !(cs.head?.any isGap || cs.getLast?.any isGap || cs.any isBreak || needsEscapes cs
    || hasIndicator cs)

def allowsSingle (cs : List Char) : Bool :=
  !needsEscapes cs && !hasPair isBreak (· = ' ') cs

def allowsBlock (cs : List Char) : Bool :=
  !cs.isEmpty && cs.getLast? ≠ some ' ' && !needsEscapes cs

inductive Style where
  | bare
  | single
  | double
  | block
deriving DecidableEq

def readsAsText (cs : List Char) : Bool :=
  match Scalar.bare? cs with
  | some (.text _) => !Scalar.isZeroPadded cs
  | _ => false

/-- The style of a text, given whether it is a key that shares its line with the value. -/
def styleOf (isKey : Bool) (cs : List Char) : Style :=
  if cs.contains '\n' then if allowsBlock cs && !isKey then .block else .double
  else if isKey && cs.any isBreak then .double
  else if readsAsText cs && allowsBare cs then .bare
  else if allowsSingle cs then .single
  else .double

def newLine (indent : Nat) : List Char :=
  '\n' :: List.replicate indent ' '

def singleChars (indent : Nat) (broken : Bool) : List Char → List Char
  | [] => if broken then List.replicate indent ' ' else []
  | c :: cs =>
    if isBreak c then c :: singleChars indent true cs
    else
      (if broken then List.replicate indent ' ' else [])
        ++ (if c = '\'' then ['\'', '\''] else [c]) ++ singleChars indent false cs

def hexDigits : Nat → Nat → List Char
  | 0, _ => []
  | width + 1, n =>
    let d := n / power 16 width % 16
    Char.ofNat (if d < 10 then 48 + d else 55 + d) :: hexDigits width n

def doubleChar (c : Char) : List Char :=
  let short := [('\x00', '0'), ('\x07', 'a'), ('\x08', 'b'), ('\t', 't'), ('\n', 'n'),
    ('\x0b', 'v'), ('\x0c', 'f'), ('\r', 'r'), ('\x1b', 'e'), ('"', '"'), ('\\', '\\'),
    ('\u0085', 'N'), ('\u2028', 'L'), ('\u2029', 'P')]
  match short.find? fun e => e.1 = c with
  | some (_, letter) => ['\\', letter]
  | none =>
    if isPrintable c then [c]
    else
      let n := c.toNat
      if n < 0x100 then '\\' :: 'x' :: hexDigits 2 n
      else if n < 0x10000 then '\\' :: 'u' :: hexDigits 4 n
      else '\\' :: 'U' :: hexDigits 8 n

def blockChars (indent : Nat) (fresh : Bool) : List Char → List Char
  | [] => []
  | c :: cs =>
    if isBreak c then c :: blockChars indent true cs
    else (if fresh then List.replicate indent ' ' else []) ++ c :: blockChars indent false cs

/-- The signs after the mark of a block: its extra indentation if its first line does not show
it, and how it ends. -/
def blockHints (cs : List Char) : List Char :=
  (if cs.head?.any isGap then ['2'] else [])
    ++ match cs.reverse with
      | [] => ['-']
      | last :: before =>
        if !isBreak last then ['-']
        else if before.head?.all isBreak then ['+'] else []

/-- A text in its style, where lines of it are indented by `indent`. -/
def textChars (isKey : Bool) (indent : Nat) (cs : List Char) : List Char :=
  match styleOf isKey cs with
  | .bare => cs
  | .single => '\'' :: (singleChars indent false cs ++ ['\''])
  | .double => '"' :: (cs.flatMap doubleChar ++ ['"'])
  | .block => '|' :: (blockHints cs ++ '\n' :: blockChars indent true cs)

def scalarChars (isKey : Bool) (indent : Nat) : Value → List Char
  | .null => "null".toList
  | .bool b => (if b then "true" else "false").toList
  | .int i => (Text.decimalInt i).toList
  | .float x => (floatText x).toList
  | .text cs => textChars isKey indent cs
  | _ => []

/-- A character of a tag; others are written as the bytes of UTF-8. -/
def tagChar (c : Char) : List Char :=
  if isNameChar c || ";/?:@&=+$,.~*'()[]".toList.contains c then [c]
  else (String.singleton c).toUTF8.toList.flatMap fun b => '%' :: hexDigits 2 b.toNat

def tagChars (name : List Char) : List Char :=
  '!' :: name.flatMap tagChar

/-- Number of bytes that decide whether a value can be a key on one line with its value. -/
def keyLength? : Value → Option Nat
  | .text cs => if cs.any isBreak then none else some (String.ofList cs).utf8ByteSize
  | .list [] => some 0
  | .record [] => some 0
  | .list _ => none
  | .record _ => none
  | .tagged name v => (keyLength? v).map fun n => n + (String.ofList name).utf8ByteSize + 1
  | v => some (scalarChars true 0 v).length

def isSimpleKey (v : Value) : Bool :=
  (keyLength? v).any (· ≤ 128)

def simpleKey (indent : Nat) : Value → List Char
  | .list _ => ['[', ']']
  | .record _ => ['{', '}']
  | .tagged name v => tagChars name ++ ' ' :: simpleKey indent v
  | v => scalarChars true indent v

structure Place where
  /-- Indentation of the collection around. -/
  around : Option Nat
  /-- A collection may begin on the same line. -/
  inline : Bool
  /-- The value belongs to an entry of a mapping. -/
  inMapping : Bool

def separator (p : Place) : List Char :=
  if p.around.isNone && p.inline then [] else [' ']

def opening (p : Place) (indent : Nat) : List Char :=
  if p.inline then separator p else newLine indent

mutual

def block (p : Place) : Value → List Char
  | .list [] => separator p ++ ['[', ']']
  | .list (v :: rest) =>
    let indent := match p.around with
      | none => 0
      | some n => if p.inMapping && !p.inline then n else n + 2
    opening p indent ++ ('-' :: block ⟨some indent, true, false⟩ v) ++ blockItems indent rest
  | .record [] => separator p ++ ['{', '}']
  | .record ((k, v) :: rest) =>
    let indent := match p.around with
      | none => 0
      | some n => n + 2
    let first := if isSimpleKey k then
        simpleKey (indent + 2) k ++ ':' :: block ⟨some indent, false, true⟩ v
      else
        '?' :: block ⟨some indent, true, true⟩ k
          ++ newLine indent ++ ':' :: block ⟨some indent, true, true⟩ v
    opening p indent ++ first ++ blockEntries indent rest
  | .tagged name v => separator p ++ tagChars name ++ block { p with inline := false } v
  | v =>
    let indent := match p.around with
      | none => 2
      | some n => n + 2
    separator p ++ scalarChars false indent v

def blockItems (indent : Nat) : List Value → List Char
  | [] => []
  | v :: rest =>
    newLine indent ++ ('-' :: block ⟨some indent, true, false⟩ v) ++ blockItems indent rest

def blockEntries (indent : Nat) : List (Value × Value) → List Char
  | [] => []
  | (k, v) :: rest =>
    let entry := if isSimpleKey k then
        simpleKey (indent + 2) k ++ ':' :: block ⟨some indent, false, true⟩ v
      else
        '?' :: block ⟨some indent, true, true⟩ k
          ++ newLine indent ++ ':' :: block ⟨some indent, true, true⟩ v
    newLine indent ++ entry ++ blockEntries indent rest

end

def text (v : Value) : String :=
  String.ofList (block ⟨none, true, false⟩ v)

end SheetTemplate.Yaml.Printer
