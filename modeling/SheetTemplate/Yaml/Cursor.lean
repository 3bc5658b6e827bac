import SheetTemplate.Text.Digit
/-!
Places in a YAML text, and the classes of characters that its structure hangs on. A cursor counts
lines, columns and characters, because indentation and the reach of a key are counted in them.
-/
namespace SheetTemplate.Yaml

def isBlank (c : Char) : Bool :=
  c = ' ' || c = '\t'

/-- A character that ends a line. A carriage return and the line feed after it end one line. -/
def isBreak (c : Char) : Bool :=
  c = '\n' || c = '\r' || c = '\u0085' || c = '\u2028' || c = '\u2029'

/-- What a line break stands for in a text: a line feed, but the two separators of Unicode are
kept. -/
def breakText (c : Char) : List Char :=
  if c = '\u2028' || c = '\u2029' then [c] else ['\n']

def endsWord (c : Option Char) : Bool :=
  c.all fun c => isBlank c || isBreak c

def endsLine (c : Option Char) : Bool :=
  c.all isBreak

def isNameChar (c : Char) : Bool :=
  Text.isAlphanumeric c || c = '_' || c = '-'

/-- A character that a text may hold. A byte order mark counts only at the very beginning. -/
def isPermitted (c : Char) : Bool :=
  let n := c.toNat
  n = 9 || n = 10 || n = 13 || (0x20 ≤ n && n ≤ 0x7E) || n = 0x85 || (0xA0 ≤ n && n ≤ 0xD7FF)
    || (0xE000 ≤ n && n ≤ 0xFFFD && n ≠ 0xFEFF) || 0x10000 ≤ n

/-- The rest of a text, and where in it that rest begins. -/
structure Cursor where
  rest : List Char
  line : Nat := 0
  column : Nat := 0
  index : Nat := 0

namespace Cursor

def peek (c : Cursor) (n : Nat) : Option Char :=
  c.rest[n]?

/-- The cursor after one character, or after one line break. -/
def step (c : Cursor) : Cursor :=
  match c.rest with
  | [] => c
  | '\r' :: '\n' :: rest => ⟨rest, c.line + 1, 0, c.index + 2⟩
  | x :: rest =>
    if isBreak x then ⟨rest, c.line + 1, 0, c.index + 1⟩
    else ⟨rest, c.line, c.column + 1, c.index + 1⟩

def skip (c : Cursor) (n : Nat) : Cursor :=
  ⟨c.rest.drop n, c.line, c.column + n, c.index + n⟩

theorem step_lt {c : Cursor} {x : Char} {xs : List Char} (h : c.rest = x :: xs) :
    c.step.rest.length < c.rest.length := by
  unfold step
  split
  · simp_all
  · rename_i rest heq
    rw [heq]
    simp only [List.length_cons]
    omega
  · rename_i heq
    rw [heq]
    split <;> simp

theorem step_le (c : Cursor) : c.step.rest.length ≤ c.rest.length := by
  cases h : c.rest with
  | nil => simp [step, h]
  | cons x xs => exact h ▸ Nat.le_of_lt (step_lt h)

theorem skip_lt {c : Cursor} {x : Char} {xs : List Char} {n : Nat} (h : c.rest = x :: xs) :
    (c.skip (n + 1)).rest.length < c.rest.length := by
  rw [show (c.skip (n + 1)).rest = c.rest.drop (n + 1) from rfl, h, List.length_drop]
  simp only [List.length_cons]
  omega

def skipBlanks (c : Cursor) : Cursor :=
  c.skip (c.rest.takeWhile isBlank).length

def skipLine (c : Cursor) : Cursor :=
  c.skip (c.rest.takeWhile fun x => !isBreak x).length

/-- The cursor after blanks, a comment and the line break, if nothing else is on the line. -/
def endLine? (c : Cursor) : Option Cursor :=
  let c := c.skipBlanks
  let c := if c.peek 0 = some '#' then c.skipLine else c
  if endsLine (c.peek 0) then some c.step else none

def atMark (c : Cursor) (x : Char) : Bool :=
  c.column = 0 && c.rest.take 3 = [x, x, x] && endsWord (c.peek 3)

def atDocumentMark (c : Cursor) : Bool :=
  c.atMark '-' || c.atMark '.'

end Cursor

end SheetTemplate.Yaml
