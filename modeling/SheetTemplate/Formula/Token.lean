import SheetTemplate.Text.Digit
/-!
Tokens of a formula, as far as moving references needs them: string literals, candidates for cell
references, and every other character by itself. The first token that fits is taken, from left to
right.
-/
namespace SheetTemplate.Formula

inductive Token where
  /-- Quoted text; these are the characters between its quotes. -/
  | literal (inside : List Char)
  /-- One to three capital letters and digits of any script, after an optional dollar sign. -/
  | reference (dollar : Bool) (letters digits : List Char)
  | plain (c : Char)
deriving DecidableEq

def Token.chars : Token → List Char
  | literal inside => '"' :: (inside ++ ['"'])
  | reference dollar letters digits =>
    (if dollar then ['$'] else []) ++ (letters ++ digits)
  | plain c => [c]

/-- The characters up to the quote that closes a literal. A doubled quote does not close it,
unless no later one does. -/
def inside? : List Char → Option (List Char)
  | [] => none
  | '"' :: '"' :: rest =>
    match inside? rest with
    | some inside => some ('"' :: '"' :: inside)
    | none => some []
  | c :: rest => if c = '"' then some [] else (inside? rest).map (c :: ·)

/-- A candidate reference at the front, given whether a dollar sign stands before it. -/
def referenceAfter? (dollar : Bool) (cs : List Char) : Option Token :=
  let letters := cs.takeWhile Text.isCapital
  let digits := (cs.dropWhile Text.isCapital).takeWhile Text.isDecimalDigit
  if 1 ≤ letters.length && letters.length ≤ 3 && !digits.isEmpty then
    some (.reference dollar letters digits)
  else none

def front? : List Char → Option Token
  | [] => none
  | c :: cs =>
    if c = '"' then (inside? cs).map .literal
    else if c = '$' then referenceAfter? true cs
    else referenceAfter? false (c :: cs)

def tokens : List Char → List Token
  | [] => []
  | c :: cs =>
    match front? (c :: cs) with
    | none => .plain c :: tokens cs
    | some t => t :: tokens (cs.drop (t.chars.length - 1))
termination_by cs => cs.length
decreasing_by
  · simp
  · simp only [List.length_drop, List.length_cons]
    omega

def chars (ts : List Token) : List Char :=
  ts.flatMap Token.chars

def firstChar? (ts : List Token) : Option Char :=
  ts.head?.bind fun t => t.chars.head?

end SheetTemplate.Formula
