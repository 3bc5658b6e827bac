import SheetTemplate.Binary64.Basic
import SheetTemplate.Text.Numeral
/-!
Decimal texts of binary64 numbers. Reading rounds the exact value of a literal once. Writing
starts from the shortest digits that read back to the number; how they are laid out, and which
way an exact tie between two shortest candidates goes, is a `Layout`.
-/
namespace SheetTemplate.Binary64

/-- A decimal literal: a whole number of units of a power of ten. -/
structure Literal where
  negative : Bool
  digits : Nat
  exponent : Int
deriving DecidableEq

/-- The number nearest to a literal. Magnitudes that are certain to overflow or vanish are
settled by their decimal order, so that the exact quotient stays small. -/
def ofLiteral (l : Literal) : Binary64 :=
  let order := (Text.digits l.digits).length + l.exponent
  if l.digits = 0 then zero l.negative
  else if 400 < order then infinity l.negative
  else if order < -400 then zero l.negative
  else ofRatio l.negative (l.digits * tenTo l.exponent.toNat) (tenTo (-l.exponent).toNat)

private def valueOf (cs : List Char) : Nat :=
  cs.foldl (fun n c => n * 10 + (c.toNat - 48)) 0

private def exponentOf? : List Char → Option Int
  | [] => some 0
  | c :: cs =>
    if c = 'e' || c = 'E' then
      match cs with
      | '-' :: ds => (Text.natural? 10 ds).map fun n => -(n : Int)
      | '+' :: ds => (Text.natural? 10 ds).map fun n => (n : Int)
      | ds => (Text.natural? 10 ds).map fun n => (n : Int)
    else none

/-- A literal without sign: digits with an optional point, at least one of them, and an optional
exponent. -/
private def unsignedLiteral? (negative : Bool) (cs : List Char) : Option Literal :=
  let whole := cs.takeWhile Text.isDigit
  let rest := cs.dropWhile Text.isDigit
  let (places, tail) := match rest with
    | '.' :: ds => (ds.takeWhile Text.isDigit, ds.dropWhile Text.isDigit)
    | _ => ([], rest)
  if whole.isEmpty && places.isEmpty then none
  else (exponentOf? tail).map fun e =>
    ⟨negative, valueOf (whole ++ places), e - places.length⟩

private def magnitude? (negative : Bool) (cs : List Char) : Option Binary64 :=
  let word := cs.map Text.lowerChar
  if word = "inf".toList || word = "infinity".toList then some (infinity negative)
  else if word = "nan".toList then some (if negative then neg nan else nan)
  else (unsignedLiteral? negative cs).map ofLiteral

/-- The number that the characters spell: an optional sign, then a literal, `inf`, `infinity` or
`nan`. -/
def ofChars? : List Char → Option Binary64
  | '-' :: cs => magnitude? true cs
  | '+' :: cs => magnitude? false cs
  | cs => magnitude? false cs

def ofText? (s : String) : Option Binary64 :=
  ofChars? s.toList

/-- Which of two shortest candidates at the same distance is taken. -/
inductive Tie
  | up
  | even
deriving DecidableEq

/-- Digits of a positive number: their value, without a zero at the end, and the power of ten of
the last of them. -/
structure Digits where
  value : Nat
  exponent : Int
deriving DecidableEq

/-- The largest `k` with `10 ^ k ≤ num / den`, for positive operands. The first guess, from the
binary order, is at most two too small. -/
def decimalOrder (num den : Nat) : Int :=
  let reached (k : Int) : Bool := den * tenTo k.toNat ≤ num * tenTo (-k).toNat
  let guess := (binaryOrder num den) * 30103 / 100000 - 1
  if reached (guess + 2) then guess + 2 else if reached (guess + 1) then guess + 1 else guess

def Digits.normalize (d : Digits) : Digits :=
  if d.value ≠ 0 ∧ d.value % 10 = 0 then normalize ⟨d.value / 10, d.exponent + 1⟩ else d
termination_by d.value
decreasing_by all_goals omega

/-- The shortest decimal in the interval from `low` to `high`, whose ends count if `closed`, that
is nearest to `num`; all four are numerators over `den`. Grids of one, two, … digits are tried in
turn, each at the two neighbours of the number. -/
def shortestBetween (tie : Tie) (closed : Bool) (low num high den : Nat) (top : Int) :
    Nat → Digits
  | 0 => ⟨num / den, 0⟩
  | more + 1 =>
    let k := top - (16 - more : Nat)
    let unit := den * tenTo k.toNat
    let scale := tenTo (-k).toNat
    let down := num * scale / unit
    let inside (n : Nat) : Bool :=
      if closed then low * scale ≤ n * unit && n * unit ≤ high * scale
      else low * scale < n * unit && n * unit < high * scale
    let below := num * scale - down * unit
    let above := (down + 1) * unit - num * scale
    match inside down, inside (down + 1) with
    | true, true =>
      if below < above then ⟨down, k⟩
      else if above < below then ⟨down + 1, k⟩
      else match tie with
        | .up => ⟨down + 1, k⟩
        | .even => if down % 2 = 0 then ⟨down, k⟩ else ⟨down + 1, k⟩
    | true, false => ⟨down, k⟩
    | false, true => ⟨down + 1, k⟩
    | false, false => shortestBetween tie closed low num high den top more

/-- The shortest digits that read back to the magnitude of a finite number other than zero. The
interval of reals that round to it reaches half a unit up, and half a unit down or, below a power
of two, a quarter. -/
def shortest (tie : Tie) (x : Binary64) : Digits :=
  let lowGap := if x.fractionBits = 0 ∧ 1 < x.exponentBits then 1 else 2
  let unit := twoTo x.power.toNat
  let den := 4 * x.denominator
  let num := 4 * x.numerator
  (shortestBetween tie (x.significand % 2 = 0) (num - lowGap * unit) num (num + 2 * unit) den
    (decimalOrder num den) 17).normalize

/-- How digits become text. -/
structure Layout where
  tie : Tie
  /-- Decimal orders, of the leading digit, that are written without an exponent. -/
  positional : Int → Bool
  /-- Whether a whole number written without an exponent ends in a point and a zero. -/
  wholeMark : Bool
  /-- Whether an exponent that is not negative has a plus sign. -/
  exponentPlus : Bool

def magnitudeText (layout : Layout) (x : Binary64) : String :=
  let d : Digits := if x.isZero then ⟨0, 0⟩ else shortest layout.tie x
  let ds := Text.digits d.value
  let order := d.exponent + ds.length - 1
  if layout.positional order then
    if 0 ≤ d.exponent then
      String.ofList (ds ++ List.replicate d.exponent.toNat '0')
        ++ (if layout.wholeMark then ".0" else "")
    else if 0 ≤ order then
      let whole := (order + 1).toNat
      String.ofList (ds.take whole ++ '.' :: ds.drop whole)
    else String.ofList ('0' :: '.' :: (List.replicate (-order - 1).toNat '0' ++ ds))
  else
    let point := match ds with
      | [] => []
      | [c] => [c]
      | c :: cs => c :: '.' :: cs
    let sign := if order < 0 then "-" else if layout.exponentPlus then "+" else ""
    String.ofList point ++ "e" ++ sign ++ Text.decimal order.natAbs

def finiteText (layout : Layout) (x : Binary64) : String :=
  (if x.isNegative then "-" else "") ++ magnitudeText layout x

/-- Plain form: never an exponent, a whole number without a point, and a tie goes up. -/
def plain : Layout where
  tie := .up
  positional := fun _ => true
  wholeMark := false
  exponentPlus := false

def text (x : Binary64) : String :=
  if x.isNaN then "NaN"
  else if x.isInfinite then if x.isNegative then "-inf" else "inf"
  else finiteText plain x

end SheetTemplate.Binary64
