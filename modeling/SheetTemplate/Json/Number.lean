import SheetTemplate.Json.Basic
/-!
Numbers of a JSON text. The digits are gathered in 64 bits: digits that no longer fit are dropped,
in front of the point at the price of a higher exponent. The value is the gathered number times or
divided by one power of ten, which is the nearest number only where both are exact.
-/
namespace SheetTemplate.Json

/-- Digits from the front, gathered as long as they fit 64 bits, and what follows. -/
def gather (n : Nat) : List Char → Nat × List Char
  | [] => (n, [])
  | c :: cs =>
    let next := n * 10 + (c.toNat - 48)
    if Text.isDigit c && next < twoTo 64 then gather next cs else (n, c :: cs)

/-- A number as gathered. A plain one has no point, no exponent and no dropped digit. -/
structure Gathered where
  plain : Bool
  significand : Nat
  exponent : Int
deriving DecidableEq

/-- A whole part: a zero alone, or digits without a zero in front. -/
def whole? : List Char → Option (Gathered × List Char)
  | [] => none
  | c :: cs =>
    if c = '0' then
      match cs with
      | [] => some (⟨true, 0, 0⟩, [])
      | d :: _ => if Text.isDigit d then none else some (⟨true, 0, 0⟩, cs)
    else if Text.isDigit c then
      let (n, left) := gather 0 (c :: cs)
      let dropped := left.takeWhile Text.isDigit
      some (⟨dropped.isEmpty, n, dropped.length⟩, left.dropWhile Text.isDigit)
    else none

def fraction? (g : Gathered) : List Char → Option (Gathered × List Char)
  | '.' :: cs =>
    let (n, left) := gather g.significand cs
    if (cs.takeWhile Text.isDigit).isEmpty then none
    else some (⟨false, n, g.exponent - (cs.length - left.length : Nat)⟩,
      left.dropWhile Text.isDigit)
  | cs => some (g, cs)

def exponent? : List Char → Option (Option (Bool × Nat) × List Char)
  | [] => some (none, [])
  | c :: cs =>
    if c = 'e' || c = 'E' then
      let (negative, ds) := match cs with
        | '-' :: ds => (true, ds)
        | '+' :: ds => (false, ds)
        | ds => (false, ds)
      (Text.natural? 10 (ds.takeWhile Text.isDigit)).map fun n =>
        (some (negative, n), ds.dropWhile Text.isDigit)
    else some (none, c :: cs)

def powerOfTen (k : Nat) : Binary64 :=
  Binary64.ofNat (tenTo k)

/-- A number times a power of ten, unless it overflows. Exponents below -308 are taken in
several divisions. -/
def scale? (x : Binary64) (e : Int) : Option Binary64 :=
  if e.natAbs ≤ 308 then
    if 0 ≤ e then (some (x.mul (powerOfTen e.toNat))).filter (·.isFinite)
    else some (x.div (powerOfTen e.natAbs))
  else if x.isZero then some x
  else if 0 ≤ e then none
  else scale? (x.div (powerOfTen 308)) (e + 308)
termination_by e.natAbs
decreasing_by omega

/-- The number with its sign. Only a whole number of 64 bits other than a negative zero stays
whole. -/
def plainNumber (negative : Bool) (n : Nat) : Json :=
  if negative then
    if n ≠ 0 ∧ n ≤ twoTo 63 then int (Int64.ofInt (-(n : Int)))
    else float (Binary64.ofRatio true n 1)
  else if n < twoTo 63 then int (Int64.ofNat n)
  else float (Binary64.ofNat n)

/-- The number after its sign. Exponents of more than 31 bits are not added up any more. -/
def unsignedNumber? (negative : Bool) (cs : List Char) : Option (Json × List Char) := do
  let (g, cs) ← whole? cs
  let (g, cs) ← fraction? g cs
  let (e, cs) ← exponent? cs
  let signed (x : Binary64) : Json := float (if negative then x.neg else x)
  match e with
  | none =>
    if g.plain then return (plainNumber negative g.significand, cs)
    else return (signed (← scale? (Binary64.ofNat g.significand) g.exponent), cs)
  | some (down, n) =>
    if twoTo 31 ≤ n then
      if g.significand ≠ 0 && !down then none else return (signed (Binary64.zero false), cs)
    else
      let e := if down then g.exponent - n else g.exponent + n
      return (signed (← scale? (Binary64.ofNat g.significand) e), cs)

def number? : List Char → Option (Json × List Char)
  | '-' :: cs => unsignedNumber? true cs
  | cs => unsignedNumber? false cs

end SheetTemplate.Json
