import SheetTemplate.Power
/-!
Numbers in the binary64 interchange format, held as their 64-bit word. Every operation is
computed exactly on whole numbers and rounded once, to nearest with ties to even, so that its
result can be reasoned about; none of them goes through the runtime's own floating point.
-/
namespace SheetTemplate

/-- A binary64 number: sign, eleven exponent bits and 52 fraction bits. -/
structure Binary64 where
  bits : UInt64
deriving DecidableEq

namespace Binary64

def exponentBits (x : Binary64) : Nat :=
  x.bits.toNat / twoTo 52 % twoTo 11

def fractionBits (x : Binary64) : Nat :=
  x.bits.toNat % twoTo 52

/-- The sign bit is set; zeros and NaNs have a sign too. -/
def isNegative (x : Binary64) : Bool :=
  twoTo 63 ≤ x.bits.toNat

def isFinite (x : Binary64) : Bool :=
  x.exponentBits ≠ 2047

def isNaN (x : Binary64) : Bool :=
  x.exponentBits = 2047 && x.fractionBits ≠ 0

def isInfinite (x : Binary64) : Bool :=
  x.exponentBits = 2047 && x.fractionBits = 0

/-- Whole part of the significand; a finite number is this times `2 ^ power`, up to its sign. -/
def significand (x : Binary64) : Nat :=
  if x.exponentBits = 0 then x.fractionBits else twoTo 52 + x.fractionBits

def power (x : Binary64) : Int :=
  (max x.exponentBits 1 : Nat) - 1075

def isZero (x : Binary64) : Bool :=
  x.isFinite && x.significand = 0

def numerator (x : Binary64) : Nat :=
  x.significand * twoTo x.power.toNat

def denominator (x : Binary64) : Nat :=
  twoTo (-x.power).toNat

def signedNumerator (x : Binary64) : Int :=
  if x.isNegative then -(x.numerator : Int) else x.numerator

def ofFields (negative : Bool) (fields : Nat) : Binary64 :=
  ⟨UInt64.ofNat (if negative then twoTo 63 + fields else fields)⟩

def zero (negative : Bool) : Binary64 :=
  ofFields negative 0

def infinity (negative : Bool) : Binary64 :=
  ofFields negative (2047 * twoTo 52)

def nan : Binary64 :=
  ofFields false (2047 * twoTo 52 + twoTo 51)

/-- The quotient rounded to the nearest whole number, a tie going to the even one. -/
def roundDiv (num den : Nat) : Nat :=
  let q := num / den
  let r := num % den
  if den < 2 * r || (2 * r = den && q % 2 = 1) then q + 1 else q

/-- The largest `e` with `2 ^ e ≤ num / den`, for positive operands. -/
def binaryOrder (num den : Nat) : Int :=
  let e := (num.log2 : Int) - den.log2
  if den * twoTo e.toNat ≤ num * twoTo (-e).toNat then e else e - 1

/-- The number nearest to `num / den`, a tie going to the even significand. -/
def ofRatio (negative : Bool) (num den : Nat) : Binary64 :=
  if num = 0 then zero negative
  else
    let q := max (binaryOrder num den - 52) (-1074)
    let m := roundDiv (num * twoTo (-q).toNat) (den * twoTo q.toNat)
    let fields := (q + 1074).toNat * twoTo 52 + m
    if 2047 * twoTo 52 ≤ fields then infinity negative else ofFields negative fields

def ofInt (i : Int) : Binary64 :=
  ofRatio (i < 0) i.natAbs 1

def ofNat (n : Nat) : Binary64 :=
  ofRatio false n 1

def mul (x y : Binary64) : Binary64 :=
  let negative := x.isNegative != y.isNegative
  if x.isNaN || y.isNaN then nan
  else if x.isInfinite || y.isInfinite then
    if x.isZero || y.isZero then nan else infinity negative
  else ofRatio negative (x.numerator * y.numerator) (x.denominator * y.denominator)

def div (x y : Binary64) : Binary64 :=
  let negative := x.isNegative != y.isNegative
  if x.isNaN || y.isNaN then nan
  else if x.isInfinite then if y.isInfinite then nan else infinity negative
  else if y.isInfinite then zero negative
  else if y.isZero then if x.isZero then nan else infinity negative
  else ofRatio negative (x.numerator * y.denominator) (x.denominator * y.numerator)

/-- The sum, rounded once; a sum that vanishes is negative only if both operands are. -/
def add (x y : Binary64) : Binary64 :=
  if x.isNaN || y.isNaN then nan
  else if x.isInfinite then
    if y.isInfinite && x.isNegative != y.isNegative then nan else x
  else if y.isInfinite then y
  else
    let sum := x.signedNumerator * y.denominator + y.signedNumerator * x.denominator
    if sum = 0 then zero (x.isNegative && y.isNegative)
    else ofRatio (sum < 0) sum.natAbs (x.denominator * y.denominator)

def neg (x : Binary64) : Binary64 :=
  ofFields (!x.isNegative) (x.exponentBits * twoTo 52 + x.fractionBits)

/-- The whole number nearest to a finite number, a tie going away from zero. -/
def toNearestInt (x : Binary64) : Int :=
  let n := (2 * x.numerator + x.denominator) / (2 * x.denominator)
  if x.isNegative then -(n : Int) else n

/-- Rounding to a whole number, a tie going away from zero. The sign is kept, also of a result
that is zero. -/
def round (x : Binary64) : Binary64 :=
  if x.isFinite then ofRatio x.isNegative x.toNearestInt.natAbs 1 else x

def floor (x : Binary64) : Binary64 :=
  if !x.isFinite || x.isZero then x
  else
    let n := Int.fdiv x.signedNumerator x.denominator
    ofRatio x.isNegative n.natAbs 1

/-- Numerical order; a NaN is not below anything. -/
def lt (x y : Binary64) : Bool :=
  if x.isNaN || y.isNaN then false
  else if x.isInfinite then x.isNegative && !(y.isInfinite && y.isNegative)
  else if y.isInfinite then !y.isNegative
  else x.signedNumerator * y.denominator < y.signedNumerator * x.denominator

/-- Numerical equality: the two zeros are equal, and a NaN differs from itself. -/
def equals (x y : Binary64) : Bool :=
  !x.isNaN && !y.isNaN && !x.lt y && !y.lt x

end Binary64

end SheetTemplate
