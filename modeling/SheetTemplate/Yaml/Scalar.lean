import SheetTemplate.Binary64.Decimal
/-!
What a bare scalar means. It is a number, a truth value or nothing if it is spelled like one, and
a text otherwise. Whole numbers may be written in base 2, 8 or 16; one that needs more than 64
bits but not more than 128 has no meaning.
-/
namespace SheetTemplate.Yaml

inductive Scalar where
  | null
  | bool (b : Bool)
  | int (i : Int)
  | float (x : Binary64)
  | text (s : List Char)

namespace Scalar

def isNull (cs : List Char) : Bool :=
  ["null", "Null", "NULL", "~"].contains (String.ofList cs)

def bool? (cs : List Char) : Option Bool :=
  let s := String.ofList cs
  if ["true", "True", "TRUE"].contains s then some true
  else if ["false", "False", "FALSE"].contains s then some false
  else none

/-- Digits that begin with a zero and are more than that, after an optional sign: a text, because
readers disagree about the base. -/
def isZeroPadded (cs : List Char) : Bool :=
  let ds := match cs with
    | '-' :: ds => ds
    | '+' :: ds => ds
    | ds => ds
  1 < ds.length && ds.head? = some '0' && ds.all Text.isDigit

def isSign (c : Option Char) : Bool :=
  c = some '+' || c = some '-'

def baseOf? (c : Char) : Option Nat :=
  if c = 'x' then some 16 else if c = 'o' then some 8 else if c = 'b' then some 2 else none

/-- Digits in a base that is written in front of them, as far as the number is at most
`limit`. -/
def based? (limit : Nat) : List Char → Option Nat
  | '0' :: c :: ds => do
    let base ← baseOf? c
    let n ← Text.natural? base ds
    if n ≤ limit then some n else none
  | _ => none

def hasInnerSign : List Char → Bool
  | '0' :: c :: ds => (baseOf? c).isSome && isSign ds.head?
  | _ => false

/-- A number from 0 to `limit`, after an optional plus sign. -/
def unsigned? (limit : Nat) (cs : List Char) : Option Nat :=
  let ds := match cs with
    | '+' :: ds => ds
    | ds => ds
  if hasInnerSign ds then none
  else
    match based? limit ds with
    | some n => some n
    | none =>
      if isSign ds.head? || isZeroPadded cs then none
      else (Text.natural? 10 ds).filter (· ≤ limit)

def negative? (limit : Nat) : List Char → Option Nat
  | '-' :: ds =>
    match based? limit ds with
    | some n => some n
    | none =>
      if isZeroPadded ds then none else (Text.natural? 10 ds).filter (· ≤ limit)
  | _ => none

/-- The whole number that is spelled: nothing if none is, and a failure, `some none`, if it needs
more than 64 bits but not more than 128. -/
def whole? (cs : List Char) : Option (Option Int) :=
  match unsigned? (twoTo 64 - 1) cs with
  | some n => some (some n)
  | none =>
    match negative? (twoTo 63) cs with
    | some n => some (some (-(n : Int)))
    | none =>
      if (unsigned? (twoTo 128 - 1) cs).isSome || (negative? (twoTo 127) cs).isSome then some none
      else none

/-- The number that is spelled, infinities and the NaN included. Words that other readers take
for those are texts, and so is a number that overflows. -/
def float? (cs : List Char) : Option Binary64 :=
  let word := String.ofList cs
  let ds := match cs with
    | '+' :: ds => ds
    | ds => ds
  if ds.length < cs.length && isSign ds.head? then none
  else if [".inf", ".Inf", ".INF"].contains (String.ofList ds) then
    some (Binary64.infinity false)
  else if ["-.inf", "-.Inf", "-.INF"].contains word then some (Binary64.infinity true)
  else if [".nan", ".NaN", ".NAN"].contains word then some Binary64.nan
  else (Binary64.ofChars? ds).filter Binary64.isFinite

def bare? (cs : List Char) : Option Scalar :=
  if cs.isEmpty || isNull cs then some null
  else
    match bool? cs with
    | some b => some (bool b)
    | none =>
      match whole? cs with
      | some i => i.map int
      | none =>
        if isZeroPadded cs then some (text cs)
        else
          match float? cs with
          | some x => some (float x)
          | none => some (text cs)

/-- The meaning of a scalar with one of the standard tags, if the tag is one that asks for a
certain kind. -/
def tagged? (tag : List Char) (cs : List Char) : Option (Option Scalar) :=
  match String.ofList tag with
  | "tag:yaml.org,2002:bool" => some ((bool? cs).map bool)
  | "tag:yaml.org,2002:int" => some ((whole? cs).bind fun i => i.map int)
  | "tag:yaml.org,2002:float" => some ((float? cs).map float)
  | "tag:yaml.org,2002:null" => some (if isNull cs then some null else none)
  | _ => none

end Scalar

end SheetTemplate.Yaml
