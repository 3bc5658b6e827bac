import SheetTemplate.Text.Digit
import SheetTemplate.Power
/-!
Numerals: the decimal text of a number, and the readers of signed and unsigned numerals that
every reference, index and attribute goes through. A reader takes all of its text or nothing.
-/
namespace SheetTemplate.Text

def digitChar (d : Nat) : Char :=
  Char.ofNat (48 + d)

/-- Digits of a number in base ten, the leading one first and not zero unless it is alone. -/
def digits (n : Nat) : List Char :=
  if n < 10 then [digitChar n] else digits (n / 10) ++ [digitChar (n % 10)]
termination_by n
decreasing_by omega

def decimal (n : Nat) : String :=
  String.ofList (digits n)

/-- The decimal text of an integer, with a sign only if it is negative. -/
def decimalInt (i : Int) : String :=
  if i < 0 then "-" ++ decimal i.natAbs else decimal i.natAbs

def padded (width n : Nat) : String :=
  let ds := digits n
  String.ofList (List.replicate (width - ds.length) '0' ++ ds)

def digitValue (c : Char) : Option Nat :=
  if isDigit c then some (c.toNat - 48)
  else if isCapital c then some (c.toNat - 55)
  else if 'a' ≤ c && c ≤ 'z' then some (c.toNat - 87)
  else none

def digitIn? (base : Nat) (c : Char) : Option Nat :=
  (digitValue c).filter (· < base)

def natural? (base : Nat) (cs : List Char) : Option Nat :=
  if cs.isEmpty then none
  else cs.foldlM (fun n c => (digitIn? base c).map (n * base + ·)) 0

/-- Value below `limit` of digits after an optional plus sign. -/
def unsigned? (base limit : Nat) : List Char → Option Nat
  | '+' :: cs => (natural? base cs).filter (· < limit)
  | cs => (natural? base cs).filter (· < limit)

/-- Value from `-limit` to `limit - 1` of digits after an optional sign. -/
def signed? (base limit : Nat) : List Char → Option Int
  | '-' :: cs => ((natural? base cs).filter (· ≤ limit)).map fun n => -(n : Int)
  | '+' :: cs => ((natural? base cs).filter (· < limit)).map fun n => (n : Int)
  | cs => ((natural? base cs).filter (· < limit)).map fun n => (n : Int)

def unsigned64? (s : String) : Option Nat :=
  unsigned? 10 (twoTo 64) s.toList

/-- Characters as the parts between the separators, of which there is one part more. -/
def parts (separator : Char) : List Char → List (List Char)
  | [] => [[]]
  | c :: cs =>
    if c = separator then [] :: parts separator cs
    else match parts separator cs with
      | [] => [[c]]
      | part :: rest => (c :: part) :: rest

def split (separator : Char) (s : String) : List String :=
  (parts separator s.toList).map String.ofList

def words (p : Char → Bool) (s : String) : List String :=
  let cut := s.toList.foldr (fun c (word, found) =>
    if p c then ([], if word.isEmpty then found else word :: found) else (c :: word, found))
    (([] : List Char), ([] : List (List Char)))
  (if cut.1.isEmpty then cut.2 else cut.1 :: cut.2).map String.ofList

end SheetTemplate.Text
