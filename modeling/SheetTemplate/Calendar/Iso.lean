import SheetTemplate.Calendar.DateTime
import SheetTemplate.Text.Blank
/-!
Reading a date, or a date and time, in ISO 8601 form. Fields may have fewer digits than usual and
white space before them; a year of more than four digits needs a sign.
-/
namespace SheetTemplate.Iso

/-- Digits from the front, at most `width` of them and at least one, and what follows. -/
def field? (width : Nat) (cs : List Char) : Option (Nat × List Char) :=
  let cs := cs.dropWhile Text.isBlank
  let ds := (cs.take width).takeWhile Text.isDigit
  (Text.natural? 10 ds).map fun n => (n, cs.drop ds.length)

/-- A year: a sign and any number of digits, or at most four digits. -/
def year? (cs : List Char) : Option (Int × List Char) :=
  match cs.dropWhile Text.isBlank with
  | '-' :: rest => (digits rest).map fun (n, rest) => (-(n : Int), rest)
  | '+' :: rest => (digits rest).map fun (n, rest) => ((n : Int), rest)
  | rest => (field? 4 rest).map fun (n, rest) => ((n : Int), rest)
where
  /-- All digits from the front, at least one. -/
  digits (cs : List Char) : Option (Nat × List Char) :=
    (Text.natural? 10 (cs.takeWhile Text.isDigit)).map fun n => (n, cs.dropWhile Text.isDigit)

def expect? (c : Char) : List Char → Option (List Char)
  | d :: cs => if d = c then some cs else none
  | [] => none

/-- Nanoseconds of a fraction; nothing stands for zero, and digits after the ninth are dropped. -/
def fraction? : List Char → Option (Nat × List Char)
  | '.' :: cs =>
    let ds := cs.takeWhile Text.isDigit
    let kept := ds.take 9
    (Text.natural? 10 kept).map fun n =>
      (n * tenTo (9 - kept.length), cs.dropWhile Text.isDigit)
  | cs => some (0, cs)

def date? (cs : List Char) : Option (Date × List Char) := do
  let (year, cs) ← year? cs
  let cs ← expect? '-' cs
  let (month, cs) ← field? 2 cs
  let cs ← expect? '-' cs
  let (day, cs) ← field? 2 cs
  let date ← Date.make? year month day
  return (date, cs)

def time? (cs : List Char) : Option TimeOfDay := do
  let (hour, cs) ← field? 2 cs
  let cs ← expect? ':' cs
  let (minute, cs) ← field? 2 cs
  let cs ← expect? ':' cs
  let (second, cs) ← field? 2 cs
  let (nano, cs) ← fraction? cs
  if cs.isEmpty then TimeOfDay.make? hour minute second nano else none

/-- The point in time that the text spells. A date is followed by the letter `T` and a time, by
any white space and a time, or by nothing, which means midnight. -/
def read? (s : String) : Option DateTime := do
  let (date, rest) ← date? s.toList
  match rest with
  | [] => return ⟨date, TimeOfDay.midnight⟩
  | 'T' :: rest => return ⟨date, ← time? rest⟩
  | rest => return ⟨date, ← time? rest⟩

end SheetTemplate.Iso
