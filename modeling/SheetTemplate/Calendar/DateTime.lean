import SheetTemplate.Calendar.Date
/-!
Points in time without a zone: a date and a time of day. A second may be numbered 60; such a
leap second lies between the second 59 and the next minute.
-/
namespace SheetTemplate

/-- A time of day to the nanosecond. -/
structure TimeOfDay where
  hour : Nat
  minute : Nat
  second : Nat
  nano : Nat
  isTime : hour < 24 ∧ minute < 60 ∧ second ≤ 60 ∧ nano < 1000000000
deriving DecidableEq

namespace TimeOfDay

def make? (hour minute second nano : Nat) : Option TimeOfDay :=
  if h : hour < 24 ∧ minute < 60 ∧ second ≤ 60 ∧ nano < 1000000000 then
    some ⟨hour, minute, second, nano, h⟩
  else none

def midnight : TimeOfDay := ⟨0, 0, 0, 0, by decide⟩

/-- Nanoseconds since midnight; those of a leap second are the next minute's too. -/
def nanos (t : TimeOfDay) : Nat :=
  (t.hour * 3600 + t.minute * 60 + t.second) * 1000000000 + t.nano

/-- The time that many milliseconds after midnight; whole days are left out. -/
def ofMillis (ms : Nat) : TimeOfDay where
  hour := ms / 3600000 % 24
  minute := ms / 60000 % 60
  second := ms / 1000 % 60
  nano := ms % 1000 * 1000000
  isTime := by omega

def text (t : TimeOfDay) : String :=
  Text.padded 2 t.hour ++ ":" ++ Text.padded 2 t.minute ++ ":" ++ Text.padded 2 t.second

/-- The fraction of the second: nothing if it is zero, else a point and the fewest of three, six
or nine digits that are exact. -/
def fractionText (t : TimeOfDay) : String :=
  if t.nano = 0 then ""
  else if t.nano % 1000000 = 0 then "." ++ Text.padded 3 (t.nano / 1000000)
  else if t.nano % 1000 = 0 then "." ++ Text.padded 6 (t.nano / 1000)
  else "." ++ Text.padded 9 t.nano

end TimeOfDay

structure DateTime where
  date : Date
  time : TimeOfDay
deriving DecidableEq

namespace DateTime

def isMidnight (d : DateTime) : Bool :=
  d.time = TimeOfDay.midnight

/-- The text shown in a cell: the date alone at midnight, else also the time in whole seconds. -/
def render (d : DateTime) : String :=
  if d.isMidnight then d.date.text else d.date.text ++ "T" ++ d.time.text

def isoText (d : DateTime) : String :=
  d.date.text ++ "T" ++ d.time.text ++ d.time.fractionText

end DateTime

end SheetTemplate
