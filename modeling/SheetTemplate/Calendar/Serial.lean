import SheetTemplate.Calendar.DateTime
import SheetTemplate.Binary64.Basic
/-!
Serial dates: days since 1899-12-30 as a binary64 number, the fraction being the time of day.
Both directions work in whole milliseconds; the two conversions between milliseconds and days
are a single division and a single multiplication, each rounded once.
-/
namespace SheetTemplate.Serial

def millisPerDay : Nat := 86400000

/-- Day number of 1899-12-30. -/
def epoch : Int := 693593

/-- Whole milliseconds since the epoch, cut toward it. -/
def millis (d : DateTime) : Int :=
  ((d.date.dayNumber - epoch) * (millisPerDay * 1000000 : Nat) + d.time.nanos).tdiv 1000000

def ofMillis? (ms : Nat) : Option DateTime :=
  (Date.ofDayNumber? (epoch + (ms / millisPerDay : Nat))).map fun date =>
    ⟨date, TimeOfDay.ofMillis (ms % millisPerDay)⟩

def ofDateTime (d : DateTime) : Binary64 :=
  (Binary64.ofInt (millis d)).div (Binary64.ofNat millisPerDay)

/-- The point in time of a serial number, to the nearest millisecond. Negative and infinite
numbers, NaN and numbers past the last year have none. -/
def toDateTime? (serial : Binary64) : Option DateTime :=
  let ms := serial.mul (Binary64.ofNat millisPerDay)
  if !ms.isFinite || serial.lt (Binary64.zero false) then none
  else ofMillis? ms.toNearestInt.natAbs

end SheetTemplate.Serial
