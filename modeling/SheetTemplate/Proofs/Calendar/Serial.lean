import SheetTemplate.Proofs.Binary64.Rounding
import SheetTemplate.Proofs.Calendar.DayNumber
import SheetTemplate.Calendar.Serial
/-!
Dates survive the serial number. The milliseconds since the epoch are few enough for the division
by the length of a day and the multiplication back to be off by less than one half of them.
-/
namespace SheetTemplate

/-- The time of day cut to whole milliseconds. -/
def TimeOfDay.wholeMillis (t : TimeOfDay) : TimeOfDay where
  hour := t.hour
  minute := t.minute
  second := t.second
  nano := t.nano / 1000000 * 1000000
  isTime := ⟨t.isTime.1, t.isTime.2.1, t.isTime.2.2.1, by have := t.isTime.2.2.2; omega⟩

def DateTime.wholeMillis (d : DateTime) : DateTime :=
  ⟨d.date, d.time.wholeMillis⟩

private theorem DateTime.wholeMillis_eq_self {d : DateTime} (h : d.time.nano % 1000000 = 0) :
    d.wholeMillis = d := by
  obtain ⟨date, hour, minute, second, nano, htime⟩ := d
  have hnano : nano / 1000000 * 1000000 = nano := Nat.div_mul_cancel (Nat.dvd_of_mod_eq_zero h)
  simp only [wholeMillis, TimeOfDay.wholeMillis, hnano]

/-- The milliseconds of a time of day, short of the next day's, name that time of day. A leap second
has those of the next minute. -/
theorem TimeOfDay.ofMillis_nanos {t : TimeOfDay} (h : t.second < 60) :
    t.nanos / 1000000 < Serial.millisPerDay ∧ ofMillis (t.nanos / 1000000) = t.wholeMillis := by
  obtain ⟨hour, minute, second, nano, htime⟩ := t
  obtain ⟨hhour, hminute, -, hnano⟩ := id htime
  have hsplit : nanos ⟨hour, minute, second, nano, htime⟩ / 1000000 =
      (hour * 3600 + minute * 60 + second) * 1000 + nano / 1000000 := by
    simp only [nanos]
    omega
  rw [hsplit]
  simp only [ofMillis, wholeMillis, Serial.millisPerDay, TimeOfDay.mk.injEq]
  simp only at h
  omega

namespace Serial

/-- From 1899-12-30 to the end of the year 9999, without a leap second. -/
structure InRange (d : DateTime) : Prop where
  fromEpoch : 1900 ≤ d.date.year ∨ d.date.year = 1899 ∧ d.date.month = 12 ∧ 30 ≤ d.date.day
  toYear : d.date.year ≤ 9999
  ordinary : d.time.second < 60

/-- The days from the epoch to a date. -/
theorem days_bounds {d : DateTime} (h : InRange d) :
    0 ≤ d.date.dayNumber - epoch ∧ d.date.dayNumber - epoch < 2958466 := by
  obtain ⟨hfrom, hto, -⟩ := h
  obtain ⟨hnumber, hinside⟩ := d.date.dayNumber_eq
  have hlength : Date.daysInYear d.date.year ≤ 366 := by
    unfold Date.daysInYear
    split <;> decide
  rw [epoch]
  constructor
  · rcases hfrom with hlate | ⟨hyear, hmonth, hday⟩
    · have : 693595 ≤ Date.daysBeforeYear d.date.year := by
        rw [Date.daysBeforeYear]
        omega
      omega
    · have hyearStart : Date.daysBeforeYear 1899 = 693230 := rfl
      have hmonthStart : Date.daysBeforeMonth 1899 12 = 334 := rfl
      rw [hyear, hmonth] at hnumber
      omega
  · have hnext : Date.daysBeforeYear (d.date.year + 1) ≤ 3652059 := by
      rw [Date.daysBeforeYear]
      omega
    rw [Date.daysBeforeYear_succ] at hnext
    omega

def daysSinceEpoch (d : DateTime) : Nat :=
  (d.date.dayNumber - epoch).toNat

/-- The milliseconds since the epoch are whole days and those of the time of day. -/
theorem millis_eq {d : DateTime} (h : InRange d) :
    millis d = (daysSinceEpoch d * millisPerDay + d.time.nanos / 1000000 : Nat) := by
  have hdays : d.date.dayNumber - epoch = daysSinceEpoch d :=
    (Int.toNat_of_nonneg (days_bounds h).1).symm
  have hsplit : daysSinceEpoch d * (millisPerDay * 1000000) + d.time.nanos =
      d.time.nanos + 1000000 * (daysSinceEpoch d * millisPerDay) := by
    rw [Nat.add_comm, ← Nat.mul_assoc, Nat.mul_comm 1000000]
  rw [millis, hdays, ← Int.natCast_mul, ← Int.natCast_add, hsplit,
    show (1000000 : Int) = ((1000000 : Nat) : Int) from rfl, ← Int.ofNat_tdiv,
    Nat.add_mul_div_left _ _ (by decide), Nat.add_comm]

/-- The milliseconds since the epoch lead back to the date if nothing is rounded between. -/
theorem ofMillis?_millis {d : DateTime} (h : InRange d) :
    ofMillis? (millis d).natAbs = some d.wholeMillis := by
  obtain ⟨hless, htime⟩ := TimeOfDay.ofMillis_nanos h.ordinary
  have hpos : 0 < millisPerDay := by decide
  have hday : epoch + daysSinceEpoch d = d.date.dayNumber := by
    have := (days_bounds h).1
    rw [daysSinceEpoch]
    omega
  rw [millis_eq h, Int.natAbs_natCast, ofMillis?, Nat.add_comm, Nat.add_mul_div_right _ _ hpos,
    Nat.add_mul_mod_self_right, Nat.div_eq_of_lt hless, Nat.mod_eq_of_lt hless, Nat.zero_add, hday,
    Date.ofDayNumber?_dayNumber, htime]
  rfl

/-- Every date in range is less than `2 ^ 50` milliseconds after the epoch. -/
theorem millis_lt {d : DateTime} (h : InRange d) :
    daysSinceEpoch d * millisPerDay + d.time.nanos / 1000000 < twoTo 50 := by
  have hless := (TimeOfDay.ofMillis_nanos h.ordinary).1
  have hdays : daysSinceEpoch d < 2958466 := by
    have := days_bounds h
    rw [daysSinceEpoch]
    omega
  rw [millisPerDay] at hless ⊢
  have hmax : 2958466 * 86400000 < twoTo 50 := by decide
  omega

/-- The point in time of a date's serial number is that date, cut to whole milliseconds. -/
theorem toDateTime?_ofDateTime {d : DateTime} (h : InRange d) :
    toDateTime? (ofDateTime d) = some d.wholeMillis ∧
      (d.time.nano % 1000000 = 0 → toDateTime? (ofDateTime d) = some d) := by
  have hmillis := millis_lt h
  have hexact := Binary64.hasValue_whole false
    (Nat.lt_trans hmillis (by decide : twoTo 50 < twoTo 53))
  have hday := Binary64.hasValue_whole false (by decide : millisPerDay < twoTo 53)
  obtain ⟨hsign, hfinite, hnearest⟩ :=
    Binary64.toNearestInt_mul_div hmillis (by decide) (by decide) hexact hday
  have hserial : ofDateTime d =
      (Binary64.ofRatio false (daysSinceEpoch d * millisPerDay + d.time.nanos / 1000000) 1).div
        (Binary64.ofRatio false millisPerDay 1) := by
    rw [ofDateTime, millis_eq h, Binary64.ofInt, Binary64.ofNat, Int.natAbs_natCast,
      decide_eq_false (Int.not_lt.2 (Int.natCast_nonneg _))]
  have hread : toDateTime? (ofDateTime d) = some d.wholeMillis := by
    rw [hserial, toDateTime?, Binary64.ofNat]
    simp only [hfinite, Binary64.lt_zero hsign, hnearest]
    rw [← millis_eq h, ofMillis?_millis h]
    rfl
  exact ⟨hread, fun hwhole => by rw [hread, DateTime.wholeMillis_eq_self hwhole]⟩

def lastMilli : DateTime :=
  ⟨⟨9999, 12, 31, by decide⟩, ⟨23, 59, 59, 999000000, by decide⟩⟩

theorem lastMilli_toDateTime?_ofDateTime : InRange lastMilli ∧
    lastMilli.time.nano % 1000000 = 0 ∧ toDateTime? (ofDateTime lastMilli) = some lastMilli := by
  have hrange : InRange lastMilli := ⟨.inl (by decide), by decide, by decide⟩
  exact ⟨hrange, rfl, (toDateTime?_ofDateTime hrange).2 rfl⟩

end Serial

end SheetTemplate
