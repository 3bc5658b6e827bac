import SheetTemplate.Calendar.Date
/-!
Day numbers count the dates without gaps: the date of a date's day number is that date. The year is
found from the mean length of a year, which is off by at most one; the month by the lengths of the
months in front of it.
-/
namespace SheetTemplate

/-- A month that exists has a number from 1 to 12, and at most 31 days. -/
theorem DateExists.bounds {year : Int} {month day : Nat} (h : DateExists year month day) :
    (1 ≤ month ∧ month ≤ 12) ∧ day ≤ 31 := by
  obtain ⟨-, -, hday, hlength⟩ := h
  have hmonths : ∀ length ∈ monthLengths year, length ≤ 31 := by
    unfold monthLengths
    split <;> decide
  rw [daysInMonth] at hlength
  by_cases hzero : month = 0
  · rw [if_pos hzero] at hlength
    omega
  · rw [if_neg hzero, List.getD_eq_getElem?_getD] at hlength
    cases hmonth : (monthLengths year)[month - 1]? with
    | none =>
      rw [hmonth, Option.getD_none] at hlength
      omega
    | some length =>
      obtain ⟨hlt, -⟩ := List.getElem?_eq_some_iff.1 hmonth
      have hle := hmonths length (List.mem_of_getElem? hmonth)
      have hcount : (monthLengths year).length = 12 := rfl
      rw [hmonth, Option.getD_some] at hlength
      omega

namespace Date

/-! ## Years -/

def daysInYear (year : Int) : Nat :=
  if isLeapYear year then 366 else 365

private theorem total_monthLengths (year : Int) : total (monthLengths year) = daysInYear year := by
  unfold monthLengths daysInYear
  split <;> rfl

theorem daysBeforeYear_succ (year : Int) :
    daysBeforeYear (year + 1) = daysBeforeYear year + daysInYear year := by
  have hleap : isLeapYear year = true ↔ (year % 4 = 0 ∧ ¬ year % 100 = 0) ∨ year % 400 = 0 := by
    simp [isLeapYear]
  simp only [daysBeforeYear, daysInYear]
  by_cases h : isLeapYear year = true
  · rw [if_pos h]
    rw [hleap] at h
    omega
  · rw [if_neg h]
    rw [hleap] at h
    omega

private theorem daysInYear_pos (year : Int) : 0 < daysInYear year := by
  unfold daysInYear
  split <;> decide

/-- The mean length of a year is 365.2425 days, so the guess is off by at most one. -/
theorem guess_bounds {n year : Int} (hlow : daysBeforeYear year ≤ n)
    (hhigh : n < daysBeforeYear (year + 1)) :
    year - 1 ≤ n * 400 / 146097 + 1 ∧ n * 400 / 146097 + 1 ≤ year + 1 := by
  simp only [daysBeforeYear] at hlow hhigh
  omega

/-- A day falls in the year between whose first day and the next year's it lies. -/
theorem yearOf_eq {n year : Int} (hlow : daysBeforeYear year ≤ n)
    (hhigh : n < daysBeforeYear (year + 1)) : yearOf n = year := by
  obtain ⟨hguessLow, hguessHigh⟩ := guess_bounds hlow hhigh
  have hbefore := daysBeforeYear_succ (year - 1)
  rw [Int.sub_add_cancel] at hbefore
  have hpos := daysInYear_pos (year - 1)
  unfold yearOf
  generalize n * 400 / 146097 + 1 = guess at hguessLow hguessHigh
  dsimp only
  obtain rfl | rfl | rfl : guess = year - 1 ∨ guess = year ∨ guess = year + 1 := by omega
  · rw [if_neg (by omega), Int.sub_add_cancel, if_pos hlow]
  · rw [if_neg (by omega), if_neg (by omega)]
  · rw [if_pos hhigh, Int.add_sub_cancel]

/-! ## Months -/

/-- A day is found in the part of a row of lengths that it lies in. -/
theorem monthAndDay_eq {lengths : List Nat} {i day : Nat} (h : day < lengths.getD i 0)
    (first : Nat) :
    monthAndDay first lengths (total (lengths.take i) + day) = (first + i, day + 1) := by
  induction lengths generalizing i first with
  | nil => simp at h
  | cons length lengths ih =>
    cases i with
    | zero => simp_all [monthAndDay, total]
    | succ i =>
      have hbehind : ¬ total ((length :: lengths).take (i + 1)) + day < length := by
        simp [total]
        omega
      have hrest : total ((length :: lengths).take (i + 1)) + day - length =
          total (lengths.take i) + day := by
        simp only [List.take_succ_cons, total]
        omega
      rw [monthAndDay, if_neg hbehind, hrest, ih (by simpa using h)]
      congr 1
      omega

private theorem total_take_add_lt {lengths : List Nat} {i day : Nat} (h : day < lengths.getD i 0) :
    total (lengths.take i) + day < total lengths := by
  induction lengths generalizing i with
  | nil => simp at h
  | cons length lengths ih =>
    cases i with
    | zero =>
      simp_all [total]
      omega
    | succ i =>
      have hrest := ih (by simpa using h)
      simp only [List.take_succ_cons, total]
      omega

/-! ## Dates -/

/-- A date lies in its year, at its place in its month. -/
theorem place_lt (d : Date) : d.day - 1 < (monthLengths d.year).getD (d.month - 1) 0 := by
  obtain ⟨⟨hmonth, -⟩, -⟩ := d.isDate.bounds
  obtain ⟨-, -, hday, hlength⟩ := d.isDate
  rw [daysInMonth, if_neg (by omega)] at hlength
  omega

/-- A date's day number counts its year from its first day. -/
theorem dayNumber_eq (d : Date) :
    d.dayNumber = daysBeforeYear d.year + (daysBeforeMonth d.year d.month + (d.day - 1) : Nat) ∧
      daysBeforeMonth d.year d.month + (d.day - 1) < daysInYear d.year := by
  constructor
  · obtain ⟨-, -, hday, -⟩ := d.isDate
    rw [dayNumber]
    omega
  · rw [← total_monthLengths]
    exact total_take_add_lt d.place_lt

/-- The date of a date's day number is that date. -/
theorem ofDayNumber?_dayNumber (d : Date) : ofDayNumber? d.dayNumber = some d := by
  obtain ⟨hnumber, hinside⟩ := d.dayNumber_eq
  obtain ⟨⟨hmonth, -⟩, -⟩ := d.isDate.bounds
  obtain ⟨-, -, hday, -⟩ := id d.isDate
  have hyear : yearOf d.dayNumber = d.year := by
    apply yearOf_eq
    · omega
    · rw [daysBeforeYear_succ]
      omega
  -- The day of the year, counted from 0.
  have hoffset : (d.dayNumber - daysBeforeYear d.year).toNat =
      daysBeforeMonth d.year d.month + (d.day - 1) := by omega
  rw [ofDayNumber?, hyear, hoffset, daysBeforeMonth, monthAndDay_eq d.place_lt]
  simp only
  rw [show 1 + (d.month - 1) = d.month by omega, show d.day - 1 + 1 = d.day by omega, make?,
    dif_pos d.isDate]

end Date

end SheetTemplate
