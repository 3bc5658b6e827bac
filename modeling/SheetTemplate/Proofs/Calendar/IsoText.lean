import SheetTemplate.Calendar.Iso
import SheetTemplate.Proofs.Calendar.DayNumber
import SheetTemplate.Proofs.Text.Blank
import SheetTemplate.Proofs.Text.Numeral
import SheetTemplate.Proofs.Text.Run
/-!
The text of a point in time is read back, apart from the fraction of its second. A text is read in
the first of three forms that fits: a date and a time with the letter `T` between them, the same
with white space between them, and a date alone.
-/
namespace SheetTemplate

def TimeOfDay.wholeSeconds (t : TimeOfDay) : TimeOfDay where
  hour := t.hour
  minute := t.minute
  second := t.second
  nano := 0
  isTime := ⟨t.isTime.1, t.isTime.2.1, t.isTime.2.2.1, by decide⟩

def DateTime.wholeSeconds (d : DateTime) : DateTime :=
  ⟨d.date, d.time.wholeSeconds⟩

private theorem DateTime.wholeSeconds_eq_self {d : DateTime} (h : d.time.nano = 0) :
    d.wholeSeconds = d := by
  obtain ⟨date, hour, minute, second, nano, htime⟩ := d
  obtain rfl : nano = 0 := h
  rfl

namespace Iso

/-! ## Numerals -/

private theorem isBlank_of_isDigit {c : Char} (h : Text.isDigit c = true) :
    Text.isBlank c = false := by
  have hbounds := Text.bounds_of_isDigit h
  exact Text.isBlank_eq_false hbounds.1 (by omega)

/-- A numeral has no white space in front. -/
theorem dropBlanks_padded (width n : Nat) (rest : List Char) :
    ((Text.padded width n).toList ++ rest).dropWhile Text.isBlank =
      (Text.padded width n).toList ++ rest := by
  obtain ⟨c, cs, hcs⟩ := List.exists_cons_of_ne_nil (Text.padded_ne_nil width n)
  have hdigit : Text.isDigit c = true := Text.isDigit_of_mem_padded (hcs ▸ List.mem_cons_self)
  rw [hcs, List.cons_append]
  exact List.dropWhile_cons_of_neg (by simp [isBlank_of_isDigit hdigit])

/-- A numeral of the full width is read, whatever follows it. -/
theorem field?_padded {width n : Nat} (hwidth : 0 < width) (h : n < tenTo width)
    (rest : List Char) : field? width ((Text.padded width n).toList ++ rest) = some (n, rest) := by
  have hlength := Text.length_padded hwidth h
  have hdigits : (Text.padded width n).toList.takeWhile Text.isDigit =
      (Text.padded width n).toList :=
    List.takeWhile_eq_self_iff.2 fun c => Text.isDigit_of_mem_padded
  rw [field?, dropBlanks_padded]
  have htake : ((Text.padded width n).toList ++ rest).take width =
      (Text.padded width n).toList := List.take_left' hlength
  simp only [htake, hdigits, Text.natural?_padded, Option.map_some, List.drop_left]

/-- All digits of a numeral are read, up to a character that is no digit. -/
theorem digits_padded {c : Char} (hc : Text.isDigit c = false) (width n : Nat)
    (rest : List Char) : year?.digits ((Text.padded width n).toList ++ c :: rest) =
      some (n, c :: rest) := by
  have hdigits : ∀ a ∈ (Text.padded width n).toList, Text.isDigit a = true :=
    fun a => Text.isDigit_of_mem_padded
  rw [year?.digits, Text.takeWhile_append_cons hdigits hc, Text.dropWhile_append_cons hdigits hc,
    Text.natural?_padded, Option.map_some]

/-! ## Dates and times -/

/-- The year is read with its sign; it has to be cut off by a character that is no digit. -/
theorem year?_yearText {c : Char} (hc : Text.isDigit c = false) (year : Int)
    (rest : List Char) :
    year? ((Date.yearText year).toList ++ c :: rest) = some (year, c :: rest) := by
  unfold Date.yearText
  by_cases hplain : 0 ≤ year ∧ year ≤ 9999
  · have hfit : year.natAbs < tenTo 4 := by
      have htenTo : tenTo 4 = 10000 := rfl
      omega
    have hread := field?_padded (by decide) hfit (c :: rest)
    have hsign : ∀ d ∈ ((Text.padded 4 year.natAbs).toList ++ c :: rest).head?,
        d ≠ '-' ∧ d ≠ '+' := by
      obtain ⟨d, ds, hds⟩ := List.exists_cons_of_ne_nil (Text.padded_ne_nil 4 year.natAbs)
      have hdigit := Text.bounds_of_isDigit
        (Text.isDigit_of_mem_padded (hds ▸ List.mem_cons_self : d ∈ _))
      rw [hds]
      rintro d ⟨rfl⟩
      constructor <;> rintro rfl <;> revert hdigit <;> decide
    rw [if_pos hplain, year?, dropBlanks_padded]
    split
    · rename_i hcs
      exact absurd rfl (hsign '-' (by rw [hcs]; rfl)).1
    · rename_i hcs
      exact absurd rfl (hsign '+' (by rw [hcs]; rfl)).2
    · rw [hread, Option.map_some]
      dsimp only
      rw [show (year.natAbs : Int) = year by omega]
  · have hread := digits_padded hc 4 year.natAbs rest
    rw [if_neg hplain]
    by_cases hneg : year < 0
    · rw [if_pos hneg, String.toList_append, List.append_assoc, year?,
        show "-".toList = ['-'] from rfl, List.singleton_append,
        List.dropWhile_cons_of_neg (by decide)]
      simp only [hread, Option.map_some]
      rw [show -(year.natAbs : Int) = year by omega]
    · rw [if_neg hneg, String.toList_append, List.append_assoc, year?,
        show "+".toList = ['+'] from rfl, List.singleton_append,
        List.dropWhile_cons_of_neg (by decide)]
      simp only [hread, Option.map_some]
      rw [show (year.natAbs : Int) = year by omega]

/-- A numeral of two digits is read, whatever follows it. -/
theorem field?_two {n : Nat} (h : n ≤ 99) (rest : List Char) :
    field? 2 ((Text.padded 2 n).toList ++ rest) = some (n, rest) := by
  have htenTo : tenTo 2 = 100 := rfl
  exact field?_padded (by decide) (by omega) rest

theorem expect?_self (c : Char) (rest : List Char) : expect? c (c :: rest) = some rest :=
  if_pos rfl

/-- The text of a date is read, whatever follows it. -/
theorem date?_text (d : Date) (rest : List Char) :
    date? (d.text.toList ++ rest) = some (d, rest) := by
  obtain ⟨year, month, day, hdate⟩ := d
  obtain ⟨⟨-, hmonth⟩, hday⟩ := hdate.bounds
  have hshape : (Date.text ⟨year, month, day, hdate⟩).toList ++ rest =
      (Date.yearText year).toList ++ '-' :: ((Text.padded 2 month).toList ++
        '-' :: ((Text.padded 2 day).toList ++ rest)) := by
    simp [Date.text]
  rw [hshape, date?, year?_yearText (by decide)]
  simp only [Option.bind_eq_bind, Option.bind_some, expect?_self,
    field?_two (show month ≤ 99 by omega), field?_two (show day ≤ 99 by omega), Date.make?,
    dif_pos hdate]
  rfl

/-- The text of a time of day is read, without the fraction that it does not show. -/
theorem time?_text (t : TimeOfDay) : time? t.text.toList = some t.wholeSeconds := by
  obtain ⟨hour, minute, second, nano, htime⟩ := t
  obtain ⟨hhour, hminute, hsecond, -⟩ := id htime
  have hshape : (TimeOfDay.text ⟨hour, minute, second, nano, htime⟩).toList =
      (Text.padded 2 hour).toList ++ ':' :: ((Text.padded 2 minute).toList ++
        ':' :: ((Text.padded 2 second).toList ++ [])) := by
    simp [TimeOfDay.text]
  rw [hshape, time?]
  simp only [Option.bind_eq_bind, Option.bind_some, expect?_self,
    field?_two (show hour ≤ 99 by omega), field?_two (show minute ≤ 99 by omega),
    field?_two (show second ≤ 99 by omega), fraction?, List.isEmpty_nil, if_true,
    TimeOfDay.make?]
  rw [dif_pos ⟨hhour, hminute, hsecond, by decide⟩]
  rfl

/-! ## The three forms -/

/-- A date, the letter `T` and a time. -/
def lettered? (cs : List Char) : Option DateTime := do
  let (date, rest) ← date? cs
  let rest ← expect? 'T' rest
  return ⟨date, ← time? rest⟩

/-- A date and a time, with white space between them. -/
def spaced? (cs : List Char) : Option DateTime := do
  let (date, rest) ← date? cs
  return ⟨date, ← time? (rest.dropWhile Text.isBlank)⟩

def bare? (cs : List Char) : Option DateTime := do
  let (date, rest) ← date? cs
  if rest.isEmpty then some ⟨date, TimeOfDay.midnight⟩ else none

/-- A time has to begin with a digit, after white space. -/
theorem time?_eq_none {cs : List Char}
    (h : ∀ c ∈ (cs.dropWhile Text.isBlank).head?, Text.isDigit c = false) : time? cs = none := by
  have hfield : field? 2 cs = none := by
    rw [field?]
    cases hcs : cs.dropWhile Text.isBlank with
    | nil => rfl
    | cons c rest =>
      rw [hcs] at h
      simp [h c rfl, Text.natural?]
  rw [time?, hfield]
  rfl

private theorem time?_dropBlanks (cs : List Char) :
    time? (cs.dropWhile Text.isBlank) = time? cs := by
  have hfield : field? 2 (cs.dropWhile Text.isBlank) = field? 2 cs := by
    rw [field?, field?, List.dropWhile_idempotent]
  rw [time?, time?, hfield]

/-- A text is read in the first of the three forms that fits. -/
theorem read?_eq_first (s : String) :
    read? s = (lettered? s.toList <|> spaced? s.toList <|> bare? s.toList) := by
  rw [read?, lettered?, spaced?, bare?]
  cases hdate : date? s.toList with
  | none => rfl
  | some found =>
    obtain ⟨date, rest⟩ := found
    simp only [Option.bind_eq_bind, Option.bind_some, time?_dropBlanks]
    by_cases hempty : rest = []
    · subst hempty
      rw [time?_eq_none (by simp)]
      rfl
    · obtain ⟨c, rest, rfl⟩ := List.exists_cons_of_ne_nil hempty
      by_cases hletter : c = 'T'
      · subst hletter
        have hspaced : time? ('T' :: rest) = none := time?_eq_none (by
          rw [List.dropWhile_cons_of_neg (by decide)]
          rintro c ⟨rfl⟩
          decide)
        rw [expect?_self, hspaced]
        cases htime : time? rest <;> simp [htime]
      · have hmark : expect? 'T' (c :: rest) = none := if_neg hletter
        rw [hmark]
        split
        · contradiction
        · simp_all
        · cases time? (c :: rest) <;> rfl

/-! ## Reading what is shown -/

/-- A date with a time is shown in the first form. -/
theorem lettered?_render {d : DateTime} (h : d.isMidnight = false) :
    lettered? d.render.toList = some d.wholeSeconds := by
  have hshape : d.render.toList = d.date.text.toList ++ 'T' :: d.time.text.toList := by
    simp [DateTime.render, h]
  rw [hshape, lettered?, date?_text]
  simp only [Option.bind_eq_bind, Option.bind_some, expect?_self, time?_text]
  rfl

/-- A date at midnight is shown in the last form, and in none of the others. -/
theorem bare?_render {d : DateTime} (h : d.isMidnight = true) :
    lettered? d.render.toList = none ∧ spaced? d.render.toList = none ∧
      bare? d.render.toList = some d.wholeSeconds := by
  have htime : d.time = TimeOfDay.midnight := of_decide_eq_true h
  have hdate := date?_text d.date []
  have hshape : d.render.toList = d.date.text.toList ++ [] := by simp [DateTime.render, h]
  rw [hshape, lettered?, spaced?, bare?, hdate, DateTime.wholeSeconds, htime]
  exact ⟨rfl, rfl, rfl⟩

/-- What is shown of a point in time is read as that point in time, apart from the fraction of
its second. -/
theorem read?_render (d : DateTime) :
    read? d.render = some d.wholeSeconds ∧ (d.time.nano = 0 → read? d.render = some d) := by
  have hread : read? d.render = some d.wholeSeconds := by
    rw [read?_eq_first]
    cases h : d.isMidnight with
    | false =>
      rw [lettered?_render h]
      rfl
    | true =>
      obtain ⟨hlettered, hspaced, hbare⟩ := bare?_render h
      rw [hlettered, hspaced, hbare]
      rfl
  exact ⟨hread, fun hnano => by rw [hread, DateTime.wholeSeconds_eq_self hnano]⟩

/-- A leap second at the end of a year before 0. -/
def leapEve : DateTime :=
  ⟨⟨-44, 12, 31, by decide⟩, ⟨23, 59, 60, 0, by decide⟩⟩

theorem leapEve_read?_render : leapEve.time.nano = 0 ∧ leapEve.render = "-0044-12-31T23:59:60" ∧
    read? leapEve.render = some leapEve :=
  ⟨rfl, by decide +kernel, (read?_render leapEve).2 rfl⟩

end Iso

end SheetTemplate
