import Mathlib.Algebra.Group.Int.Defs

/-!
Days of the Gregorian calendar, numbered from the first of January 1970. Years are counted from
March, in eras of 400 years, so that a leap day is the last day of its year.
-/
namespace Calendar

structure Date where
  year : Int
  /-- From 1 to 12. -/
  month : Int
  day : Int
deriving DecidableEq

/-- Days before a year of an era. -/
def daysBefore (yoe : Int) : Int := 365 * yoe + yoe / 4 - yoe / 100

/-- The number of a day; one beyond the end of its month belongs to the next. -/
def daysFromCivil (date : Date) : Int :=
  let year := if date.month ≤ 2 then date.year - 1 else date.year
  let mp := (date.month + 9) % 12
  year / 400 * 146097 + daysBefore (year % 400) + (153 * mp + 2) / 5 + date.day - 719469

/-- The year of an era in which a day of the era is, and the day of that year. -/
def yearOfEra (doe : Int) : Int × Int :=
  let century := min (doe / 36524) 3
  let doc := doe - 36524 * century
  let doq := doc % 1461
  let year := min (doq / 365) 3
  (100 * century + 4 * (doc / 1461) + year, doq - 365 * year)

/-- The date of a day of a year, both counted from March. -/
def ofParts (era yoe doy : Int) : Date :=
  let mp := (5 * doy + 2) / 153
  let month := if mp < 10 then mp + 3 else mp - 9
  let year := 400 * era + yoe
  { year := if month ≤ 2 then year + 1 else year
    month := month
    day := doy - (153 * mp + 2) / 5 + 1 }

/-- The date of a day. -/
def civilFromDays (days : Int) : Date :=
  let doe := (days + 719468) % 146097
  ofParts ((days + 719468) / 146097) (yearOfEra doe).1 (yearOfEra doe).2

/-- The parts of a day of an era make up the day. -/
theorem yearOfEra_spec (doe : Int) (h0 : 0 ≤ doe) (h1 : doe < 146097) :
    0 ≤ (yearOfEra doe).1 ∧ (yearOfEra doe).1 < 400 ∧ 0 ≤ (yearOfEra doe).2 ∧
      (yearOfEra doe).2 ≤ 365 ∧ daysBefore (yearOfEra doe).1 + (yearOfEra doe).2 = doe := by
  simp only [yearOfEra, daysBefore]
  generalize hc : min (doe / 36524) 3 = century
  have hcentury : 0 ≤ century ∧ century ≤ 3 := by omega
  generalize hdoc : doe - 36524 * century = doc
  have hdocb : 0 ≤ doc ∧ doc ≤ 36524 := by omega
  generalize hq : doc / 1461 = quad
  have hquad : 0 ≤ quad ∧ quad ≤ 24 := by omega
  generalize hdoq : doc % 1461 = doq
  have hdoqb : 0 ≤ doq ∧ doq ≤ 1460 ∧ doc = 1461 * quad + doq := by omega
  generalize hy : min (doq / 365) 3 = year
  have hyear : 0 ≤ year ∧ year ≤ 3 := by omega
  have h4 : (100 * century + 4 * quad + year) / 4 = 25 * century + quad := by omega
  have h100 : (100 * century + 4 * quad + year) / 100 = century := by omega
  rw [h4, h100]
  omega

variable {era yoe doy : Int}

/-- The months from March to December, and January and February of the next year. -/
theorem ofParts_cases (era yoe : Int) (h0 : 0 ≤ doy) (h1 : doy ≤ 365) : ∃ mp,
    0 ≤ mp ∧ mp ≤ 11 ∧ (153 * mp + 2) / 5 ≤ doy ∧ doy - (153 * mp + 2) / 5 ≤ 30 ∧
      (mp < 10 ∧ ofParts era yoe doy =
          ⟨400 * era + yoe, mp + 3, doy - (153 * mp + 2) / 5 + 1⟩ ∨
        10 ≤ mp ∧ ofParts era yoe doy =
          ⟨400 * era + yoe + 1, mp - 9, doy - (153 * mp + 2) / 5 + 1⟩) := by
  refine ⟨(5 * doy + 2) / 153, by omega, by omega, by omega, by omega, ?_⟩
  have hmp : 0 ≤ (5 * doy + 2) / 153 ∧ (5 * doy + 2) / 153 ≤ 11 := by omega
  simp only [ofParts]
  generalize (5 * doy + 2) / 153 = mp at hmp
  by_cases hm : mp < 10
  · have hmonth : ¬ mp + 3 ≤ 2 := by omega
    simp only [hm, if_true, hmonth, if_false]
    simp
  · have hmonth : mp - 9 ≤ 2 := by omega
    simp only [hm, if_false, hmonth, if_true]
    simp
    omega

/-- The number of such a date. -/
theorem daysFromCivil_ofParts (hy0 : 0 ≤ yoe) (hy1 : yoe < 400) (h0 : 0 ≤ doy) (h1 : doy ≤ 365) :
    daysFromCivil (ofParts era yoe doy) = era * 146097 + daysBefore yoe + doy - 719468 := by
  have hyear : (400 * era + yoe) / 400 = era ∧ (400 * era + yoe) % 400 = yoe := by omega
  obtain ⟨mp, hmp0, hmp1, -, -, ⟨hm, hdate⟩ | ⟨hm, hdate⟩⟩ := ofParts_cases era yoe h0 h1
  · have hmonth : ¬ mp + 3 ≤ 2 := by omega
    have hback : (mp + 3 + 9) % 12 = mp := by omega
    simp only [hdate, daysFromCivil, hmonth, if_false, hback, hyear.1, hyear.2]
    omega
  · have hmonth : mp - 9 ≤ 2 := by omega
    have hback : (mp - 9 + 9) % 12 = mp := by omega
    have hone : 400 * era + yoe + 1 - 1 = 400 * era + yoe := by omega
    simp only [hdate, daysFromCivil, hmonth, if_true, hback, hone, hyear.1, hyear.2]
    omega

/-- The number of the date of a day is that of the day. -/
theorem daysFromCivil_civilFromDays (days : Int) : daysFromCivil (civilFromDays days) = days := by
  obtain ⟨hy0, hy1, hd0, hd1, hdoe⟩ :=
    yearOfEra_spec ((days + 719468) % 146097) (by omega) (by omega)
  rw [civilFromDays, daysFromCivil_ofParts hy0 hy1 hd0 hd1, Int.add_assoc, hdoe]
  omega

/-- The date of a day is valid. -/
theorem civilFromDays_bounds (days : Int) :
    1 ≤ (civilFromDays days).month ∧ (civilFromDays days).month ≤ 12 ∧
      1 ≤ (civilFromDays days).day ∧ (civilFromDays days).day ≤ 31 := by
  obtain ⟨-, -, hd0, hd1, -⟩ :=
    yearOfEra_spec ((days + 719468) % 146097) (by omega) (by omega)
  rw [civilFromDays]
  generalize (days + 719468) / 146097 = era
  generalize (yearOfEra ((days + 719468) % 146097)).1 = yoe
  obtain ⟨mp, hmp0, hmp1, hlo, hhi, ⟨hm, hdate⟩ | ⟨hm, hdate⟩⟩ :=
    ofParts_cases era yoe hd0 hd1
  · simp only [hdate]
    omega
  · simp only [hdate]
    omega

/-- The years from 1600 on, for about 800 years. -/
theorem civilFromDays_year {days : Int} (h0 : 0 ≤ days) (h1 : days < 150000) :
    1600 ≤ (civilFromDays days).year ∧ (civilFromDays days).year ≤ 2400 := by
  obtain ⟨hy0, hy1, hd0, hd1, -⟩ :=
    yearOfEra_spec ((days + 719468) % 146097) (by omega) (by omega)
  rw [civilFromDays]
  generalize hera : (days + 719468) / 146097 = era
  generalize (yearOfEra ((days + 719468) % 146097)).1 = yoe at *
  obtain ⟨mp, -, -, -, -, ⟨-, hdate⟩ | ⟨-, hdate⟩⟩ :=
    ofParts_cases era yoe hd0 hd1
  · simp only [hdate]
    omega
  · simp only [hdate]
    omega

end Calendar
