import Durable.Time.Calendar
import Mathlib.Tactic.IntervalCases

/-!
# Days and dates

The date of a day is valid, and leads back to the day.  A day of an era of four hundred
years is told by its century, by its cycle of four years and by the day of that cycle; on
these the rule for the year can be checked.
-/

namespace Durable

namespace Calendar

/-- The years of an era before a day of it. -/
private def yearOfEra (dayOfEra : Nat) : Nat :=
  (dayOfEra - dayOfEra / 1460 + dayOfEra / 36524 - dayOfEra / 146096) / 365

/-- A day of an era by century, by cycle of four years and by day of the cycle.  The last
cycle of a century is a day short, except at the end of the era. -/
private theorem exists_cycle {dayOfEra : Nat} (inEra : dayOfEra < 146097) :
    ∃ century cycle day, century < 4 ∧ cycle < 25 ∧ day < 1461 ∧
      (century = 3 ∨ cycle < 24 ∨ day < 1460) ∧
      dayOfEra = 36524 * century + 1461 * cycle + day := by
  by_cases last : dayOfEra = 146096
  · exact ⟨3, 24, 1460, by omega⟩
  · exact ⟨dayOfEra / 36524, dayOfEra % 36524 / 1461, dayOfEra % 36524 % 1461, by omega⟩

private theorem yearOfEra_cycle {century cycle day : Nat} (centuries : century < 4)
    (cycles : cycle < 25) (days : day < 1461)
    (short : century = 3 ∨ cycle < 24 ∨ day < 1460) :
    yearOfEra (36524 * century + 1461 * cycle + day) =
      100 * century + 4 * cycle + min (day / 365) 3 := by
  have fourth : (36524 * century + 1461 * cycle + day) / 1460 =
      25 * century + cycle + (if 1460 ≤ 24 * century + cycle + day then 1 else 0) := by
    split <;> omega
  have hundredth : (36524 * century + 1461 * cycle + day) / 36524 =
      century + (if century = 3 ∧ cycle = 24 ∧ day = 1460 then 1 else 0) := by
    split <;> omega
  have whole : (36524 * century + 1461 * cycle + day) / 146096 =
      if century = 3 ∧ cycle = 24 ∧ day = 1460 then 1 else 0 := by
    split <;> omega
  rw [yearOfEra, fourth, hundredth, whole]
  split <;> split <;> omega

private theorem yearOfEra_spec {dayOfEra : Nat} (inEra : dayOfEra < 146097) :
    ∃ dayOfYear, yearOfEra dayOfEra < 400 ∧ dayOfYear ≤ 365 ∧
      dayOfEra = 365 * yearOfEra dayOfEra + yearOfEra dayOfEra / 4 - yearOfEra dayOfEra / 100
        + dayOfYear ∧
      (dayOfYear = 365 → (yearOfEra dayOfEra + 1) % 4 = 0 ∧
        ((yearOfEra dayOfEra + 1) % 100 ≠ 0 ∨ yearOfEra dayOfEra = 399)) := by
  obtain ⟨century, cycle, day, centuries, cycles, days, short, rfl⟩ := exists_cycle inEra
  rw [yearOfEra_cycle centuries cycles days short]
  obtain ⟨year, yearIs⟩ : ∃ year, year = min (day / 365) 3 := ⟨_, rfl⟩
  have years : year ≤ 3 ∧ 365 * year ≤ day ∧ day ≤ 365 * year + 365 := by omega
  rw [← yearIs]
  have cyclesBefore : (100 * century + 4 * cycle + year) / 4 = 25 * century + cycle := by omega
  have centuriesBefore : (100 * century + 4 * cycle + year) / 100 = century := by omega
  rw [cyclesBefore, centuriesBefore]
  refine ⟨day - 365 * year, by omega, by omega, by omega, fun last => ⟨by omega, by omega⟩⟩

/-- The month that begins the given number of months after March. -/
private def monthAfterMarch (months : Nat) : Nat :=
  if months < 10 then months + 3 else months - 9

private theorem monthAfterMarch_spec {months : Nat} (inYear : months < 12) :
    1 ≤ monthAfterMarch months ∧ monthAfterMarch months ≤ 12 ∧
      daysBeforeMonth (monthAfterMarch months) = (153 * months + 2) / 5 := by
  interval_cases months <;> decide

private theorem daysInMonth_afterMarch (year : Int) {months : Nat} (early : months < 11) :
    daysInMonth year (monthAfterMarch months) =
      (153 * (months + 1) + 2) / 5 - (153 * months + 2) / 5 := by
  interval_cases months <;> rfl

private theorem isLeap_iff (year : Int) :
    isLeap year = true ↔ year % 4 = 0 ∧ (year % 100 ≠ 0 ∨ year % 400 = 0) := by
  simp [isLeap]

/-- The date of a day is valid, and the day is found again from its date. -/
theorem ofDays_spec (days : Int) :
    (ofDays days).Valid ∧ toDays (ofDays days) = days := by
  obtain ⟨dayOfEra, eraDay⟩ : ∃ dayOfEra, dayOfEra = ((days + 719468) % 146097).toNat := ⟨_, rfl⟩
  obtain ⟨era, eraIs⟩ : ∃ era, era = (days + 719468) / 146097 := ⟨_, rfl⟩
  have inEra : dayOfEra < 146097 := by omega
  obtain ⟨dayOfYear, years, inYear, split, leap⟩ := yearOfEra_spec inEra
  obtain ⟨year, yearIs⟩ : ∃ year, year = yearOfEra dayOfEra := ⟨_, rfl⟩
  rw [← yearIs] at years split leap
  obtain ⟨months, monthsIs⟩ : ∃ months, months = (5 * dayOfYear + 2) / 153 := ⟨_, rfl⟩
  have inMarchYear : months < 12 := by omega
  have dayIs : dayOfEra - (365 * year + year / 4 - year / 100) = dayOfYear := by omega
  have date : ofDays days =
      ⟨if monthAfterMarch months ≤ 2 then year + era * 400 + 1 else year + era * 400,
        monthAfterMarch months, dayOfYear - (153 * months + 2) / 5 + 1⟩ := by
    simp only [ofDays, ← eraDay]
    rw [monthsIs, ← dayIs, yearIs, eraIs]
    rfl
  obtain ⟨monthFrom, monthTo, before⟩ := monthAfterMarch_spec inMarchYear
  rw [date]
  constructor
  · refine ⟨monthFrom, monthTo, Nat.le_add_left 1 _, ?_⟩
    by_cases early : months < 11
    · rw [daysInMonth_afterMarch _ early]
      simp only
      omega
    · obtain rfl : months = 11 := by omega
      have february : monthAfterMarch 11 = 2 := rfl
      rw [february]
      simp only [daysInMonth, Nat.le_refl, if_true]
      split
      · omega
      · next common =>
          rw [isLeap_iff] at common
          have short : dayOfYear ≠ 365 := by
            intro last
            obtain ⟨fourth, hundredth⟩ := leap last
            apply common
            omega
          omega
  · simp only [toDays, before]
    have marchYear : (if monthAfterMarch months ≤ 2 then
        (if monthAfterMarch months ≤ 2 then (year : Int) + era * 400 + 1 else year + era * 400) - 1
        else (if monthAfterMarch months ≤ 2 then year + era * 400 + 1 else year + era * 400)) =
        year + era * 400 := by
      split <;> omega
    rw [marchYear]
    clear marchYear date leap
    have fourths : ((year : Int) + era * 400) / 4 = (year / 4 : Nat) + era * 100 := by omega
    have hundredths : ((year : Int) + era * 400) / 100 = (year / 100 : Nat) + era * 4 := by omega
    have wholes : ((year : Int) + era * 400) / 400 = era := by omega
    have inEraDays : days + 719468 = era * 146097 + dayOfEra := by omega
    rw [fourths, hundredths, wholes]
    omega

end Calendar

end Durable
