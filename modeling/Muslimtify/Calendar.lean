import Muslimtify.CivilDays
import Mathlib.Logic.Function.Iterate
import Mathlib.Tactic.IntervalCases

/-!
# The Gregorian calendar

The calendar told by its leap years, the lengths of its months and the day after
a date. The day number of the day after is the next one, and a day number names
the date it is the number of, so counting up from the number of a date lists the
calendar from that date on.
-/
namespace Muslimtify.Calendar
open CivilDays

/-- Every fourth year, and of the full centuries every fourth. -/
def LeapYear (year : ℤ) : Prop := year % 4 = 0 ∧ (year % 100 ≠ 0 ∨ year % 400 = 0)

instance (year : ℤ) : Decidable (LeapYear year) := by
  unfold LeapYear
  infer_instance

def monthLength (year month : ℤ) : ℤ :=
  if month = 2 then if LeapYear year then 29 else 28
  else if month = 4 ∨ month = 6 ∨ month = 9 ∨ month = 11 then 30 else 31

/-- A date that the calendar has. -/
structure Gregorian (t : CivilDate) : Prop where
  month : 1 ≤ t.month ∧ t.month ≤ 12
  day : 1 ≤ t.day ∧ t.day ≤ monthLength t.year t.month

/-- The day after. -/
def nextDay (t : CivilDate) : CivilDate :=
  if t.day < monthLength t.year t.month then ⟨t.year, t.month, t.day + 1⟩
  else if t.month < 12 then ⟨t.year, t.month + 1, 1⟩
  else ⟨t.year + 1, 1, 1⟩

example : nextDay ⟨2000, 2, 28⟩ = ⟨2000, 2, 29⟩ ∧ nextDay ⟨1900, 2, 28⟩ = ⟨1900, 3, 1⟩ := by decide

def dayNumber (t : CivilDate) : ℤ := mtDaysFromCivil t.year t.month t.day

section Dates
variable {t u : CivilDate}

theorem monthLength_bounds (year month : ℤ) :
    28 ≤ monthLength year month ∧ monthLength year month ≤ 31 := by
  unfold monthLength
  split_ifs <;> decide

theorem Gregorian.day_le (h : Gregorian t) : t.day ≤ 31 :=
  h.day.2.trans (monthLength_bounds _ _).2

theorem Gregorian.succ (h : Gregorian t) : Gregorian (nextDay t) := by
  have hm := h.month
  have hd := h.day
  unfold nextDay
  split_ifs with hlast hyear
  · exact ⟨hm, by dsimp only; omega⟩
  · have hlength := monthLength_bounds t.year (t.month + 1)
    exact ⟨by dsimp only; omega, by dsimp only; omega⟩
  · have hlength := monthLength_bounds (t.year + 1) 1
    exact ⟨⟨le_refl _, by dsimp only; omega⟩, by dsimp only; omega⟩

/-- The day number of the day before the first of a month. -/
def monthStart (year month : ℤ) : ℤ :=
  365 * marchYear year month + marchYear year month / 4 - marchYear year month / 100 +
    marchYear year month / 400 + (153 * marchMonth month + 2) / 5 - 719469

theorem Gregorian.dayNumber_eq (h : Gregorian t) :
    dayNumber t = monthStart t.year t.month + t.day := by
  rw [dayNumber, mtDaysFromCivil_eq h.month ⟨h.day.1, h.day_le⟩, monthStart]
  ring

/-- The months follow one another. -/
theorem monthStart_succ {year month : ℤ} (h : 1 ≤ month ∧ month < 12) :
    monthStart year (month + 1) = monthStart year month + monthLength year month := by
  obtain ⟨h₁, h₂⟩ := h
  unfold monthStart monthLength LeapYear
  -- at the end of February the year counted from March changes
  interval_cases month <;> simp [marchYear, marchMonth] <;> omega

theorem monthStart_year (year : ℤ) : monthStart (year + 1) 1 = monthStart year 12 + 31 := by
  simp [monthStart, marchYear, marchMonth]
  omega

/-- The number of the day after is the next one. -/
theorem Gregorian.dayNumber_nextDay (h : Gregorian t) :
    dayNumber (nextDay t) = dayNumber t + 1 := by
  have hm := h.month
  have hd := h.day
  rw [h.succ.dayNumber_eq, h.dayNumber_eq, nextDay]
  split_ifs with hlast hyear
  · exact (add_assoc _ _ _).symm
  · dsimp only
    rw [monthStart_succ ⟨hm.1, hyear⟩]
    omega
  · have hdec : t.month = 12 := by omega
    have hlength : monthLength t.year 12 = 31 := rfl
    rw [hdec, hlength] at hlast hd
    dsimp only
    rw [monthStart_year, hdec]
    omega

/-- A day number names the date it is the number of. -/
theorem Gregorian.mtCivilFromDays_dayNumber (h : Gregorian t) :
    mtCivilFromDays (dayNumber t) = t := by
  obtain ⟨y, m, d⟩ := t
  have hm := h.month
  have hd := h.day
  have hnumber := h.dayNumber_eq
  simp only [monthStart] at hm hd hnumber
  have hday : (153 * marchMonth m + 2) / 5 + d - 1 ≤ 365 ∧ 0 ≤ (153 * marchMonth m + 2) / 5 + d - 1 ∧
      ((153 * marchMonth m + 2) / 5 + d - 1 = 365 → LeapYear (marchYear y m + 1)) ∧
      (5 * ((153 * marchMonth m + 2) / 5 + d - 1) + 2) / 153 = marchMonth m := by
    obtain ⟨hm₁, hm₂⟩ := hm
    unfold monthLength at hd
    unfold LeapYear at hd ⊢
    interval_cases m <;> simp [marchYear, marchMonth] at hd ⊢ <;> omega
  obtain ⟨h₁, h₀, hleap, hmonth⟩ := hday
  have hback : (if marchMonth m < 10 then marchMonth m + 3 else marchMonth m - 9) = m ∧
      marchYear y m + (if m ≤ 2 then 1 else 0) = y := by
    unfold marchMonth marchYear
    split_ifs <;> omega
  have hcivil := mtCivilFromDays_march ⟨h₀, h₁⟩ hleap
  simp only [hmonth, hback.1, hback.2] at hcivil
  have hnumber' : dayNumber ⟨y, m, d⟩ = 365 * marchYear y m + marchYear y m / 4 -
      marchYear y m / 100 + marchYear y m / 400 + ((153 * marchMonth m + 2) / 5 + d - 1) -
        719468 := by
    rw [hnumber]
    ring
  rw [hnumber', hcivil]
  exact congrArg (CivilDate.mk y m) (by ring)

end Dates

section Following
variable {t u : CivilDate}

theorem Gregorian.iterate (h : Gregorian t) (n : ℕ) : Gregorian (nextDay^[n] t) := by
  induction n with
  | zero => exact h
  | succ n ih =>
      rw [Function.iterate_succ_apply']
      exact ih.succ

theorem Gregorian.dayNumber_iterate (h : Gregorian t) (n : ℕ) :
    dayNumber (nextDay^[n] t) = dayNumber t + n := by
  induction n with
  | zero => simp
  | succ n ih =>
      rw [Function.iterate_succ_apply', (h.iterate n).dayNumber_nextDay, ih]
      push_cast
      ring

/-- Counting up from the number of a date lists the calendar. -/
theorem Gregorian.mtCivilFromDays_add (h : Gregorian t) (n : ℕ) :
    mtCivilFromDays (dayNumber t + n) = nextDay^[n] t := by
  rw [← h.dayNumber_iterate, (h.iterate n).mtCivilFromDays_dayNumber]

/-- A date is so many days after another when its number is so much greater. -/
theorem Gregorian.iterate_eq_iff (ht : Gregorian t) (hu : Gregorian u) (n : ℕ) :
    nextDay^[n] t = u ↔ dayNumber u = dayNumber t + n := by
  constructor
  · rintro rfl
    exact ht.dayNumber_iterate n
  · intro h
    rw [← ht.mtCivilFromDays_add, ← h, hu.mtCivilFromDays_dayNumber]

theorem year_le_nextDay (t : CivilDate) : t.year ≤ (nextDay t).year := by
  unfold nextDay
  split_ifs <;> simp

theorem year_mono (t : CivilDate) {m n : ℕ} (h : m ≤ n) :
    (nextDay^[m] t).year ≤ (nextDay^[n] t).year := by
  induction n, h using Nat.le_induction with
  | base => exact le_refl _
  | succ n _ ih =>
      rw [Function.iterate_succ_apply']
      exact ih.trans (year_le_nextDay _)

end Following

end Muslimtify.Calendar
