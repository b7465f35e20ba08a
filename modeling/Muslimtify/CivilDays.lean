import Muslimtify.CText

/-!
# Day numbers and civil dates

The two vendored calendar helpers, over unbounded `int` and `long`, with the
casts to `unsigned` kept. Every day number names one date of the proleptic
Gregorian calendar and is read back from it. A date is printed as the cache
stores it, `%04d-%02d-%02d`, and `sscanf` recovers the three numbers.
-/
namespace Muslimtify.CivilDays
open CText

/-- Conversion to a 32-bit `unsigned`. -/
def toUnsigned (z : ℤ) : ℤ := z % 2 ^ 32

def mtDaysFromCivil (y m d : ℤ) : ℤ :=
  let y := if m ≤ 2 then y - 1 else y
  let era := (if 0 ≤ y then y else y - 399).tdiv 400
  let yoe := toUnsigned (y - era * 400)
  let doy := toUnsigned ((153 * (m + if 2 < m then -3 else 9) + 2).tdiv 5 + d - 1)
  let doe := toUnsigned (yoe * 365 + yoe / 4 - yoe / 100 + doy)
  era * 146097 + doe - 719468

structure CivilDate where
  year : ℤ
  month : ℤ
  day : ℤ
  deriving DecidableEq, Repr

def mtCivilFromDays (z : ℤ) : CivilDate :=
  let z := z + 719468
  let era := (if 0 ≤ z then z else z - 146096).tdiv 146097
  let doe := toUnsigned (z - era * 146097)
  let yoe := (doe - doe / 1460 + doe / 36524 - doe / 146096) / 365
  let yy := yoe + era * 400
  let doy := doe - (365 * yoe + yoe / 4 - yoe / 100)
  let mp := (5 * doy + 2) / 153
  let dd := doy - (153 * mp + 2) / 5 + 1
  let mm := if mp < 10 then mp + 3 else mp - 9
  ⟨yy + if mm ≤ 2 then 1 else 0, mm, dd⟩

/-- Truncating after moving a negative numerator down is rounding down. -/
private theorem tdiv_floor (z n : ℤ) (hn : 0 < n) :
    (if 0 ≤ z then z else z - (n - 1)).tdiv n = z / n := by
  split_ifs with hz
  · exact Int.tdiv_eq_ediv_of_nonneg hz
  · have hneg : z - (n - 1) = -(n - 1 - z) := by ring
    rw [hneg, Int.neg_tdiv, Int.tdiv_eq_ediv_of_nonneg (by omega)]
    have h₁ := Int.emod_add_mul_ediv (n - 1 - z) n
    have h₂ := Int.emod_nonneg (n - 1 - z) hn.ne'
    have h₃ := Int.emod_lt_of_pos (n - 1 - z) hn
    symm
    rw [Int.ediv_eq_iff_of_pos hn]
    constructor <;> nlinarith

/-- A day of an era as century, four-year cycle, year and day of the year. The
very last day of an era is the leap day its fourth century has over the others. -/
private theorem era_split {doe : ℤ} (h₀ : 0 ≤ doe) (h₁ : doe < 146096) :
    ∃ f q y t : ℤ, doe = 36524 * f + 1461 * q + 365 * y + t ∧ 0 ≤ f ∧ f ≤ 3 ∧ 0 ≤ q ∧ q ≤ 24 ∧
      0 ≤ y ∧ y ≤ 3 ∧ 0 ≤ t ∧ t ≤ 365 ∧ (t = 365 → y = 3 ∧ q ≤ 23) := by
  let s := doe % 36524 % 1461
  by_cases hs : s = 1460
  · refine ⟨doe / 36524, doe % 36524 / 1461, 3, 365, ?_⟩
    omega
  · refine ⟨doe / 36524, doe % 36524 / 1461, s / 365, s % 365, ?_⟩
    omega

/-- The correction terms of the year formula undo the leap days before it. -/
private theorem year_of_split {doe f q y t : ℤ} (h : doe = 36524 * f + 1461 * q + 365 * y + t)
    (hf : 0 ≤ f ∧ f ≤ 3) (hq : 0 ≤ q ∧ q ≤ 24) (hy : 0 ≤ y ∧ y ≤ 3) (ht : 0 ≤ t ∧ t ≤ 365)
    (hl : t = 365 → y = 3 ∧ q ≤ 23) :
    (doe - doe / 1460 + doe / 36524 - doe / 146096) / 365 = 100 * f + 4 * q + y := by
  have hc : doe / 36524 = f := by omega
  have hg : doe / 146096 = 0 := by omega
  have he : doe / 1460 = 25 * f + q + (24 * f + q + 365 * y + t) / 1460 := by omega
  rw [hc, hg, he]
  omega

/-- The year of an era and the day of that year, for a day of the era. -/
private theorem year_of_era {doe : ℤ} (h₀ : 0 ≤ doe) (h₁ : doe < 146097) {yoe : ℤ}
    (hy : yoe = (doe - doe / 1460 + doe / 36524 - doe / 146096) / 365) :
    0 ≤ yoe ∧ yoe < 400 ∧ 0 ≤ doe - (365 * yoe + yoe / 4 - yoe / 100) ∧
      doe - (365 * yoe + yoe / 4 - yoe / 100) ≤ 365 := by
  by_cases hlast : doe = 146096
  · subst hlast hy
    decide
  · obtain ⟨f, q, y, t, h, hf₀, hf₁, hq₀, hq₁, hy₀, hy₁, ht₀, ht₁, hl⟩ :=
      era_split h₀ (by omega)
    rw [year_of_split h ⟨hf₀, hf₁⟩ ⟨hq₀, hq₁⟩ ⟨hy₀, hy₁⟩ ⟨ht₀, ht₁⟩ hl] at hy
    have h₄ : yoe / 4 = 25 * f + q := by omega
    have h₁₀₀ : yoe / 100 = f := by omega
    rw [h₄, h₁₀₀]
    omega

theorem mtDaysFromCivil_mtCivilFromDays (z : ℤ) :
    mtDaysFromCivil (mtCivilFromDays z).year (mtCivilFromDays z).month
      (mtCivilFromDays z).day = z := by
  have hera : (if 0 ≤ z + 719468 then z + 719468 else z + 719468 - 146096).tdiv 146097 =
      (z + 719468) / 146097 := tdiv_floor _ 146097 (by decide)
  obtain ⟨era, he⟩ : ∃ era, era = (z + 719468) / 146097 := ⟨_, rfl⟩
  obtain ⟨doe, hd⟩ : ∃ doe, doe = z + 719468 - era * 146097 := ⟨_, rfl⟩
  obtain ⟨yoe, hy⟩ : ∃ yoe, yoe = (doe - doe / 1460 + doe / 36524 - doe / 146096) / 365 :=
    ⟨_, rfl⟩
  have hdoe : 0 ≤ doe ∧ doe < 146097 := by omega
  have hu : toUnsigned doe = doe := by
    simp only [toUnsigned]
    omega
  obtain ⟨hy₀, hy₁, ht₀, ht₁⟩ := year_of_era hdoe.1 hdoe.2 hy
  obtain ⟨doy, ht⟩ : ∃ doy, doy = doe - (365 * yoe + yoe / 4 - yoe / 100) := ⟨_, rfl⟩
  rw [← ht] at ht₀ ht₁
  have hciv : mtCivilFromDays z =
      let mp := (5 * doy + 2) / 153
      let mm := if mp < 10 then mp + 3 else mp - 9
      ⟨yoe + era * 400 + if mm ≤ 2 then 1 else 0, mm, doy - (153 * mp + 2) / 5 + 1⟩ := by
    simp only [mtCivilFromDays, hera, ← he, ← hd, hu, ← hy, ← ht]
  obtain ⟨mp, hmp⟩ : ∃ mp, mp = (5 * doy + 2) / 153 := ⟨_, rfl⟩
  rw [hciv]
  simp only [← hmp]
  -- the year is taken back to its March start, whichever side of it the month is on
  have hyear : ∀ mm : ℤ, mm = (if mp < 10 then mp + 3 else mp - 9) →
      (if mm ≤ 2 then yoe + era * 400 + (if mm ≤ 2 then 1 else 0) - 1
        else yoe + era * 400 + (if mm ≤ 2 then 1 else 0)) = yoe + era * 400 ∧
      mm + (if 2 < mm then -3 else 9) = mp := by
    intro mm hmm
    split_ifs at hmm ⊢ <;> omega
  obtain ⟨mm, hmm⟩ : ∃ mm, mm = if mp < 10 then mp + 3 else mp - 9 := ⟨_, rfl⟩
  have hfloor : (if 0 ≤ yoe + era * 400 then yoe + era * 400 else yoe + era * 400 - 399).tdiv 400 =
      (yoe + era * 400) / 400 := tdiv_floor _ 400 (by decide)
  have hback : (yoe + era * 400) / 400 = era := by omega
  have hmonth : (153 * mp + 2).tdiv 5 = (153 * mp + 2) / 5 :=
    Int.tdiv_eq_ediv_of_nonneg (by omega)
  have hyoe : toUnsigned (yoe + era * 400 - era * 400) = yoe := by
    simp only [toUnsigned]
    omega
  have hdoy : toUnsigned ((153 * mp + 2) / 5 + (doy - (153 * mp + 2) / 5 + 1) - 1) = doy := by
    simp only [toUnsigned]
    omega
  have hdoe' : toUnsigned (yoe * 365 + yoe / 4 - yoe / 100 + doy) = doe := by
    simp only [toUnsigned]
    clear hy
    omega
  simp only [← hmm, mtDaysFromCivil, (hyear mm hmm).1, (hyear mm hmm).2, hfloor, hback, hmonth,
    hyoe, hdoy, hdoe']
  omega

/-- The year counted from March. -/
def marchYear (y m : ℤ) : ℤ := if m ≤ 2 then y - 1 else y

/-- The month counted from March. -/
def marchMonth (m : ℤ) : ℤ := m + if 2 < m then -3 else 9

/-- The day number without casts, for the months and days that there are. -/
theorem mtDaysFromCivil_eq {y m d : ℤ} (hm : 1 ≤ m ∧ m ≤ 12) (hd : 1 ≤ d ∧ d ≤ 31) :
    mtDaysFromCivil y m d = 365 * marchYear y m + marchYear y m / 4 - marchYear y m / 100 +
      marchYear y m / 400 + ((153 * marchMonth m + 2) / 5 + d - 1) - 719468 := by
  have hmonth : 0 ≤ marchMonth m ∧ marchMonth m ≤ 11 := by
    unfold marchMonth
    split_ifs <;> omega
  have hstart : (153 * marchMonth m + 2).tdiv 5 = (153 * marchMonth m + 2) / 5 :=
    Int.tdiv_eq_ediv_of_nonneg (by omega)
  simp only [marchYear, marchMonth] at hstart hmonth ⊢
  simp only [mtDaysFromCivil, hstart]
  generalize (if m ≤ 2 then y - 1 else y) = my
  have hera : (if 0 ≤ my then my else my - 399).tdiv 400 = my / 400 := tdiv_floor _ 400 (by decide)
  generalize m + (if 2 < m then -3 else 9) = mp at hmonth
  have hyoe : toUnsigned (my - my / 400 * 400) = my - my / 400 * 400 := by
    simp only [toUnsigned]
    omega
  have hdoy : toUnsigned ((153 * mp + 2) / 5 + d - 1) = (153 * mp + 2) / 5 + d - 1 := by
    simp only [toUnsigned]
    omega
  have hdoe : ∀ doe, 0 ≤ doe ∧ doe < 2 ^ 32 → toUnsigned doe = doe := by
    intro doe h
    simp only [toUnsigned]
    omega
  rw [hera, hyoe, hdoy, hdoe _ (by omega)]
  omega

/-- The date of a day of a year counted from March. Its last day is there when February of the
next year has it. -/
theorem mtCivilFromDays_march {my doy : ℤ} (hdoy : 0 ≤ doy ∧ doy ≤ 365)
    (hleap : doy = 365 → (my + 1) % 4 = 0 ∧ ((my + 1) % 100 ≠ 0 ∨ (my + 1) % 400 = 0)) :
    mtCivilFromDays (365 * my + my / 4 - my / 100 + my / 400 + doy - 719468) =
      let mp := (5 * doy + 2) / 153
      let mm := if mp < 10 then mp + 3 else mp - 9
      ⟨my + if mm ≤ 2 then 1 else 0, mm, doy - (153 * mp + 2) / 5 + 1⟩ := by
  obtain ⟨era, he⟩ : ∃ era, era = my / 400 := ⟨_, rfl⟩
  obtain ⟨yoe, hy⟩ : ∃ yoe, yoe = my - era * 400 := ⟨_, rfl⟩
  obtain ⟨doe, hd⟩ : ∃ doe, doe = 365 * yoe + yoe / 4 - yoe / 100 + doy := ⟨_, rfl⟩
  obtain ⟨z, hz⟩ : ∃ z, z = 365 * my + my / 4 - my / 100 + my / 400 + doy - 719468 := ⟨_, rfl⟩
  have hzdoe : z + 719468 = era * 146097 + doe := by omega
  have hbounds : 0 ≤ doe ∧ doe < 146097 := by omega
  have hera : (if 0 ≤ z + 719468 then z + 719468 else z + 719468 - 146096).tdiv 146097 = era := by
    have hfloor : (if 0 ≤ z + 719468 then z + 719468 else z + 719468 - 146096).tdiv 146097 =
        (z + 719468) / 146097 := tdiv_floor _ 146097 (by decide)
    rw [hfloor, hzdoe]
    omega
  have hu : toUnsigned (z + 719468 - era * 146097) = doe := by
    simp only [toUnsigned]
    omega
  have hyear : (doe - doe / 1460 + doe / 36524 - doe / 146096) / 365 = yoe := by
    by_cases hlast : doe = 146096
    · obtain rfl : yoe = 399 := by omega
      rw [hlast]
      decide
    · have hsplit : yoe = 100 * (yoe / 100) + 4 * (yoe % 100 / 4) + yoe % 4 := by omega
      conv_rhs => rw [hsplit]
      exact year_of_split (t := doy) (by omega) (by omega) (by omega) (by omega) hdoy
        fun h => by
          have := hleap h
          omega
  have hback : doe - (365 * yoe + yoe / 4 - yoe / 100) = doy := by omega
  simp only [← hz, mtCivilFromDays, hera, hu, hyear, hback]
  rw [show yoe + era * 400 = my by omega]

section DateText

/-- `"%04d-%02d-%02d"` -/
def dateText (t : CivilDate) : CString :=
  formatIntPad 4 t.year ++ 0x2d :: (formatIntPad 2 t.month ++ 0x2d :: formatIntPad 2 t.day)

/-- `sscanf(date_str, "%d-%d-%d", ...) == 3` -/
def scanDate (s : CString) : Option CivilDate := do
  let (y, s) ← scanInt s
  let s ← if s.head? = some 0x2d then some s.tail else none
  let (m, s) ← scanInt s
  let s ← if s.head? = some 0x2d then some s.tail else none
  let (d, _) ← scanInt s
  return ⟨y, m, d⟩

theorem scanDate_dateText (t : CivilDate) : scanDate (dateText t) = some t := by
  have hy := scanInt_formatIntPad 4 t.year
    (s := 0x2d :: (formatIntPad 2 t.month ++ 0x2d :: formatIntPad 2 t.day))
    (noDigitHead_cons (by decide))
  have hm := scanInt_formatIntPad 2 t.month (s := 0x2d :: formatIntPad 2 t.day)
    (noDigitHead_cons (by decide))
  have hd := scanInt_formatIntPad 2 t.day noDigitHead_nil
  rw [List.append_nil] at hd
  simp [scanDate, dateText, hy, hm, hd]

theorem dateText_injective : Function.Injective dateText := fun s t h => by
  have := scanDate_dateText s
  rw [h, scanDate_dateText] at this
  exact (Option.some.inj this).symm

theorem mtCivilFromDays_injective : Function.Injective mtCivilFromDays := fun a b h => by
  have := mtDaysFromCivil_mtCivilFromDays a
  rwa [h, mtDaysFromCivil_mtCivilFromDays, eq_comm] at this

theorem formatIntPad_nulFree (w : ℕ) (z : ℤ) : NulFree (formatIntPad w z) := by
  have hd : ∀ w, NulFree (zeroPad w (decimal z.natAbs)) :=
    fun w => nulFree_of_digits (zeroPad_isDigit (decimal_isDigit _))
  unfold formatIntPad
  split_ifs
  · exact nulFree_cons.mpr ⟨by decide, hd _⟩
  · exact hd _

theorem dateText_nulFree (t : CivilDate) : NulFree (dateText t) := by
  simp only [dateText, nulFree_append, nulFree_cons]
  exact ⟨formatIntPad_nulFree _ _, by decide, formatIntPad_nulFree _ _, by decide,
    formatIntPad_nulFree _ _⟩

end DateText

end Muslimtify.CivilDays
