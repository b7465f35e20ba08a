import Muslimtify.Detection
import Muslimtify.Schedule
import Mathlib.Tactic.Linarith
import Mathlib.Algebra.Order.Floor.Ring

/-!
# The public prayer times

`muslimtify_day` turns the engine's hours into a civil date, a clock time and an
instant. The clock time is read back from the text the program shows, which
rounds up to the minute; the day offset only tells the day before, the day
itself and the day after.

For a time within these three days the date and the clock time together are the
engine's time rounded up to the minute, and the instant is that minute of the
zone's clock less the zone's offset.
-/
namespace Muslimtify.PublicTimes
open CText CDouble CivilDays Settings Schedule Detection

structure MuslimtifyTime where
  year : ℤ
  month : ℤ
  day : ℤ
  hour : ℤ
  minute : ℤ
  dayOffset : ℤ
  instant : ℤ
  valid : Bool
  deriving DecidableEq, Repr

/-- The time `{0}`. -/
def MuslimtifyTime.zero : MuslimtifyTime := ⟨0, 0, 0, 0, 0, 0, 0, false⟩

/-- Nearest integer, halves away from zero. -/
def llround (q : ℚ) : ℤ := if 0 ≤ q then ⌊q + 1 / 2⌋ else ⌈q - 1 / 2⌉

/-- An offset that is not finite has no seconds. -/
def offsetSeconds (utcOffset : Double) : ℤ :=
  match utcOffset with
  | .fin q _ => llround (q * 3600)
  | _ => 0

/-- The day a time of so many minutes is reported on. -/
def dayOffsetOf (total : ℤ) : ℤ := if total < 0 then -1 else if 24 * 60 ≤ total then 1 else 0

def timeFromHours (hours : Double) (daySerial : ℤ) (utcOffset : Double) : MuslimtifyTime :=
  match hours with
  | .fin q h =>
      let hm := readHm (formatTimeHm (.fin q h))
      let dayOffset := dayOffsetOf ⌈q * 60⌉
      let serial := daySerial + dayOffset
      let date := mtCivilFromDays serial
      { year := date.year
        month := date.month
        day := date.day
        hour := hm.1
        minute := hm.2
        dayOffset := dayOffset
        instant := serial * 86400 + hm.1 * 3600 + hm.2 * 60 - offsetSeconds utcOffset
        valid := true }
  | _ => .zero

structure MuslimtifyPrayer where
  time : MuslimtifyTime
  enabled : Bool
  adhanEnabled : Bool
  offset : ℤ
  reminders : FixedArray ℤ maxReminders
  deriving DecidableEq, Repr

/-- One day's prayers, without the index of the upcoming one. -/
structure MuslimtifyDay where
  date : CivilDate
  prayers : PrayerType → MuslimtifyPrayer

def daysInMonth (year month : ℤ) : ℤ :=
  if month = 2 then
    if year.tmod 4 = 0 ∧ year.tmod 100 ≠ 0 ∨ year.tmod 400 = 0 then 29 else 28
  else if month = 4 ∨ month = 6 ∨ month = 9 ∨ month = 11 then 30 else 31

def dateIsValid (date : CivilDate) : Bool :=
  1 ≤ date.year && date.year ≤ 9999 && 1 ≤ date.month && date.month ≤ 12 && 1 ≤ date.day &&
    date.day ≤ daysInMonth date.year date.month

def muslimtifyHasLocation (cfg : Config) : Bool :=
  !configLocationNeedsDetect cfg && configLatitudeIsValid cfg.latitude &&
    configLongitudeIsValid cfg.longitude

variable (H : Host)

def muslimtifyDay (cfg : Config) (date : CivilDate) : Except MuslimtifyError MuslimtifyDay :=
  if !dateIsValid date then .error .invalidDate
  else if !muslimtifyHasLocation cfg then .error .noLocation
  else
    let times := prayerTimesForConfig H cfg date.year date.month date.day
    let serial := mtDaysFromCivil date.year date.month date.day
    let utcOffset := effectiveTzOffset H cfg date.year date.month date.day
    .ok
      { date := date
        prayers := fun p =>
          { time := timeFromHours (prayerGetTime times p) serial utcOffset
            enabled := (prayerGetConfig cfg p).enabled
            adhanEnabled := (prayerGetConfig cfg p).adhanEnabled
            offset := (prayerGetConfig cfg p).offset
            reminders := (prayerGetConfig cfg p).reminders } }

section Clock

/-- Two digits are read back. -/
theorem formatIntPad_two : ∀ n : Fin 100, formatIntPad 2 (n : ℤ) =
    [UInt8.ofNat (0x30 + n / 10), UInt8.ofNat (0x30 + n % 10)] := by
  decide +kernel

theorem readHm_text {h m : ℤ} (hh : 0 ≤ h ∧ h < 100) (hm : 0 ≤ m ∧ m < 100) :
    readHm (formatIntPad 2 h ++ 0x3a :: formatIntPad 2 m) = (h, m) := by
  have hread : ∀ a b : Fin 100, readHm ([UInt8.ofNat (0x30 + a / 10), UInt8.ofNat (0x30 + a % 10)] ++
      0x3a :: [UInt8.ofNat (0x30 + b / 10), UInt8.ofNat (0x30 + b % 10)]) = ((a : ℤ), (b : ℤ)) := by
    intro a b
    have hdigits : ∀ a : Fin 100,
        ((UInt8.ofNat (0x30 + a / 10)).toNat - 0x30 : ℤ) * 10 +
          ((UInt8.ofNat (0x30 + a % 10)).toNat - 0x30) = a := by
      decide +kernel
    exact Prod.ext (hdigits a) (hdigits b)
  obtain ⟨a, rfl⟩ : ∃ a : Fin 100, (a : ℤ) = h := ⟨⟨h.toNat, by omega⟩, by simp [hh.1]⟩
  obtain ⟨b, rfl⟩ : ∃ b : Fin 100, (b : ℤ) = m := ⟨⟨m.toNat, by omega⟩, by simp [hm.1]⟩
  rw [formatIntPad_two, formatIntPad_two]
  exact hread a b

theorem normalizeClockHours_spec (q : ℚ) :
    ∃ k : ℤ, normalizeClockHours q = q - 24 * k ∧ 0 ≤ normalizeClockHours q ∧
      normalizeClockHours q < 24 := by
  have htrunc : -24 < q - 24 * truncate (q / 24) ∧ q - 24 * truncate (q / 24) < 24 := by
    unfold truncate
    split_ifs with hq
    · have h₁ := Int.floor_le (q / 24)
      have h₂ := Int.lt_floor_add_one (q / 24)
      constructor <;> linarith
    · have h₁ := Int.le_ceil (q / 24)
      have h₂ := Int.ceil_lt_add_one (q / 24)
      constructor <;> linarith
  simp only [normalizeClockHours]
  split_ifs with hneg
  · refine ⟨truncate (q / 24) - 1, ?_, by linarith, by linarith⟩
    push_cast
    ring
  · exact ⟨truncate (q / 24), rfl, not_lt.mp hneg, htrunc.2⟩

/-- The clock text is the time rounded up to the minute, on the face of a clock. -/
theorem formatTimeHm_eq (q : ℚ) (h : |q| ≤ dblMax) :
    ∃ hour minute : ℤ, formatTimeHm (.fin q h) =
        formatIntPad 2 hour ++ 0x3a :: formatIntPad 2 minute ∧
      0 ≤ hour ∧ hour < 24 ∧ 0 ≤ minute ∧ minute < 60 ∧ hour * 60 + minute = ⌈q * 60⌉ % 1440 := by
  obtain ⟨k, hk, hlo, hhi⟩ := normalizeClockHours_spec q
  have htrunc : truncate (normalizeClockHours q) = ⌊normalizeClockHours q⌋ := if_pos hlo
  have hfloor := Int.floor_le (normalizeClockHours q)
  have hfloor' := Int.lt_floor_add_one (normalizeClockHours q)
  have hminutes : ⌈(normalizeClockHours q - ⌊normalizeClockHours q⌋) * 60⌉ =
      ⌈q * 60⌉ - (1440 * k + 60 * ⌊normalizeClockHours q⌋) := by
    rw [← Int.ceil_sub_intCast]
    congr 1
    rw [hk]
    push_cast
    ring
  have hm₀ : 0 ≤ ⌈(normalizeClockHours q - ⌊normalizeClockHours q⌋) * 60⌉ :=
    Int.ceil_nonneg (mul_nonneg (by linarith) (by norm_num))
  have hm₁ : ⌈(normalizeClockHours q - ⌊normalizeClockHours q⌋) * 60⌉ ≤ 60 :=
    Int.ceil_le.mpr (by push_cast; linarith)
  have hh₀ : 0 ≤ ⌊normalizeClockHours q⌋ := Int.floor_nonneg.mpr hlo
  have hh₁ : ⌊normalizeClockHours q⌋ < 24 := Int.floor_lt.mpr (by exact_mod_cast hhi)
  simp only [formatTimeHm, htrunc]
  generalize ⌈(normalizeClockHours q - ⌊normalizeClockHours q⌋) * 60⌉ = m at hminutes hm₀ hm₁ ⊢
  generalize ⌊normalizeClockHours q⌋ = hr at hminutes hh₀ hh₁ ⊢
  split_ifs with hcarry
  · obtain rfl : m = 60 := by omega
    have hmod : (hr + 1).tmod 24 = (hr + 1) % 24 := Int.tmod_eq_emod_of_nonneg (by omega)
    exact ⟨(hr + 1) % 24, 0, by rw [hmod, sub_self], by omega, by omega, by omega, by omega,
      by omega⟩
  · have hmod : hr.tmod 24 = hr := Int.tmod_eq_of_lt hh₀ hh₁
    exact ⟨hr, m, by rw [hmod], hh₀, hh₁, hm₀, by omega, by omega⟩

theorem readHm_formatTimeHm (q : ℚ) (h : |q| ≤ dblMax) :
    ∃ hour minute : ℤ, readHm (formatTimeHm (.fin q h)) = (hour, minute) ∧
      0 ≤ hour ∧ hour < 24 ∧ 0 ≤ minute ∧ minute < 60 ∧ hour * 60 + minute = ⌈q * 60⌉ % 1440 := by
  obtain ⟨hour, minute, htext, hh₀, hh₁, hm₀, hm₁, hclock⟩ := formatTimeHm_eq q h
  refine ⟨hour, minute, ?_, hh₀, hh₁, hm₀, hm₁, hclock⟩
  rw [htext]
  exact readHm_text ⟨hh₀, by omega⟩ ⟨hm₀, by omega⟩

end Clock

section Instants

theorem llround_intCast (z : ℤ) : llround z = z := by
  unfold llround
  split_ifs
  · rw [Int.floor_intCast_add, show ⌊(1 / 2 : ℚ)⌋ = 0 by norm_num, add_zero]
  · rw [sub_eq_add_neg, Int.ceil_intCast_add, show ⌈-(1 / 2 : ℚ)⌉ = 0 by norm_num, add_zero]

/-- Nearest: by at most one half off. -/
theorem llround_near (q : ℚ) : |(llround q : ℚ) - q| ≤ 1 / 2 := by
  unfold llround
  rw [abs_le]
  split_ifs
  · have h₁ := Int.floor_le (q + 1 / 2)
    have h₂ := Int.lt_floor_add_one (q + 1 / 2)
    constructor <;> linarith
  · have h₁ := Int.le_ceil (q - 1 / 2)
    have h₂ := Int.ceil_lt_add_one (q - 1 / 2)
    constructor <;> linarith

/-- Whole days by which the reported date misses a time further away than a day. -/
def daysMissed (total : ℤ) : ℤ := total / 1440 - dayOffsetOf total

theorem daysMissed_eq_zero {total : ℤ} (h : -1440 ≤ total ∧ total < 2880) :
    daysMissed total = 0 := by
  unfold daysMissed dayOffsetOf
  split_ifs <;> omega

/-- The instant is the minute of the zone's clock less the zone's offset. -/
theorem timeFromHours_instant (q : ℚ) (h : |q| ≤ dblMax) (serial zone : ℤ) (utcOffset : Double)
    (hzone : utcOffset.finite? = some (zone / 60 : ℚ)) :
    (timeFromHours (.fin q h) serial utcOffset).instant =
      60 * (1440 * serial + ⌈q * 60⌉ - 1440 * daysMissed ⌈q * 60⌉ - zone) := by
  obtain ⟨hour, minute, hread, -, -, -, -, hclock⟩ := readHm_formatTimeHm q h
  have hseconds : offsetSeconds utcOffset = 60 * zone := by
    have hexact : (zone / 60 : ℚ) * 3600 = ((60 * zone : ℤ) : ℚ) := by
      push_cast
      ring
    cases utcOffset with
    | fin p hp =>
        obtain rfl := Option.some.inj hzone
        simp only [offsetSeconds, hexact, llround_intCast]
    | inf neg => cases hzone
    | nan => cases hzone
  simp only [timeFromHours, hread, hseconds, daysMissed]
  omega

/-- The fields of a reported time agree. Clock time and day offset carry into the next hour
and the next day in the same cases, and the date, the clock time and the instant are those
of the minute the engine's time rounds up to. -/
theorem time_fields_agree (q : ℚ) (h : |q| ≤ dblMax)
    (hrange : -1440 ≤ ⌈60 * q⌉ ∧ ⌈60 * q⌉ < 2880) (serial : ℤ) (utcOffset : Double) :
    let t := timeFromHours (.fin q h) serial utcOffset
    (0 ≤ t.hour ∧ t.hour ≤ 23) ∧ (0 ≤ t.minute ∧ t.minute ≤ 59) ∧
      (⟨t.year, t.month, t.day⟩ : CivilDate) = mtCivilFromDays (serial + t.dayOffset) ∧
      (serial + t.dayOffset) * 1440 + t.hour * 60 + t.minute = serial * 1440 + ⌈60 * q⌉ ∧
      ∀ p, utcOffset.finite? = some p →
        t.instant = 60 * (serial * 1440 + ⌈60 * q⌉) - llround (3600 * p) ∧
          |(llround (3600 * p) : ℚ) - 3600 * p| ≤ 1 / 2 := by
  intro t
  obtain ⟨hour, minute, hread, hh₀, hh₁, hm₀, hm₁, hclock⟩ := readHm_formatTimeHm q h
  rw [mul_comm 60 q] at hrange ⊢
  have hmissed := daysMissed_eq_zero hrange
  unfold daysMissed at hmissed
  have ht : t = timeFromHours (.fin q h) serial utcOffset := rfl
  simp only [timeFromHours, hread] at ht
  rw [ht]
  dsimp only
  refine ⟨⟨hh₀, by omega⟩, ⟨hm₀, by omega⟩, rfl, by omega, fun p hp => ?_⟩
  have hseconds : offsetSeconds utcOffset = llround (3600 * p) := by
    cases utcOffset with
    | fin r hr =>
        obtain rfl := Option.some.inj hp
        rw [offsetSeconds, mul_comm]
    | inf neg => cases hp
    | nan => cases hp
  rw [hseconds]
  exact ⟨by omega, llround_near _⟩

/-- A time after the midnight that ends its day, on a clock five and a half hours ahead. -/
theorem time_fields_agree_spilled :
    let t := timeFromHours (.fin (2999 / 120) (by decide +kernel)) 20621 (.ofRat (11 / 2))
    (20621 + t.dayOffset) * 1440 + t.hour * 60 + t.minute = 20621 * 1440 + 1500 ∧
      t.instant = 60 * (20621 * 1440 + 1500) - 19800 := by
  have hceil : ⌈(60 : ℚ) * (2999 / 120)⌉ = 1500 := by decide +kernel
  obtain ⟨-, -, -, hfields, hinstant⟩ := time_fields_agree (2999 / 120) (by decide +kernel)
    (by rw [hceil]; decide) 20621 (.ofRat (11 / 2))
  rw [hceil] at hfields hinstant
  have hoffset : llround (3600 * (11 / 2)) = 19800 := by decide +kernel
  refine ⟨hfields, ?_⟩
  rw [(hinstant (11 / 2) (by decide +kernel)).1, hoffset]

end Instants

end Muslimtify.PublicTimes
