import Muslimtify.Binary64
import Muslimtify.CacheRoundTrip
import Muslimtify.PublicTimes

/-!
# The announced time

The time an announcement shows is the trigger's prayer time rounded up to the
minute. The cache file keeps that prayer time to four decimals of an hour, so a
cycle that has read its triggers from the file rounds up a value that was rounded
before.

Four decimals are 0.36 seconds apart, and a minute falls on one of them only when
it is a multiple of three. A time that rounding takes over a minute is within
half of that of it.

Here the arithmetic of `double` matters: a multiple of three minutes is in general no
`double` when it is written in hours, and the one it is read back as is shown as
that minute or as the next. So the display is modelled a second time, with each
operation rounded.
-/
namespace Muslimtify.AnnouncedTime
open CText CDouble Binary64 CivilDays Settings Schedule TriggerCache CacheFile CacheRoundTrip
open PublicTimes

section Rounding

/-- Printing with `k` decimals keeps the nearest of their multiples. -/
theorem roundTo_nearestEven (k : ℕ) (q : ℚ) :
    ∃ r : ℤ, roundTo k q = r / 10 ^ k ∧ NearestEven (q * 10 ^ k) r := by
  have hk : (0 : ℚ) < 10 ^ k := by positivity
  unfold roundTo
  split_ifs with hq
  · have h := (roundHalfEven_nearestEven (mul_nonneg (neg_nonneg.mpr hq.le) hk.le)).neg
    refine ⟨-(roundHalfEven (-q * 10 ^ k) : ℕ), by push_cast; ring, ?_⟩
    rwa [show -(-q * 10 ^ k) = q * 10 ^ k by ring] at h
  · exact ⟨(roundHalfEven (q * 10 ^ k) : ℕ), by push_cast; rfl,
      roundHalfEven_nearestEven (mul_nonneg (not_lt.mp hq) hk.le)⟩

/-- Ten-thousandths of an hour that exact rounding takes over a minute: down from just after a
multiple of three minutes or the minute before one, up from just before the minute after one. -/
def RoundsOver (x : ℚ) : Prop :=
  ∃ j : ℤ, 500 * j < x ∧ x ≤ 500 * j + 1 / 2 ∨
    500 * j + 333 + 1 / 3 < x ∧ x < 500 * j + 333 + 1 / 2 ∨
    500 * j + 166 + 1 / 2 < x ∧ x ≤ 500 * j + 166 + 2 / 3

section Minutes
variable {x : ℚ} {r m : ℤ}

/-- `m` is the minute that so many ten-thousandths of an hour are rounded up to. -/
structure RoundsUp (x : ℚ) (m : ℤ) : Prop where
  after : 500 * ((m : ℚ) - 1) < 3 * x
  notAfter : 3 * x ≤ 500 * m

theorem roundsUp_ceil {q : ℚ} (hx : x = q * 10 ^ 4) : RoundsUp x ⌈q * 60⌉ := by
  have h₁ := Int.le_ceil (q * 60)
  have h₂ := Int.ceil_lt_add_one (q * 60)
  subst hx
  constructor <;> linarith

theorem RoundsUp.of_int (h : RoundsUp r m) : 500 * (m - 1) < 3 * r ∧ 3 * r ≤ 500 * m :=
  ⟨by exact_mod_cast h.after, by exact_mod_cast h.notAfter⟩

/-- A value rounded over a minute is rounded up to another one. -/
theorem RoundsOver.ne (hx : RoundsOver x) (h : NearestEven x r) (hm : RoundsUp x m) :
    ¬RoundsUp r m := by
  intro hr
  have hint := hr.of_int
  have h₁ := h.below
  have h₂ := h.above
  have h₃ := hm.after
  have h₄ := hm.notAfter
  obtain ⟨j, ⟨hlo, hhi⟩ | ⟨hlo, hhi⟩ | ⟨hlo, hhi⟩⟩ := hx
  · have hge : 500 * j ≤ r := by
      by_contra hlt
      have : (r : ℚ) + 1 ≤ 500 * j := by exact_mod_cast not_le.mp hlt
      linarith
    have hle : r ≤ 500 * j := by
      by_contra hgt
      have : (500 : ℚ) * j + 1 ≤ r := by exact_mod_cast not_le.mp hgt
      have hodd : r = 500 * j + 1 := by
        have : (r : ℚ) ≤ 500 * j + 1 := by linarith
        have : r ≤ 500 * j + 1 := by exact_mod_cast this
        omega
      exact h.not_below_half (by omega) (by linarith)
    have hmin : (m : ℚ) ≤ 3 * j := by exact_mod_cast (by omega : m ≤ 3 * j)
    linarith
  · have hge : 500 * j + 333 ≤ r := by
      by_contra hlt
      have : (r : ℚ) + 1 ≤ 500 * j + 333 := by exact_mod_cast not_le.mp hlt
      linarith
    have hle : r ≤ 500 * j + 333 := by
      by_contra hgt
      have : (500 : ℚ) * j + 333 + 1 ≤ r := by exact_mod_cast not_le.mp hgt
      linarith
    have hmin : (m : ℚ) ≤ 3 * j + 2 := by exact_mod_cast (by omega : m ≤ 3 * j + 2)
    linarith
  · have hge : 500 * j + 167 ≤ r := by
      by_contra hlt
      have : (r : ℚ) + 1 ≤ 500 * j + 167 := by exact_mod_cast not_le.mp hlt
      linarith
    have hmin : (3 : ℚ) * j + 2 ≤ m := by exact_mod_cast (by omega : 3 * j + 2 ≤ m)
    linarith

/-- A value rounded up to another minute has been rounded over one. -/
theorem RoundsOver.of_ne {m' : ℤ} (h : NearestEven x r) (hm : RoundsUp x m)
    (hr : RoundsUp r m') (hne : m' ≠ m) : RoundsOver x := by
  have hint := hr.of_int
  have h₁ := h.below
  have h₂ := h.above
  have h₃ := hm.after
  have h₄ := hm.notAfter
  rcases lt_or_gt_of_ne hne with hlt | hgt
  · -- down over the minute before `m`
    have hnear : 500 * (m - 1) ≤ 3 * r + 1 := by
      have hdouble : (1000 : ℚ) * (m - 1) < 6 * r + 3 := by linarith
      have : 1000 * (m - 1) < 6 * r + 3 := by exact_mod_cast hdouble
      omega
    obtain ⟨j, hj⟩ : ∃ j, j = (m - 1) / 3 := ⟨_, rfl⟩
    obtain hon | hoff : 500 * (m - 1) = 3 * r ∨ 500 * (m - 1) = 3 * r + 1 := by omega
    · have hm₀ : m - 1 = 3 * j := by omega
      have hr₀ : r = 500 * j := by omega
      have hmq : (m : ℚ) - 1 = 3 * j := by exact_mod_cast hm₀
      have hrq : (r : ℚ) = 500 * j := by exact_mod_cast hr₀
      exact ⟨j, Or.inl ⟨by linarith, by linarith⟩⟩
    · have hm₂ : m - 1 = 3 * j + 2 := by omega
      have hr₂ : r = 500 * j + 333 := by omega
      have hmq : (m : ℚ) - 1 = 3 * j + 2 := by exact_mod_cast hm₂
      have hrq : (r : ℚ) = 500 * j + 333 := by exact_mod_cast hr₂
      have hstrict := lt_of_le_of_ne h₂ (h.not_above_half (by omega))
      exact ⟨j, Or.inr (Or.inl ⟨by linarith, by linarith⟩)⟩
  · -- up over `m`
    have hnear : 3 * r ≤ 500 * m + 1 := by
      have hdouble : (6 : ℚ) * r - 3 ≤ 1000 * m := by linarith
      have : 6 * r - 3 ≤ 1000 * m := by exact_mod_cast hdouble
      omega
    obtain ⟨j, hj⟩ : ∃ j, j = m / 3 := ⟨_, rfl⟩
    have hoff : 3 * r = 500 * m + 1 := by omega
    have hm₁ : m = 3 * j + 1 := by omega
    have hr₁ : r = 500 * j + 167 := by omega
    have hmq : (m : ℚ) = 3 * j + 1 := by exact_mod_cast hm₁
    have hrq : (r : ℚ) = 500 * j + 167 := by exact_mod_cast hr₁
    have hstrict := lt_of_le_of_ne h₁ (h.not_below_half (by omega)).symm
    exact ⟨j, Or.inr (Or.inr ⟨by linarith, by linarith⟩)⟩

/-- Rounding to four decimals keeps the minute, unless it goes over one. -/
theorem ceil_roundTo_iff (q : ℚ) :
    ⌈roundTo 4 q * 60⌉ = ⌈q * 60⌉ ↔ ¬RoundsOver (q * 10 ^ 4) := by
  obtain ⟨r, hr, hnear⟩ := roundTo_nearestEven 4 q
  have hexact : (r : ℚ) = roundTo 4 q * 10 ^ 4 := by
    rw [hr]
    ring
  have hm : RoundsUp (q * 10 ^ 4) ⌈q * 60⌉ := roundsUp_ceil rfl
  have hr' : RoundsUp r ⌈roundTo 4 q * 60⌉ := roundsUp_ceil hexact
  constructor
  · intro heq hover
    rw [heq] at hr'
    exact hover.ne hnear hm hr'
  · intro hclear
    by_contra hne
    exact hclear (RoundsOver.of_ne hnear hm hr' hne)

end Minutes

/-- Rounding to four decimals moves the minute by at most one. -/
theorem ceil_roundTo_near (q : ℚ) :
    ⌈q * 60⌉ - 1 ≤ ⌈roundTo 4 q * 60⌉ ∧ ⌈roundTo 4 q * 60⌉ ≤ ⌈q * 60⌉ + 1 := by
  obtain ⟨h₁, h₂⟩ := roundTo_near 4 q
  norm_num at h₁ h₂
  have hup : ⌈roundTo 4 q * 60⌉ ≤ ⌈q * 60 + 1⌉ := Int.ceil_le_ceil (by linarith)
  have hdown : ⌈q * 60⌉ ≤ ⌈roundTo 4 q * 60 + 1⌉ := Int.ceil_le_ceil (by linarith)
  rw [Int.ceil_add_one] at hup hdown
  omega

end Rounding

section Texts

/-- The hour and the minute that a clock text of either format shows. -/
def readClock (text : CString) : ℤ × ℤ :=
  let hm := readHm text
  if text.drop 5 = [] then hm
  else (hm.1 % 12 + if text.drop 5 = ascii " PM" then 12 else 0, hm.2)

/-- The minute of the day that a clock text shows. -/
def minuteShown (text : CString) : ℤ := (readClock text).1 * 60 + (readClock text).2

/-- Behind a clock text that ends at its minute stands nothing, or the half of the day. -/
theorem readClock_text {h m : ℤ} (hh : 0 ≤ h ∧ h < 100) (hm : 0 ≤ m ∧ m < 100) (rest : CString) :
    readClock (formatIntPad 2 h ++ 0x3a :: (formatIntPad 2 m ++ rest)) =
      if rest = [] then (h, m) else (h % 12 + if rest = ascii " PM" then 12 else 0, m) := by
  have hread := readHm_text hh hm
  obtain ⟨a, rfl⟩ : ∃ a : Fin 100, (a : ℤ) = h := ⟨⟨h.toNat, by omega⟩, by simp [hh.1]⟩
  obtain ⟨b, rfl⟩ : ∃ b : Fin 100, (b : ℤ) = m := ⟨⟨m.toNat, by omega⟩, by simp [hm.1]⟩
  rw [formatIntPad_two, formatIntPad_two] at hread ⊢
  have hfirst : readHm ([UInt8.ofNat (0x30 + a / 10), UInt8.ofNat (0x30 + a % 10)] ++
      0x3a :: ([UInt8.ofNat (0x30 + b / 10), UInt8.ofNat (0x30 + b % 10)] ++ rest)) =
        ((a : ℤ), (b : ℤ)) := hread
  simp only [readClock, hfirst]
  rfl

theorem clockField {n : ℤ} (h : 0 ≤ n ∧ n < 60) : toUnsigned n % 100 = n := by
  unfold toUnsigned
  omega

theorem minuteShown_clockFormat {hour minute : ℤ} (hh : 0 ≤ hour ∧ hour < 24)
    (hm : 0 ≤ minute ∧ minute < 60) (timeFormat : ℤ) :
    minuteShown (clockFormat hour minute timeFormat) = hour * 60 + minute := by
  have hmm : toUnsigned minute % 100 = minute := clockField hm
  have hm₁₀₀ : 0 ≤ minute ∧ minute < 100 := by omega
  unfold minuteShown clockFormat
  by_cases hformat : timeFormat ≠ 12
  · have hhh : toUnsigned hour % 100 = hour := clockField ⟨hh.1, by omega⟩
    have hread := readClock_text (h := hour) ⟨hh.1, by omega⟩ hm₁₀₀ []
    rw [List.append_nil, if_pos rfl] at hread
    simp only [if_pos hformat, hhh, hmm, hread]
  · rw [if_neg hformat]
    set hour12 := if hour.tmod 12 = 0 then 12 else hour.tmod 12 with hdef
    have hrange : 0 ≤ hour12 ∧ hour12 < 60 ∧ hour12 % 12 = hour % 12 := by
      rw [Int.tmod_eq_emod_of_nonneg hh.1] at hdef
      split_ifs at hdef <;> omega
    have hhh : toUnsigned hour12 % 100 = hour12 := clockField ⟨hrange.1, hrange.2.1⟩
    dsimp only
    rw [hhh, hmm, readClock_text ⟨hrange.1, by omega⟩ hm₁₀₀, if_neg (List.cons_ne_nil _ _)]
    by_cases hnoon : hour < 12
    · have ham : ¬0x20 :: ascii "AM" = ascii " PM" := by decide
      simp only [if_pos hnoon, if_neg ham, hrange.2.2]
      omega
    · have hpm : 0x20 :: ascii "PM" = ascii " PM" := rfl
      simp only [if_neg hnoon, if_pos hpm, hrange.2.2]
      omega

end Texts

namespace InDoubles

/-- `normalize_clock_hours`. `fmod` is exact. -/
def normalizeClockHours (t : ℚ) : ℚ :=
  let t := t - 24 * truncate (t / 24)
  if t < 0 then binary64 (t + 24) else t

/-- `format_time_hm` -/
def formatTimeHm : Double → CString
  | .fin q _ =>
      let t := normalizeClockHours q
      let hours := truncate t
      let fraction := binary64 (t - hours)
      let minutes := ⌈binary64 (fraction * 60)⌉
      let hm := if 60 ≤ minutes then (hours + 1, minutes - 60) else (hours, minutes)
      formatIntPad 2 (hm.1.tmod 24) ++ 0x3a :: formatIntPad 2 hm.2
  | _ => ascii "--:--"

/-- `format_time_cfg` -/
def formatTimeCfg (cfg : Config) (hours : Double) : CString :=
  let hm := formatTimeHm hours
  if hm.head? = some 0x2d then hm
  else clockFormat (readHm hm).1 (readHm hm).2 cfg.timeFormat

/-- `cache_load`: the prayer times are the nearest ones to what the file has. -/
def cacheLoad (file : Option CString) (opens : Bool) : Option PrayerCache :=
  (CacheFile.cacheLoad file opens).map fun cache =>
    { cache with triggers := cache.triggers.map fun t =>
        { t with prayerTime := nearest t.prayerTime } }

end InDoubles

section Arithmetic

/-- The minutes past midnight that `format_time_hm` comes to before it rounds up. -/
def clockMinutes (q : ℚ) : ℚ :=
  let t := InDoubles.normalizeClockHours q
  truncate t * 60 + binary64 (binary64 (t - truncate t) * 60)

/-- The time on the face of a clock, in hours. -/
def clockFace (q : ℚ) : ℚ := q - 24 * ⌊q / 24⌋

theorem clockFace_range (q : ℚ) : 0 ≤ clockFace q ∧ clockFace q < 24 := by
  have h₁ := Int.floor_le (q / 24)
  have h₂ := Int.lt_floor_add_one (q / 24)
  unfold clockFace
  constructor <;> linarith

theorem normalizeClockHours_face (q : ℚ) : Schedule.normalizeClockHours q = clockFace q := by
  obtain ⟨k, hk, hlo, hhi⟩ := normalizeClockHours_spec q
  have hfloor : ⌊q / 24⌋ = k := by
    rw [Int.floor_eq_iff]
    constructor <;> linarith
  rw [hk, clockFace, hfloor]

theorem rounded_face (q : ℚ) : |binary64 (clockFace q) - clockFace q| ≤ 2 ^ (-49 : ℤ) ∧
    0 ≤ binary64 (clockFace q) ∧ binary64 (clockFace q) ≤ 24 := by
  obtain ⟨hlo, hhi⟩ := clockFace_range q
  have hsmall : |clockFace q| ≤ 2 ^ (5 : ℤ) := by
    rw [abs_of_nonneg hlo]
    exact hhi.le.trans (by norm_num)
  have hlarge : |clockFace q| < 2 ^ 53 := hsmall.trans_lt (by norm_num)
  exact ⟨binary64_error_le (by norm_num) hsmall,
    by exact_mod_cast intCast_le_binary64 (n := 0) hlarge (by exact_mod_cast hlo),
    by exact_mod_cast binary64_le_intCast (n := 24) hlarge (by exact_mod_cast hhi.le)⟩

theorem normalizeClockHours_near (q : ℚ) :
    |InDoubles.normalizeClockHours q - clockFace q| ≤ 2 ^ (-49 : ℤ) ∧
      0 ≤ InDoubles.normalizeClockHours q ∧ InDoubles.normalizeClockHours q ≤ 24 := by
  have hface := normalizeClockHours_face q
  simp only [Schedule.normalizeClockHours] at hface
  simp only [InDoubles.normalizeClockHours]
  split_ifs at hface ⊢
  · rw [hface]
    exact rounded_face q
  · obtain ⟨hlo, hhi⟩ := clockFace_range q
    rw [hface, sub_self, abs_zero]
    exact ⟨(power_pos _).le, hlo, hhi.le⟩

/-- Of a `double` that is not negative the time on the face of a clock is a `double`. -/
theorem clockFace_double {q : ℚ} (hq : binary64 q = q) (hpos : 0 ≤ q) :
    binary64 (clockFace q) = clockFace q := by
  obtain ⟨hlo, hhi⟩ := clockFace_range q
  have hfloor : 0 ≤ ⌊q / 24⌋ := Int.floor_nonneg.mpr (by positivity)
  have hface : clockFace q = q - (24 * ⌊q / 24⌋ : ℤ) := by
    rw [clockFace]
    push_cast
    rfl
  rcases lt_or_ge |q| (2 ^ 53) with hsmall | hlarge
  · have hle : |clockFace q| ≤ |q| := by
      have hfloor : (0 : ℚ) ≤ ⌊q / 24⌋ := by exact_mod_cast hfloor
      rw [abs_of_nonneg hlo, abs_of_nonneg hpos, clockFace]
      linarith
    rw [hface] at hle ⊢
    exact binary64_sub_intCast hq hsmall hle
  · obtain ⟨n, hn⟩ := exists_intCast hq hlarge
    have hint : clockFace q = (n - 24 * ⌊q / 24⌋ : ℤ) := by
      rw [hface, hn]
      push_cast
      rfl
    rw [hint] at hlo hhi ⊢
    refine binary64_intCast ?_
    rw [abs_of_nonneg hlo]
    exact hhi.trans (by norm_num)

/-- `normalize_clock_hours` gives the `double` nearest to the time on the face of a clock. -/
theorem normalizeClockHours_doubles {q : ℚ} (hq : binary64 q = q) :
    InDoubles.normalizeClockHours q = binary64 (clockFace q) := by
  have hface := normalizeClockHours_face q
  simp only [Schedule.normalizeClockHours] at hface
  simp only [InDoubles.normalizeClockHours]
  split_ifs at hface ⊢ with hneg
  · rw [hface]
  · rw [hface]
    rcases le_or_gt 0 q with hpos | hqneg
    · exact (clockFace_double hq hpos).symm
    · -- a negative time is reduced to zero only if it is whole days
      have htrunc : truncate (q / 24) = ⌈q / 24⌉ := if_neg (by linarith)
      have hceil := Int.le_ceil (q / 24)
      have hzero : clockFace q = 0 := by
        rw [htrunc] at hface
        exact le_antisymm (by rw [← hface]; linarith) (clockFace_range q).1
      rw [hzero, binary64_zero]

/-- What is past the hour, in minutes. -/
theorem pastHour_spec {f : ℚ} (h₀ : 0 ≤ f) (h₁ : f ≤ 1) :
    |binary64 (binary64 f * 60) - f * 60| ≤ 2 ^ (-47 : ℤ) ∧
      0 ≤ binary64 (binary64 f * 60) ∧ binary64 (binary64 f * 60) ≤ 60 := by
  have hf : |f| < 2 ^ 53 := by
    rw [abs_of_nonneg h₀]
    linarith
  have hferr : |binary64 f - f| ≤ 2 ^ (0 - 54 : ℤ) :=
    binary64_error_le (by norm_num) (by rwa [abs_of_nonneg h₀, zpow_zero])
  have hf₀ : 0 ≤ binary64 f := by
    exact_mod_cast intCast_le_binary64 (n := 0) hf (by exact_mod_cast h₀)
  have hf₁ : binary64 f ≤ 1 := by
    exact_mod_cast binary64_le_intCast (n := 1) hf (by exact_mod_cast h₁)
  generalize binary64 f = g at hferr hf₀ hf₁ ⊢
  have hg : |g * 60| < 2 ^ 53 := by
    rw [abs_of_nonneg (by linarith)]
    linarith
  have hgerr : |binary64 (g * 60) - g * 60| ≤ 2 ^ (6 - 54 : ℤ) :=
    binary64_error_le (by norm_num) (by rw [abs_of_nonneg (by linarith)]; norm_num; linarith)
  refine ⟨?_, by exact_mod_cast intCast_le_binary64 (n := 0) hg (by push_cast; linarith),
    by exact_mod_cast binary64_le_intCast (n := 60) hg (by push_cast; linarith)⟩
  norm_num [abs_le] at hferr hgerr ⊢
  constructor <;> linarith [hferr.1, hferr.2, hgerr.1, hgerr.2]

/-- The minutes past midnight miss those on the face of a clock by less than 2^-42. -/
theorem clockMinutes_near (q : ℚ) : |clockMinutes q - clockFace q * 60| ≤ 2 ^ (-42 : ℤ) := by
  obtain ⟨herr, hlo, -⟩ := normalizeClockHours_near q
  have htrunc : truncate (InDoubles.normalizeClockHours q) =
      ⌊InDoubles.normalizeClockHours q⌋ := if_pos hlo
  simp only [clockMinutes, htrunc]
  generalize InDoubles.normalizeClockHours q = t at herr hlo ⊢
  have hfloor := Int.floor_le t
  have hfloor' := Int.lt_floor_add_one t
  obtain ⟨hpast, -, -⟩ := pastHour_spec (f := t - ⌊t⌋) (by linarith) (by linarith)
  generalize binary64 (binary64 (t - ⌊t⌋) * 60) = m at hpast ⊢
  generalize (⌊t⌋ : ℚ) = hour at hpast ⊢
  norm_num [abs_le] at herr hpast ⊢
  constructor <;> linarith [herr.1, herr.2, hpast.1, hpast.2]

/-- The clock text is that of those minutes rounded up, on the face of a clock. -/
theorem formatTimeHm_doubles (q : ℚ) (h : |q| ≤ dblMax) :
    ∃ hour minute : ℤ, InDoubles.formatTimeHm (.fin q h) =
        formatIntPad 2 hour ++ 0x3a :: formatIntPad 2 minute ∧
      0 ≤ hour ∧ hour < 24 ∧ 0 ≤ minute ∧ minute < 60 ∧
        hour * 60 + minute = ⌈clockMinutes q⌉ % 1440 := by
  obtain ⟨-, hlo, hhi⟩ := normalizeClockHours_near q
  have htrunc : truncate (InDoubles.normalizeClockHours q) =
      ⌊InDoubles.normalizeClockHours q⌋ := if_pos hlo
  simp only [InDoubles.formatTimeHm, clockMinutes, htrunc]
  generalize InDoubles.normalizeClockHours q = t at hlo hhi ⊢
  have hfloor := Int.floor_le t
  have hfloor' := Int.lt_floor_add_one t
  obtain ⟨-, hm₀, hm₁⟩ := pastHour_spec (f := t - ⌊t⌋) (by linarith) (by linarith)
  have hh₀ : 0 ≤ ⌊t⌋ := Int.floor_nonneg.mpr hlo
  have hh₁ : ⌊t⌋ ≤ 24 := by exact_mod_cast hfloor.trans hhi
  -- at midnight itself nothing is past the hour
  have hmidnight : ⌊t⌋ = 24 → binary64 (binary64 (t - ⌊t⌋) * 60) = 0 := by
    intro h
    rw [h] at hfloor
    push_cast at hfloor
    obtain rfl : t = 24 := le_antisymm hhi hfloor
    rw [h, Int.cast_ofNat, sub_self, binary64_zero, zero_mul, binary64_zero]
  generalize binary64 (binary64 (t - ⌊t⌋) * 60) = m at hm₀ hm₁ hmidnight ⊢
  have hceil : ⌈(⌊t⌋ * 60 + m : ℚ)⌉ = ⌊t⌋ * 60 + ⌈m⌉ := by
    rw [← Int.ceil_intCast_add]
    push_cast
    rfl
  have hm₀ : 0 ≤ ⌈m⌉ := Int.ceil_nonneg hm₀
  have hm₁ : ⌈m⌉ ≤ 60 := Int.ceil_le.mpr (by exact_mod_cast hm₁)
  have hmidnight : ⌊t⌋ = 24 → ⌈m⌉ = 0 := fun h => by rw [hmidnight h, Int.ceil_zero]
  rw [hceil]
  generalize ⌈m⌉ = n at hm₀ hm₁ hmidnight ⊢
  generalize ⌊t⌋ = hour at hh₀ hh₁ hmidnight ⊢
  split_ifs with hcarry
  · obtain rfl : n = 60 := by omega
    have hmod : (hour + 1).tmod 24 = (hour + 1) % 24 := Int.tmod_eq_emod_of_nonneg (by omega)
    exact ⟨(hour + 1) % 24, 0, by rw [hmod, sub_self], by omega, by omega, by omega, by omega,
      by omega⟩
  · have hmod : hour.tmod 24 = hour % 24 := Int.tmod_eq_emod_of_nonneg hh₀
    exact ⟨hour % 24, n, by rw [hmod], by omega, by omega, hm₀, by omega, by omega⟩

theorem formatTimeCfg_doubles (cfg : Config) (q : ℚ) (h : |q| ≤ dblMax) :
    InDoubles.formatTimeCfg cfg (.fin q h) = clockFormat (⌈clockMinutes q⌉ % 1440 / 60)
      (⌈clockMinutes q⌉ % 1440 % 60) cfg.timeFormat := by
  obtain ⟨hour, minute, htext, hh₀, hh₁, hm₀, hm₁, hclock⟩ := formatTimeHm_doubles q h
  have hdigit : ∀ n : Fin 100, UInt8.ofNat (0x30 + n / 10) ≠ 0x2d := by decide +kernel
  have hhead : (InDoubles.formatTimeHm (.fin q h)).head? ≠ some 0x2d := by
    obtain ⟨a, rfl⟩ : ∃ a : Fin 100, (a : ℤ) = hour := ⟨⟨hour.toNat, by omega⟩, by simp [hh₀]⟩
    rw [htext, formatIntPad_two]
    simpa using hdigit a
  rw [InDoubles.formatTimeCfg, if_neg hhead, htext,
    readHm_text ⟨hh₀, by omega⟩ ⟨hm₀, by omega⟩, ← hclock,
    show (hour * 60 + minute) / 60 = hour by omega, show (hour * 60 + minute) % 60 = minute by omega]

theorem minuteShown_doubles (cfg : Config) (q : ℚ) (h : |q| ≤ dblMax) :
    minuteShown (InDoubles.formatTimeCfg cfg (.fin q h)) = ⌈clockMinutes q⌉ % 1440 := by
  rw [formatTimeCfg_doubles, minuteShown_clockFormat (by omega) (by omega)]
  omega

/-- Two times are announced alike, for a given minute, if both are shown as it. -/
theorem announced_alike_iff (cfg : Config) {p q : ℚ} (hp : |p| ≤ dblMax) (hq : |q| ≤ dblMax)
    (m : ℤ) :
    InDoubles.formatTimeCfg cfg (.fin p hp) = InDoubles.formatTimeCfg cfg (.fin q hq) ∧
        minuteShown (InDoubles.formatTimeCfg cfg (.fin p hp)) = m ↔
      ⌈clockMinutes q⌉ % 1440 = m ∧ ⌈clockMinutes p⌉ % 1440 = m := by
  rw [minuteShown_doubles]
  constructor
  · rintro ⟨htext, hm⟩
    have hsame := congrArg minuteShown htext
    rw [minuteShown_doubles, minuteShown_doubles] at hsame
    exact ⟨hsame ▸ hm, hm⟩
  · rintro ⟨h, h'⟩
    rw [formatTimeCfg_doubles, formatTimeCfg_doubles, h, h']
    exact ⟨rfl, rfl⟩

/-- Worked out in `double`s the time on the face of a clock is past minute `n`: what is
at most half a unit in the last place of the minutes past the hour above it is rounded away. -/
def Past (q : ℚ) (n : ℤ) : Prop :=
  let t := binary64 (clockFace q)
  n + unit ((t - ⌊t⌋) * 60) / 2 < t * 60

instance (q : ℚ) (n : ℤ) : Decidable (Past q n) := inferInstanceAs (Decidable (_ < _))

/-- Between the time and what is worked out for it lies a whole minute. -/
def Displaced (q : ℚ) : Prop :=
  ∃ n : ℤ, clockFace q * 60 ≤ n ∧ Past q n ∨ n < clockFace q * 60 ∧ ¬Past q n

theorem ceil_clockMinutes_le_iff {q : ℚ} (hq : binary64 q = q) (n : ℤ) :
    ⌈clockMinutes q⌉ ≤ n ↔ ¬Past q n := by
  obtain ⟨-, hlo, hhi⟩ := rounded_face q
  have hdouble := binary64_binary64 (clockFace q)
  simp only [clockMinutes, Past, normalizeClockHours_doubles hq]
  generalize binary64 (clockFace q) = t at hlo hhi hdouble ⊢
  have htrunc : truncate t = ⌊t⌋ := if_pos hlo
  have hfloor := Int.floor_le t
  have hfloor' := Int.lt_floor_add_one t
  have hpast : binary64 (t - ⌊t⌋) = t - ⌊t⌋ := by
    have hhours : (0 : ℚ) ≤ ⌊t⌋ := by exact_mod_cast Int.floor_nonneg.mpr hlo
    refine binary64_sub_intCast hdouble ?_ ?_
    · rw [abs_of_nonneg hlo]
      exact hhi.trans_lt (by norm_num)
    · rw [abs_of_nonneg hlo, abs_of_nonneg (by linarith)]
      linarith
  have hminutes : |(t - ⌊t⌋) * 60| < 2 ^ 52 := by
    rw [abs_of_nonneg (by linarith)]
    exact (show (t - ⌊t⌋) * 60 ≤ 60 by linarith).trans_lt (by norm_num)
  have hround := binary64_le_intCast_iff (n := n - 60 * ⌊t⌋) hminutes
  push_cast at hround
  rw [htrunc, hpast, Int.ceil_le, not_lt]
  constructor
  · intro h
    linarith [hround.mp (by linarith)]
  · intro h
    linarith [hround.mpr (by linarith)]

theorem ceil_clockMinutes_range {q : ℚ} (hq : binary64 q = q) :
    0 ≤ ⌈clockMinutes q⌉ ∧ ⌈clockMinutes q⌉ ≤ 1440 := by
  obtain ⟨-, hlo, hhi⟩ := rounded_face q
  constructor
  · by_contra hneg
    have hle : ⌈clockMinutes q⌉ ≤ -1 := by omega
    have hround := (ceil_clockMinutes_le_iff hq _).mp hle
    simp only [Past, not_lt] at hround
    generalize binary64 (clockFace q) = t at hlo hhi hround
    have hfloor := Int.floor_le t
    have hfloor' := Int.lt_floor_add_one t
    have hunit : unit ((t - ⌊t⌋) * 60) ≤ 2 ^ (0 : ℤ) := by
      refine unit_le (lastPlace_nonpos ?_)
      rw [abs_of_nonneg (by linarith)]
      exact (show (t - ⌊t⌋) * 60 ≤ 60 by linarith).trans_lt (by norm_num)
    rw [zpow_zero] at hunit
    push_cast at hround
    linarith
  · rw [ceil_clockMinutes_le_iff hq, Past, not_lt]
    have hunit := unit_pos ((binary64 (clockFace q) - ⌊binary64 (clockFace q)⌋) * 60)
    push_cast
    linarith

/-- A `double` is shown as its own minute unless a whole minute lies between. -/
theorem shown_own_iff {q : ℚ} (hq : binary64 q = q) :
    ⌈clockMinutes q⌉ % 1440 = ⌈q * 60⌉ % 1440 ↔ ¬Displaced q := by
  have hnear := clockMinutes_near q
  have hface : ⌈q * 60⌉ = ⌈clockFace q * 60⌉ + 1440 * ⌊q / 24⌋ := by
    have hsplit : q * 60 = clockFace q * 60 + (1440 * ⌊q / 24⌋ : ℤ) := by
      rw [clockFace]
      push_cast
      ring
    rw [hsplit, Int.ceil_add_intCast]
  have hclose : ⌈clockMinutes q⌉ ≤ ⌈clockFace q * 60⌉ + 1 ∧
      ⌈clockFace q * 60⌉ ≤ ⌈clockMinutes q⌉ + 1 := by
    norm_num [abs_le] at hnear
    rw [← Int.ceil_add_one, ← Int.ceil_add_one]
    constructor <;> exact Int.ceil_le_ceil (by linarith [hnear.1, hnear.2])
  have hsame : ⌈clockMinutes q⌉ % 1440 = ⌈q * 60⌉ % 1440 ↔
      ⌈clockMinutes q⌉ = ⌈clockFace q * 60⌉ := by omega
  have hspec := ceil_clockMinutes_le_iff hq
  rw [hsame]
  constructor
  · rintro heq ⟨n, ⟨hle, hpast⟩ | ⟨hlt, hnot⟩⟩
    · exact (hspec n).mp (heq.trans_le (Int.ceil_le.mpr hle)) hpast
    · have hle := (hspec n).mpr hnot
      rw [heq] at hle
      exact absurd (Int.ceil_le.mp hle) (not_le.mpr hlt)
  · intro hnone
    refine le_antisymm ((hspec _).mpr fun hpast => hnone ⟨_, Or.inl ⟨Int.le_ceil _, hpast⟩⟩) ?_
    rw [Int.ceil_le]
    by_contra hlt
    exact hnone ⟨_, Or.inr ⟨not_le.mp hlt, (hspec _).mp le_rfl⟩⟩

end Arithmetic

section ReadBack
variable {q y : ℚ} {r j : ℤ}

/-- The `double` nearest to 13.4 hours is past 13:24, that nearest to 13.35 is not past 13:21. -/
example : Past (binary64 (268 / 20)) 804 ∧ ¬Past (binary64 (267 / 20)) 801 := by decide +kernel

/-- Times that are read back as ones of another minute: those from which four decimals
lead over a minute, and of those around a multiple of three minutes the ones behind it if
the `double` it is read back as is not past it, and the ones before it or at it if that is.
Beyond 2^39 hours nothing is lost. -/
def TakenOver (q : ℚ) : Prop :=
  |q| < 2 ^ 39 ∧ ∃ j : ℤ,
    ¬Past (binary64 (j / 20)) (3 * j % 1440) ∧
      500 * j < q * 10 ^ 4 ∧ q * 10 ^ 4 ≤ 500 * j + 1 / 2 ∨
    Past (binary64 (j / 20)) (3 * j % 1440) ∧
      500 * j - 1 / 2 ≤ q * 10 ^ 4 ∧ q * 10 ^ 4 ≤ 500 * j ∨
    500 * j + 333 + 1 / 3 < q * 10 ^ 4 ∧ q * 10 ^ 4 < 500 * j + 333 + 1 / 2 ∨
    500 * j + 166 + 1 / 2 < q * 10 ^ 4 ∧ q * 10 ^ 4 ≤ 500 * j + 166 + 2 / 3

/-- What is read back is off by less than a five hundredth of a minute. -/
theorem readBack_near (hy : |y| ≤ 2 ^ 39) :
    ∃ k : ℤ, |clockMinutes (binary64 y) - (y * 60 - 1440 * k)| < 1 / 500 := by
  have herr := binary64_error_le (p := 39) (by norm_num) (by exact_mod_cast hy)
  have hnear := clockMinutes_near (binary64 y)
  refine ⟨⌊binary64 y / 24⌋, ?_⟩
  rw [clockFace] at hnear
  generalize clockMinutes (binary64 y) = m at hnear ⊢
  norm_num [abs_le] at herr hnear
  rw [abs_lt]
  constructor <;> linarith [herr.1, herr.2, hnear.1, hnear.2]

/-- Away from the multiples of three minutes that does not matter. -/
theorem readBack_between (hy : |(r / 10 ^ 4 : ℚ)| ≤ 2 ^ 39) (hr : r % 500 ≠ 0) :
    ⌈clockMinutes (binary64 (r / 10 ^ 4))⌉ % 1440 = ⌈(r / 10 ^ 4 : ℚ) * 60⌉ % 1440 := by
  obtain ⟨k, hk⟩ := readBack_near hy
  obtain ⟨hlo, hhi⟩ := abs_lt.mp hk
  obtain ⟨d, hd⟩ : ∃ d, d = 500 * ⌈(r / 10 ^ 4 : ℚ) * 60⌉ - 3 * r := ⟨_, rfl⟩
  have h₁ := Int.le_ceil ((r / 10 ^ 4 : ℚ) * 60)
  have h₂ := Int.ceil_lt_add_one ((r / 10 ^ 4 : ℚ) * 60)
  generalize ⌈(r / 10 ^ 4 : ℚ) * 60⌉ = c at h₁ h₂ hd ⊢
  have hdq : (d : ℚ) = 500 * c - 3 * r := by exact_mod_cast hd
  have hd₀ : (0 : ℚ) ≤ d := by linarith
  have hd₁ : (d : ℚ) < 500 := by linarith
  have hd₀ : 0 ≤ d := by exact_mod_cast hd₀
  have hd₁ : d < 500 := by exact_mod_cast hd₁
  have hd₂ : (1 : ℚ) ≤ d := by exact_mod_cast (by omega : 1 ≤ d)
  have hd₃ : (d : ℚ) ≤ 499 := by exact_mod_cast (by omega : d ≤ 499)
  have hceil : ⌈clockMinutes (binary64 (r / 10 ^ 4))⌉ = c - 1440 * k := by
    rw [Int.ceil_eq_iff]
    push_cast
    constructor <;> linarith
  rw [hceil]
  omega

/-- A multiple of three minutes is shown as itself, or as the next minute if what it is
read back as is past it. -/
theorem readBack_multiple (hy : |(j / 20 : ℚ)| ≤ 2 ^ 39) :
    ⌈clockMinutes (binary64 (j / 20))⌉ % 1440 = 3 * j % 1440 ∧
        ¬Past (binary64 (j / 20)) (3 * j % 1440) ∨
      ⌈clockMinutes (binary64 (j / 20))⌉ % 1440 = (3 * j + 1) % 1440 ∧
        Past (binary64 (j / 20)) (3 * j % 1440) := by
  have hspec := ceil_clockMinutes_le_iff (binary64_binary64 (j / 20)) (3 * j % 1440)
  obtain ⟨hlo, hhi⟩ := ceil_clockMinutes_range (binary64_binary64 (j / 20))
  by_cases hdays : j % 480 = 0
  · -- whole days are kept
    obtain ⟨i, rfl⟩ : ∃ i, j = 480 * i := ⟨j / 480, by omega⟩
    have hhours : ((480 * i : ℤ) / 20 : ℚ) = (24 * i : ℤ) := by
      push_cast
      ring
    have hface : clockFace (binary64 ((480 * i : ℤ) / 20)) = 0 := by
      rw [hhours] at hy ⊢
      rw [binary64_intCast (hy.trans_lt (by norm_num)), clockFace]
      have hfloor : ⌊((24 * i : ℤ) : ℚ) / 24⌋ = i := by
        rw [show ((24 * i : ℤ) : ℚ) / 24 = i by push_cast; ring, Int.floor_intCast]
      rw [hfloor]
      push_cast
      ring
    have hnot : ¬Past (binary64 ((480 * i : ℤ) / 20)) (3 * (480 * i) % 1440) := by
      rw [Past, hface, show 3 * (480 * i) % 1440 = 0 by omega]
      have hunit := half_pos (unit_pos 0)
      simpa [binary64_zero] using hunit.le
    have hle := hspec.mpr hnot
    exact Or.inl ⟨by omega, hnot⟩
  · obtain ⟨k, hk⟩ := readBack_near hy
    obtain ⟨hdown, hup⟩ := abs_lt.mp hk
    have hup : ⌈clockMinutes (binary64 (j / 20))⌉ ≤ 3 * j + 1 - 1440 * k := by
      rw [Int.ceil_le]
      push_cast
      linarith
    have hdown : 3 * j - 1 - 1440 * k < ⌈clockMinutes (binary64 (j / 20))⌉ := by
      rw [Int.lt_ceil]
      push_cast
      linarith
    by_cases hpast : Past (binary64 (j / 20)) (3 * j % 1440)
    · have hgt : ¬⌈clockMinutes (binary64 (j / 20))⌉ ≤ 3 * j % 1440 := fun hle => hspec.mp hle hpast
      exact Or.inr ⟨by omega, hpast⟩
    · have hle := hspec.mpr hpast
      exact Or.inl ⟨by omega, hpast⟩

/-- A time within half of a ten-thousandth of such a multiple is before it or at it, or
of the next minute. -/
theorem minute_of_near (hlo : 500 * j - 1 / 2 ≤ q * 10 ^ 4) (hhi : q * 10 ^ 4 ≤ 500 * j + 1 / 2) :
    q * 10 ^ 4 ≤ 500 * j ∧ ⌈q * 60⌉ = 3 * j ∨ 500 * j < q * 10 ^ 4 ∧ ⌈q * 60⌉ = 3 * j + 1 := by
  rcases le_or_gt (q * 10 ^ 4) (500 * (j : ℚ)) with hle | hgt
  · refine Or.inl ⟨hle, ?_⟩
    rw [Int.ceil_eq_iff]
    push_cast
    constructor <;> linarith
  · refine Or.inr ⟨hgt, ?_⟩
    rw [Int.ceil_eq_iff]
    push_cast
    constructor <;> linarith

/-- Around a multiple of three minutes. -/
theorem readBack_multiple_iff (hq : |q| < 2 ^ 39) (hy : |(j / 20 : ℚ)| ≤ 2 ^ 39)
    (hlo : 500 * j - 1 / 2 ≤ q * 10 ^ 4) (hhi : q * 10 ^ 4 ≤ 500 * j + 1 / 2) :
    ⌈clockMinutes (binary64 (j / 20))⌉ % 1440 = ⌈q * 60⌉ % 1440 ↔ ¬TakenOver q := by
  have hshown := readBack_multiple hy
  have hminute := minute_of_near hlo hhi
  -- no other multiple is as near, and the other two kinds are not either
  have honly : ∀ i : ℤ, 500 * i - 1 / 2 ≤ q * 10 ^ 4 → q * 10 ^ 4 < 500 * i + 334 → i = j := by
    intro i h₁ h₂
    have hup : (500 : ℚ) * i < 500 * j + 2 := by linarith
    have hdown : (500 : ℚ) * j < 500 * i + 335 := by linarith
    have hup : 500 * i < 500 * j + 2 := by exact_mod_cast hup
    have hdown : 500 * j < 500 * i + 335 := by exact_mod_cast hdown
    omega
  constructor
  · rintro hsame ⟨-, i, ⟨hnot, h₁, h₂⟩ | ⟨hpast, h₁, h₂⟩ | ⟨h₁, h₂⟩ | ⟨h₁, h₂⟩⟩
    · obtain rfl := honly i (by linarith) (by linarith)
      rcases hminute with ⟨hle, -⟩ | ⟨-, hm⟩
      · linarith
      · rcases hshown with ⟨hs, -⟩ | ⟨-, hpast⟩
        · omega
        · exact hnot hpast
    · obtain rfl := honly i h₁ (by linarith)
      rcases hminute with ⟨-, hm⟩ | ⟨hgt, -⟩
      · rcases hshown with ⟨-, hnot⟩ | ⟨hs, -⟩
        · exact hnot hpast
        · omega
      · linarith
    · obtain rfl := honly i (by linarith) (by linarith)
      linarith
    · obtain rfl := honly i (by linarith) (by linarith)
      linarith
  · intro hclear
    rcases hshown with ⟨hs, hnot⟩ | ⟨hs, hpast⟩
    · rcases hminute with ⟨-, hm⟩ | ⟨hgt, -⟩
      · rw [hs, hm]
      · exact absurd ⟨hq, j, Or.inl ⟨hnot, hgt, hhi⟩⟩ hclear
    · rcases hminute with ⟨hle, -⟩ | ⟨-, hm⟩
      · exact absurd ⟨hq, j, Or.inr (Or.inl ⟨hpast, hlo, hle⟩)⟩ hclear
      · rw [hs, hm]

/-- Between the multiples of three minutes. -/
theorem takenOver_between (hq : |q| < 2 ^ 39) (h : NearestEven (q * 10 ^ 4) r)
    (hr : r % 500 ≠ 0) : TakenOver q ↔ RoundsOver (q * 10 ^ 4) := by
  have hoff : ∀ i : ℤ, 500 * i - 1 / 2 ≤ q * 10 ^ 4 → ¬q * 10 ^ 4 ≤ 500 * i + 1 / 2 := by
    intro i h₁ h₂
    have := h.eq_of_even (n := 500 * i) (by omega) (by push_cast; exact h₁) (by push_cast; exact h₂)
    omega
  constructor
  · rintro ⟨-, i, ⟨-, h₁, h₂⟩ | ⟨-, h₁, h₂⟩ | h' | h'⟩
    · exact ⟨i, Or.inl ⟨h₁, h₂⟩⟩
    · exact absurd (by linarith) (hoff i h₁)
    · exact ⟨i, Or.inr (Or.inl h')⟩
    · exact ⟨i, Or.inr (Or.inr h')⟩
  · rintro ⟨i, ⟨h₁, h₂⟩ | h' | h'⟩
    · exact absurd h₂ (hoff i (by linarith))
    · exact ⟨hq, i, Or.inr (Or.inr (Or.inl h'))⟩
    · exact ⟨hq, i, Or.inr (Or.inr (Or.inr h'))⟩

theorem stored_small (hq : |q| < 2 ^ 39) : |roundTo 4 q| ≤ 2 ^ 39 := by
  have := abs_roundTo_le 4 (q := q) (n := 2 ^ 39) (by exact_mod_cast hq.le)
  exact_mod_cast this

theorem readBack_bounded (hy : |y| ≤ 2 ^ 39) : |binary64 y| ≤ dblMax := by
  have herr := binary64_error_le (p := 39) (by norm_num) (by exact_mod_cast hy)
  have hmax : (2 ^ 40 : ℚ) ≤ dblMax := by decide +kernel
  norm_num [abs_le] at herr hy hmax ⊢
  constructor <;> linarith [herr.1, herr.2, hy.1, hy.2]

/-- The time read back is shown as the minute of the time that was written unless it is taken
over to another. -/
theorem readBack_iff (hq : |q| < 2 ^ 39) :
    ⌈clockMinutes (binary64 (roundTo 4 q))⌉ % 1440 = ⌈q * 60⌉ % 1440 ↔ ¬TakenOver q := by
  obtain ⟨r, hr, hnear⟩ := roundTo_nearestEven 4 q
  have hy := stored_small hq
  by_cases hmul : r % 500 = 0
  · obtain ⟨j, rfl⟩ : ∃ j, r = 500 * j := ⟨r / 500, by omega⟩
    have heq : roundTo 4 q = j / 20 := by
      rw [hr]
      push_cast
      ring
    have hlo := hnear.below
    have hhi := hnear.above
    push_cast at hlo hhi
    rw [heq] at hy ⊢
    exact readBack_multiple_iff hq hy hlo hhi
  · have hmoved := ceil_roundTo_near q
    rw [takenOver_between hq hnear hmul, ← ceil_roundTo_iff]
    rw [hr] at hy hmoved ⊢
    rw [readBack_between hy hmul]
    omega

/-- A `double` that large is itself read back. -/
theorem readBack_large (hdouble : binary64 q = q) (hq : 2 ^ 39 ≤ |q|) :
    binary64 (roundTo 4 q) = q := by
  obtain ⟨h₁, h₂⟩ := roundTo_near 4 q
  obtain ⟨r, hr, hnear⟩ := roundTo_nearestEven 4 q
  have hlarge : (2 : ℚ) ^ (39 : ℤ) ≤ |roundTo 4 q| := by
    rw [le_abs, hr]
    rcases le_abs.mp hq with hpos | hneg
    · have hge := hnear.ge (n := 2 ^ 39 * 10 ^ 4) (by push_cast; linarith)
      have : ((2 ^ 39 * 10 ^ 4 : ℤ) : ℚ) ≤ r := by exact_mod_cast hge
      norm_num at this ⊢
      exact Or.inl (by linarith)
    · have hle := hnear.le (n := -(2 ^ 39 * 10 ^ 4)) (by push_cast; linarith)
      have : (r : ℚ) ≤ ((-(2 ^ 39 * 10 ^ 4) : ℤ) : ℚ) := by exact_mod_cast hle
      norm_num at this ⊢
      exact Or.inr (by linarith)
  refine binary64_of_near_fixed hdouble (by norm_num) (by exact_mod_cast hq) hlarge ?_
  norm_num [abs_lt] at h₁ h₂ ⊢
  constructor <;> linarith

end ReadBack

/-- A trigger that is written and read back is announced with the same time as before, that of
the minute it falls on, exactly when no whole minute lies between its prayer time and what is
worked out for it, and the file does not take it over to another. -/
theorem announced_time_iff (cfg : Config) {cache : PrayerCache} (hc : CacheInRange cache) {i : ℕ}
    {t : CacheTrigger} (ht : cache.triggers.items[i]? = some t) {q : ℚ} {h : |q| ≤ dblMax}
    (hq : t.prayerTime = .fin q h) (hdouble : binary64 q = q) :
    ∃ c t', InDoubles.cacheLoad (some (cacheText cache)) true = some c ∧
      c.triggers.items[i]? = some t' ∧
      (InDoubles.formatTimeCfg cfg t'.prayerTime = InDoubles.formatTimeCfg cfg t.prayerTime ∧
          minuteShown (InDoubles.formatTimeCfg cfg t'.prayerTime) = ⌈q * 60⌉ % 1440 ↔
        ¬Displaced q ∧ ¬TakenOver q) := by
  have hitem : (storedCache cache).triggers.items[i]? = some (storedTrigger t) := by
    rw [storedCache, FixedArray.map_items, List.getElem?_map, ht]
    rfl
  have hread : InDoubles.cacheLoad (some (cacheText cache)) true = some { storedCache cache with
      triggers := (storedCache cache).triggers.map fun t =>
        { t with prayerTime := nearest t.prayerTime } } := by
    rw [InDoubles.cacheLoad, cacheLoad_cacheText hc]
    rfl
  refine ⟨_, { storedTrigger t with prayerTime := nearest (storedTrigger t).prayerTime }, hread,
    by rw [FixedArray.map_items, List.getElem?_map, hitem]; rfl, ?_⟩
  have hstored : nearest (storedTrigger t).prayerTime = .ofRat (binary64 (roundTo 4 q)) := by
    rw [storedTrigger, hq]
    rfl
  dsimp only
  rw [hstored, hq, ← shown_own_iff hdouble]
  rcases lt_or_ge |q| (2 ^ 39) with hsmall | hlarge
  · rw [Double.ofRat_of_le (readBack_bounded (stored_small hsmall)), announced_alike_iff,
      readBack_iff hsmall]
  · rw [readBack_large hdouble hlarge, Double.ofRat_of_le h, announced_alike_iff, and_self_iff]
    exact ⟨fun hm => ⟨hm, fun htaken => absurd htaken.1 (not_lt.mpr hlarge)⟩, And.left⟩

/-- Fajr less than a tenth of a second after six. -/
def dawnCache : PrayerCache where
  date := copyString 16 (ascii "2026-06-17")
  triggers := ⟨[{
    prayer := copyString 16 (prayerGetName .fajr)
    adhan := copyString 512 (ascii "")
    minute := 361
    minutesBefore := 0
    prayerTime := .ofRat (6 + 1 / 131072)
    adhanEnabled := true }], by decide⟩

theorem dawn_bounded : |(6 + 1 / 131072 : ℚ)| ≤ dblMax := by
  rw [abs_of_nonneg (by norm_num)]
  exact le_trans (by norm_num) (by decide +kernel : (7 : ℚ) ≤ dblMax)

theorem announced_time_iff_dawn :
    ∃ c t', InDoubles.cacheLoad (some (cacheText dawnCache)) true = some c ∧
      c.triggers.items[0]? = some t' ∧
      (InDoubles.formatTimeCfg configDefault t'.prayerTime =
            InDoubles.formatTimeCfg configDefault (.fin (6 + 1 / 131072) dawn_bounded) ∧
          minuteShown (InDoubles.formatTimeCfg configDefault t'.prayerTime) =
            ⌈(6 + 1 / 131072 : ℚ) * 60⌉ % 1440 ↔
        ¬Displaced (6 + 1 / 131072) ∧ ¬TakenOver (6 + 1 / 131072)) := by
  have hrange : CacheInRange dawnCache := fun t ht => by
    obtain rfl := List.mem_singleton.mp ht
    exact ⟨by decide, by decide⟩
  have htime : Double.ofRat (6 + 1 / 131072) = .fin (6 + 1 / 131072) dawn_bounded :=
    Double.ofRat_of_le dawn_bounded
  have h := announced_time_iff configDefault hrange (i := 0) rfl htime (by decide +kernel)
  rwa [htime] at h

/-- It is announced for 06:01 by the cycle that builds the list, and for 06:00 by any other. -/
theorem dawn_announced_early :
    dawnCache.triggers.items.map (fun t => InDoubles.formatTimeCfg configDefault t.prayerTime) =
        [ascii "06:01"] ∧
      (InDoubles.cacheLoad (some (cacheText dawnCache)) true).map (fun c =>
          c.triggers.items.map fun t => InDoubles.formatTimeCfg configDefault t.prayerTime) =
        some [ascii "06:00"] := by
  decide +kernel

end Muslimtify.AnnouncedTime
