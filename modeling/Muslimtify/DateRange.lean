import Muslimtify.Calendar
import Muslimtify.NextPrayer

/-!
# Date ranges

`muslimtify_range` fills an array with the days from one date to another. Both
dates are checked against a table of month lengths, the number of days between
them is the difference of their day numbers, and each day's date is read back
from its number.

The dates that pass the check are those of the calendar, so the array holds the
calendar's days from the first date to the last.
-/
namespace Muslimtify.DateRange
open CText CDouble CivilDays Calendar Settings Schedule Detection PublicTimes NextPrayer

/-- `MUSLIMTIFY_MAX_RANGE_DAYS` -/
def maxRangeDays : ℤ := 366

/-- The error, and what `*days` holds afterwards. -/
def muslimtifyCheckRange (start end_ : CivilDate) (days : ℕ) : MuslimtifyError × ℕ :=
  if !dateIsValid start || !dateIsValid end_ then (.invalidDate, days)
  else
    let span := mtDaysFromCivil end_.year end_.month end_.day -
      mtDaysFromCivil start.year start.month start.day + 1
    if span < 1 then (.dateOrder, days)
    else if maxRangeDays < span then (.rangeTooLong, days)
    else (.ok, span.toNat)

/-- A day with the index of its upcoming prayer, or -1. -/
structure ShownDay extends MuslimtifyDay where
  next : ℤ

section Ranges
variable (H : Host) (cfg : Config) (now : Tm)

/-- Only a prayer of the day itself is marked. -/
def nextIndex (date : CivilDate) : ℤ :=
  if now.date = date then
    let next := prayerGetNext H cfg now (prayerTimesForConfig H cfg date.year date.month date.day)
    match next.type with
    | some type => if next.dayDelta = 0 then prayerTypes.idxOf type else -1
    | none => -1
  else -1

def muslimtifyDayAt (date : CivilDate) : Except MuslimtifyError ShownDay :=
  match (muslimtifyCheckRange date date 0).1 with
  | .ok => (muslimtifyDay H cfg date).map fun day => { day with next := nextIndex H cfg now date }
  | err => .error err

end Ranges

/-- The loop over the days that are left, with what it has written to `out`. -/
def fillDays (dayAt : CivilDate → Except MuslimtifyError ShownDay) (start : ℤ) :
    ℕ → ℕ → List ShownDay → MuslimtifyError × List ShownDay
  | 0, _, out => (.ok, out)
  | n + 1, i, out =>
      match dayAt (mtCivilFromDays (start + i)) with
      | .error err => (err, out)
      | .ok day => fillDays dayAt start n (i + 1) (out ++ [day])

/-- The error, what `*count` holds afterwards, and what was written to `out`. -/
structure Filled where
  error : MuslimtifyError
  count : ℕ
  out : List ShownDay

/-- A null handle is `none`. -/
def muslimtifyRange (H : Host) (mt : Option Config) (now : Tm) (start end_ : CivilDate)
    (cap count : ℕ) : Filled :=
  match mt with
  | none => ⟨.invalidArg, count, []⟩
  | some cfg =>
      let (err, days) := muslimtifyCheckRange start end_ 0
      if err ≠ .ok then ⟨err, count, []⟩
      else if cap < days then ⟨.rangeTooLong, count, []⟩
      else
        let startNum := mtDaysFromCivil start.year start.month start.day
        let (err, out) := fillDays (muslimtifyDayAt H cfg now) startNum days 0 []
        if err ≠ .ok then ⟨err, count, out⟩ else ⟨.ok, days, out⟩

section Validity

/-- A date of the calendar in the years 1 to 9999. -/
structure InCalendar (t : CivilDate) : Prop extends Gregorian t where
  year : 1 ≤ t.year ∧ t.year ≤ 9999

theorem daysInMonth_eq {year : ℤ} (hyear : 1 ≤ year) (month : ℤ) :
    daysInMonth year month = monthLength year month := by
  simp only [daysInMonth, monthLength, LeapYear, Int.tmod_eq_emod_of_nonneg (by omega : 0 ≤ year)]
  congr 2
  rw [eq_iff_iff]
  omega

/-- The dates that pass the check are those of the calendar. -/
theorem dateIsValid_iff {t : CivilDate} : dateIsValid t = true ↔ InCalendar t := by
  simp only [dateIsValid, Bool.and_eq_true, decide_eq_true_eq]
  constructor
  · rintro ⟨⟨⟨⟨⟨hy₁, hy₂⟩, hm₁⟩, hm₂⟩, hd₁⟩, hd₂⟩
    rw [daysInMonth_eq hy₁] at hd₂
    exact ⟨⟨⟨hm₁, hm₂⟩, hd₁, hd₂⟩, hy₁, hy₂⟩
  · intro h
    rw [daysInMonth_eq h.year.1]
    exact ⟨⟨⟨⟨h.year, h.month.1⟩, h.month.2⟩, h.day.1⟩, h.day.2⟩

/-- So many days after the first date comes the last. -/
def Spans (start end_ : CivilDate) (n : ℕ) : Prop := nextDay^[n] start = end_

theorem inCalendar_of_spans {start end_ : CivilDate} {n : ℕ} (hs : InCalendar start)
    (he : InCalendar end_) (h : Spans start end_ n) {i : ℕ} (hi : i ≤ n) :
    InCalendar (nextDay^[i] start) := by
  have hfirst := year_mono start (Nat.zero_le i)
  have hlast := year_mono start hi
  rw [show nextDay^[n] start = end_ from h] at hlast
  exact ⟨hs.toGregorian.iterate i, hs.year.1.trans hfirst, hlast.trans he.year.2⟩

/-- The range that passes the check, with the days it spans. -/
theorem muslimtifyCheckRange_ok {start end_ : CivilDate} {days days' : ℕ} :
    muslimtifyCheckRange start end_ days = (.ok, days') ↔
      InCalendar start ∧ InCalendar end_ ∧ ∃ n, Spans start end_ n ∧ days' = n + 1 ∧
        (days' : ℤ) ≤ maxRangeDays := by
  unfold muslimtifyCheckRange
  by_cases hvalid : InCalendar start ∧ InCalendar end_
  · obtain ⟨hs, he⟩ := hvalid
    have hspans : ∀ n, Spans start end_ n ↔ dayNumber end_ = dayNumber start + n :=
      hs.toGregorian.iterate_eq_iff he.toGregorian
    simp only [dayNumber] at hspans
    rw [dateIsValid_iff.mpr hs, dateIsValid_iff.mpr he, if_neg (by decide)]
    simp only [hspans]
    generalize mtDaysFromCivil end_.year end_.month end_.day = last
    generalize mtDaysFromCivil start.year start.month start.day = first
    refine ⟨fun h => ⟨hs, he, ?_⟩, ?_⟩
    · split_ifs at h with horder hlong
      · cases h
      · cases h
      · rw [Prod.mk.injEq] at h
        exact ⟨(last - first).toNat, by omega, by omega, by omega⟩
    · rintro ⟨-, -, n, hn, rfl, hlong⟩
      rw [if_neg (by omega), if_neg (by omega)]
      exact Prod.ext rfl (by omega)
  · have hinvalid : (!dateIsValid start || !dateIsValid end_) = true := by
      rw [← dateIsValid_iff, ← dateIsValid_iff] at hvalid
      cases hs : dateIsValid start <;> cases he : dateIsValid end_ <;> simp_all
    rw [if_pos hinvalid]
    exact ⟨fun h => (by cases h), fun h => absurd ⟨h.1, h.2.1⟩ hvalid⟩

theorem muslimtifyCheckRange_error {start end_ : CivilDate} {days : ℕ}
    (h : (muslimtifyCheckRange start end_ days).1 ≠ .ok) :
    (muslimtifyCheckRange start end_ days).2 = days := by
  unfold muslimtifyCheckRange at h ⊢
  dsimp only at h ⊢
  split_ifs at h ⊢
  · rfl
  · rfl
  · rfl
  · exact absurd rfl h

end Validity

section Filling
variable {H : Host} {cfg : Config} {now : Tm}

/-- A valid date has its day once a location is set. -/
theorem muslimtifyDayAt_ok {date : CivilDate} (hdate : InCalendar date)
    (hloc : muslimtifyHasLocation cfg = true) :
    ∃ day, muslimtifyDayAt H cfg now date = .ok day ∧ day.date = date := by
  have hcheck : muslimtifyCheckRange date date 0 = (.ok, 1) :=
    muslimtifyCheckRange_ok.mpr ⟨hdate, hdate, 0, rfl, rfl, by decide⟩
  simp only [muslimtifyDayAt, hcheck, muslimtifyDay, dateIsValid_iff.mpr hdate, hloc, Bool.not_true,
    Bool.false_eq_true, if_false]
  exact ⟨_, rfl, rfl⟩

theorem muslimtifyDayAt_unlocated {date : CivilDate} (hdate : InCalendar date)
    (hloc : muslimtifyHasLocation cfg = false) :
    muslimtifyDayAt H cfg now date = .error .noLocation := by
  have hcheck : muslimtifyCheckRange date date 0 = (.ok, 1) :=
    muslimtifyCheckRange_ok.mpr ⟨hdate, hdate, 0, rfl, rfl, by decide⟩
  simp only [muslimtifyDayAt, hcheck, muslimtifyDay, dateIsValid_iff.mpr hdate, hloc, Bool.not_true,
    Bool.not_false, Bool.false_eq_true, if_false, if_true]
  rfl

/-- The loop writes the days one after another. -/
theorem fillDays_ok {first : ℤ} (hloc : muslimtifyHasLocation cfg = true) (n i : ℕ)
    (hdates : ∀ k : ℕ, k < n → InCalendar (mtCivilFromDays (first + i + k)))
    (out : List ShownDay) :
    ∃ days, fillDays (muslimtifyDayAt H cfg now) first n i out = (.ok, out ++ days) ∧
      days.map (·.date) = (List.range n).map fun k : ℕ => mtCivilFromDays (first + i + k) := by
  induction n generalizing i out with
  | zero => exact ⟨[], by simp [fillDays], rfl⟩
  | succ n ih =>
      have hshift : ∀ k : ℕ, first + i + (k + 1 : ℕ) = first + (i + 1 : ℕ) + k := by
        intro k
        push_cast
        ring
      have hfirst : InCalendar (mtCivilFromDays (first + i)) := by
        have := hdates 0 (Nat.succ_pos n)
        rwa [Nat.cast_zero, add_zero] at this
      obtain ⟨day, hday, hdate⟩ : ∃ day, muslimtifyDayAt H cfg now (mtCivilFromDays (first + i)) =
          .ok day ∧ day.date = mtCivilFromDays (first + i) := muslimtifyDayAt_ok hfirst hloc
      obtain ⟨days, hdays, hrest⟩ := ih (i + 1) (fun k hk => by
        rw [← hshift]
        exact hdates (k + 1) (Nat.succ_lt_succ hk)) (out ++ [day])
      refine ⟨day :: days, ?_, ?_⟩
      · rw [fillDays, hday]
        simpa using hdays
      · rw [List.map_cons, hrest, List.range_succ_eq_map, List.map_cons, List.map_map, hdate,
          Nat.cast_zero, add_zero]
        exact congrArg _ (List.map_congr_left fun k _ => by rw [Function.comp, hshift])

theorem fillDays_unlocated {first : ℤ} (hloc : muslimtifyHasLocation cfg = false) (n i : ℕ)
    (hfirst : InCalendar (mtCivilFromDays (first + i))) (out : List ShownDay) :
    fillDays (muslimtifyDayAt H cfg now) first (n + 1) i out = (.noLocation, out) := by
  rw [fillDays, muslimtifyDayAt_unlocated hfirst hloc]

end Filling

section Outcomes
variable {H : Host} {cfg : Config} {now : Tm} {start end_ : CivilDate} {cap count n : ℕ}

theorem Spans.unique (hs : InCalendar start) {m : ℕ} (h : Spans start end_ m)
    (h' : Spans start end_ n) : m = n := by
  have hm := hs.toGregorian.dayNumber_iterate m
  have hn := hs.toGregorian.dayNumber_iterate n
  rw [show nextDay^[m] start = end_ from h] at hm
  rw [show nextDay^[n] start = end_ from h'] at hn
  omega

/-- A checked range that fits, once a location is set. -/
theorem muslimtifyRange_filled (hs : InCalendar start) (he : InCalendar end_)
    (hspan : Spans start end_ n) (hlong : n + 1 ≤ 366) (hcap : n + 1 ≤ cap)
    (hloc : muslimtifyHasLocation cfg = true) :
    ∃ days, muslimtifyRange H (some cfg) now start end_ cap count = ⟨.ok, n + 1, days⟩ ∧
      days.map (·.date) = (List.range (n + 1)).map fun i => nextDay^[i] start := by
  have hcheck : muslimtifyCheckRange start end_ 0 = (.ok, n + 1) :=
    muslimtifyCheckRange_ok.mpr ⟨hs, he, n, hspan, rfl, by rw [maxRangeDays]; omega⟩
  have hdate : ∀ k : ℕ, mtCivilFromDays (dayNumber start + (0 : ℕ) + k) = nextDay^[k] start := by
    intro k
    rw [Nat.cast_zero, add_zero, hs.toGregorian.mtCivilFromDays_add]
  obtain ⟨days, hfill, hdays⟩ : ∃ days, fillDays (muslimtifyDayAt H cfg now) (dayNumber start)
      (n + 1) 0 [] = (.ok, [] ++ days) ∧ days.map (·.date) =
        (List.range (n + 1)).map fun k : ℕ => mtCivilFromDays (dayNumber start + (0 : ℕ) + k) := by
    refine fillDays_ok hloc (n + 1) 0 (fun k hk => ?_) []
    rw [hdate]
    exact inCalendar_of_spans hs he hspan (Nat.le_of_lt_succ hk)
  rw [dayNumber, List.nil_append] at hfill
  simp only [hdate] at hdays
  refine ⟨days, ?_, hdays⟩
  simp only [muslimtifyRange, hcheck, hfill, not_lt.mpr hcap, ne_eq, not_true, if_false]

theorem muslimtifyRange_unlocated (hs : InCalendar start) (he : InCalendar end_)
    (hspan : Spans start end_ n) (hlong : n + 1 ≤ 366) (hcap : n + 1 ≤ cap)
    (hloc : muslimtifyHasLocation cfg = false) :
    muslimtifyRange H (some cfg) now start end_ cap count = ⟨.noLocation, count, []⟩ := by
  have hcheck : muslimtifyCheckRange start end_ 0 = (.ok, n + 1) :=
    muslimtifyCheckRange_ok.mpr ⟨hs, he, n, hspan, rfl, by rw [maxRangeDays]; omega⟩
  have hfirst : InCalendar (mtCivilFromDays (dayNumber start + (0 : ℕ))) := by
    rwa [hs.toGregorian.mtCivilFromDays_add]
  have hfill : fillDays (muslimtifyDayAt H cfg now) (dayNumber start) (n + 1) 0 [] =
      (.noLocation, []) := fillDays_unlocated hloc n 0 hfirst []
  rw [dayNumber] at hfill
  simp only [muslimtifyRange, hcheck, hfill, not_lt.mpr hcap, ne_eq, not_true, if_false]
  rfl

/-- A range that is not checked or does not fit stores nothing. -/
theorem muslimtifyRange_refused (h : ¬(InCalendar start ∧ InCalendar end_ ∧
    ∃ n : ℕ, Spans start end_ n ∧ n + 1 ≤ 366 ∧ n + 1 ≤ cap)) :
    (muslimtifyRange H (some cfg) now start end_ cap count).error ≠ .ok ∧
      (muslimtifyRange H (some cfg) now start end_ cap count).count = count := by
  cases hcheck : muslimtifyCheckRange start end_ 0 with
  | mk err days =>
      by_cases herr : err = .ok
      · subst herr
        obtain ⟨hs, he, n, hspan, rfl, hlong⟩ := muslimtifyCheckRange_ok.mp hcheck
        rw [maxRangeDays] at hlong
        have hcap : cap < n + 1 := by
          by_contra hfits
          exact h ⟨hs, he, n, hspan, by omega, by omega⟩
        simp only [muslimtifyRange, hcheck, hcap, ne_eq, not_true, if_false, if_true]
        exact ⟨fun h => (by cases h), trivial⟩
      · simp only [muslimtifyRange, hcheck, ne_eq, herr, not_false_iff, if_true]
        exact ⟨trivial, trivial⟩

end Outcomes

/-- The range is filled exactly when both dates are in the calendar, the first is not after the
last, there is room and a location is set. Then the array holds the days of the calendar from
the first to the last and their number is stored. Nothing is stored otherwise. -/
theorem range_exact (H : Host) (mt : Option Config) (now : Tm) (start end_ : CivilDate)
    (cap count : ℕ) :
    let r := muslimtifyRange H mt now start end_ cap count
    (r.error = .ok ↔ InCalendar start ∧ InCalendar end_ ∧
      (∃ n : ℕ, Spans start end_ n ∧ n + 1 ≤ 366 ∧ n + 1 ≤ cap) ∧
        ∃ cfg, mt = some cfg ∧ muslimtifyHasLocation cfg = true) ∧
    (r.error = .ok → ∀ n, Spans start end_ n → r.count = n + 1 ∧
      r.out.map (·.date) = (List.range (n + 1)).map fun i => nextDay^[i] start) ∧
    (r.error ≠ .ok → r.count = count) ∧
    ∀ days, (muslimtifyCheckRange start end_ days).1 ≠ .ok →
      (muslimtifyCheckRange start end_ days).2 = days := by
  intro r
  have hchecks : ∀ days, (muslimtifyCheckRange start end_ days).1 ≠ .ok →
      (muslimtifyCheckRange start end_ days).2 = days := fun _ => muslimtifyCheckRange_error
  cases mt with
  | none =>
      exact ⟨⟨fun h => (by cases h), fun ⟨_, _, _, _, h, _⟩ => (by cases h)⟩,
        fun h => (by cases h), fun _ => rfl, hchecks⟩
  | some cfg =>
      by_cases hfits : InCalendar start ∧ InCalendar end_ ∧
          ∃ n : ℕ, Spans start end_ n ∧ n + 1 ≤ 366 ∧ n + 1 ≤ cap
      · obtain ⟨hs, he, n, hspan, hlong, hcap⟩ := hfits
        cases hloc : muslimtifyHasLocation cfg with
        | false =>
            have hr : r = ⟨.noLocation, count, []⟩ :=
              muslimtifyRange_unlocated hs he hspan hlong hcap hloc
            rw [hr]
            refine ⟨⟨fun h => (by cases h), ?_⟩, fun h => (by cases h), fun _ => rfl, hchecks⟩
            rintro ⟨-, -, -, cfg', hcfg, hset⟩
            rw [← Option.some.inj hcfg, hloc] at hset
            cases hset
        | true =>
            obtain ⟨days, hr, hdays⟩ : ∃ days, r = ⟨.ok, n + 1, days⟩ ∧ _ :=
              muslimtifyRange_filled hs he hspan hlong hcap hloc
            rw [hr]
            refine ⟨⟨fun _ => ⟨hs, he, ⟨n, hspan, hlong, hcap⟩, cfg, rfl, hloc⟩, fun _ => rfl⟩,
              fun _ m hm => ?_, fun h => absurd rfl h, hchecks⟩
            rw [Spans.unique hs hm hspan]
            exact ⟨rfl, hdays⟩
      · obtain ⟨herr, hcount⟩ : r.error ≠ .ok ∧ r.count = count := muslimtifyRange_refused hfits
        exact ⟨⟨fun h => absurd h herr, fun ⟨hs, he, hn, _⟩ => absurd ⟨hs, he, hn⟩ hfits⟩,
          fun h => absurd h herr, fun _ => hcount, hchecks⟩

end Muslimtify.DateRange
