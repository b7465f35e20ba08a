import Muslimtify.CivilDays
import Muslimtify.Settings
import Mathlib.Data.List.Sort

/-!
# Prayer times of a configuration

What the program does with the solar engine: it picks the calculation
parameters, asks the engine for one date at the zone's offset of that date, and
adds each prayer's own offset to the result. A time is a number of hours from
the date's local midnight and may lie outside the date.

The engine itself works in floating point with the C library's trigonometry, and
the time zone offsets come from the system's database. Both are left open here,
as is the order in which `qsort` leaves equal elements: a `Host` is any choice of
the three.
-/
namespace Muslimtify.Schedule
open CText CDouble CivilDays Settings

section Methods

inductive CalcMethod
  | mwl
  | makkah
  | isna
  | egypt
  | karachi
  | turkey
  | singapore
  | jakim
  | kemenag
  | france
  | russia
  | dubai
  | qatar
  | kuwait
  | jordan
  | gulf
  | tunisia
  | algeria
  | morocco
  | portugal
  | moonsighting
  | custom
  deriving DecidableEq, Repr

inductive HighLatMethod
  | none
  | middleOfNight
  | oneSeventh
  | angleBased
  | nearestLatitude
  deriving DecidableEq, Repr

inductive MidnightMode
  | standard
  deriving DecidableEq, Repr

def asrStandard : ℤ := 1
def asrHanafi : ℤ := 2

structure MethodParams where
  name : CString
  fajrAngle : Double
  ishaAngle : Double
  ishaInterval : ℤ
  maghribInterval : ℤ
  asrShadow : ℤ
  midnightMode : MidnightMode
  ihtiyat : ℤ
  highLatMethod : HighLatMethod
  highLatRef : Double
  deriving DecidableEq, Repr

/-- A row of the method table. Every row has the standard shadow factor. -/
private def methodRow (name : String) (fajrAngle ishaAngle : ℚ)
    (ishaInterval maghribInterval ihtiyat : ℤ) (highLatMethod : HighLatMethod)
    (highLatRef : ℚ) : MethodParams :=
  ⟨ascii name, .ofRat fajrAngle, .ofRat ishaAngle, ishaInterval, maghribInterval, asrStandard,
    .standard, ihtiyat, highLatMethod, .ofRat highLatRef⟩

def methodParamsGet : CalcMethod → MethodParams
  | .mwl => methodRow "Muslim World League" 18 17 0 0 0 .angleBased 45
  | .makkah => methodRow "Umm al-Qura, Makkah" 18.5 0 90 0 0 .angleBased 0
  | .isna => methodRow "ISNA" 15 15 0 0 0 .angleBased 0
  | .egypt => methodRow "Egyptian General Authority" 19.5 17.5 0 0 0 .angleBased 0
  | .karachi => methodRow "Univ. Islamic Sciences, Karachi" 18 18 0 0 0 .angleBased 0
  | .turkey => methodRow "Diyanet, Turkey" 18 17 0 0 0 .angleBased 0
  | .singapore => methodRow "MUIS, Singapore" 20 18 0 0 0 .angleBased 0
  | .jakim => methodRow "JAKIM, Malaysia" 20 18 0 0 0 .angleBased 0
  | .kemenag => methodRow "KEMENAG, Indonesia" 20 18 0 0 2 .angleBased 0
  | .france => methodRow "UOIF, France" 12 12 0 0 0 .angleBased 0
  | .russia => methodRow "Spiritual Admin., Russia" 16 15 0 0 0 .angleBased 0
  | .dubai => methodRow "GAIAE, Dubai" 18.2 18.2 0 0 0 .angleBased 0
  | .qatar => methodRow "Min. of Awqaf, Qatar" 18 0 90 0 0 .angleBased 0
  | .kuwait => methodRow "Min. of Awqaf, Kuwait" 18 17.5 0 0 0 .angleBased 0
  | .jordan => methodRow "Min. of Awqaf, Jordan" 18 18 0 0 5 .angleBased 0
  | .gulf => methodRow "Gulf Region" 19.5 0 90 0 0 .angleBased 0
  | .tunisia => methodRow "Min. of Religious Affairs, Tunisia" 18 18 0 0 0 .angleBased 0
  | .algeria => methodRow "Min. of Religious Affairs, Algeria" 18 17 0 0 0 .angleBased 0
  | .morocco => methodRow "Min. of Habous, Morocco" 19 17 0 0 0 .angleBased 0
  | .portugal => methodRow "Comunidade Islamica de Lisboa" 18 0 77 3 0 .angleBased 0
  | .moonsighting => methodRow "Moonsighting Committee" 18 18 0 3 0 .oneSeventh 60
  | .custom => methodRow "Custom" 18 17 0 0 0 .angleBased 0

def methodKeys : List (CString × CalcMethod) :=
  [(ascii "mwl", .mwl), (ascii "makkah", .makkah), (ascii "isna", .isna),
    (ascii "egypt", .egypt), (ascii "karachi", .karachi), (ascii "turkey", .turkey),
    (ascii "singapore", .singapore), (ascii "jakim", .jakim), (ascii "kemenag", .kemenag),
    (ascii "france", .france), (ascii "russia", .russia), (ascii "dubai", .dubai),
    (ascii "qatar", .qatar), (ascii "kuwait", .kuwait), (ascii "jordan", .jordan),
    (ascii "gulf", .gulf), (ascii "tunisia", .tunisia), (ascii "algeria", .algeria),
    (ascii "morocco", .morocco), (ascii "portugal", .portugal),
    (ascii "moonsighting", .moonsighting), (ascii "custom", .custom)]

/-- `pt__ascii_casecmp(a, b) == 0` -/
def asciiCaseEq (a b : CString) : Bool := a.map toLower = b.map toLower

/-- An unknown name is `CALC_CUSTOM`. -/
def methodFromString (name : CString) : CalcMethod :=
  match methodKeys.find? fun k => asciiCaseEq name k.1 with
  | some k => k.2
  | none => .custom

def methodParamsFromConfig (cfg : Config) : MethodParams :=
  let method := methodFromString cfg.calculationMethod.text
  let params := methodParamsGet method
  let params := if cfg.madhab.text = ascii "hanafi" then { params with asrShadow := asrHanafi }
    else { params with asrShadow := asrStandard }
  if method = .custom then
    let params := if cfg.fajrAngle.isPos then { params with fajrAngle := cfg.fajrAngle } else params
    if cfg.ishaAngle.isPos then { params with ishaAngle := cfg.ishaAngle } else params
  else params

end Methods

/-- The prescribed prayer times of one date, in hours from its local midnight. -/
structure PrayerTimes where
  fajr : Double
  dhuhr : Double
  asr : Double
  maghrib : Double
  isha : Double
  deriving DecidableEq, Repr

def prayerGetTime (times : PrayerTimes) : PrayerType → Double
  | .fajr => times.fajr
  | .dhuhr => times.dhuhr
  | .asr => times.asr
  | .maghrib => times.maghrib
  | .isha => times.isha

/-- A comparison function that orders by a number. -/
def OrdersBy {α : Type} (cmp : α → α → ℤ) : Prop := ∃ key : α → ℤ, ∀ a b, cmp a b = key a - key b

/-- What the program takes from outside: the solar engine, the time zone
database and the C library's `qsort`. -/
structure Host where
  calculatePrayerTimes : (year month day : ℤ) → (latitude longitude timezone : Double) →
    MethodParams → PrayerTimes
  timezoneExists : CString → Bool
  parseTimezoneOffset : CString → ℤ → Double
  qsort : {α : Type} → (α → α → ℤ) → List α → List α
  qsort_perm : ∀ {α : Type} (cmp : α → α → ℤ) (l : List α), OrdersBy cmp → (qsort cmp l).Perm l
  qsort_sorted : ∀ {α : Type} (cmp : α → α → ℤ) (l : List α), OrdersBy cmp →
    (qsort cmp l).Pairwise fun a b => cmp a b ≤ 0

/-- The host with the given engine and zone database that sorts by insertion. -/
def Host.insertionSorting (engine : (year month day : ℤ) →
    (latitude longitude timezone : Double) → MethodParams → PrayerTimes)
    (zoneExists : CString → Bool) (zoneOffset : CString → ℤ → Double) : Host where
  calculatePrayerTimes := engine
  timezoneExists := zoneExists
  parseTimezoneOffset := zoneOffset
  qsort cmp l := l.insertionSort fun a b => cmp a b ≤ 0
  qsort_perm _ _ _ := List.perm_insertionSort _ _
  qsort_sorted {α} cmp l h := by
    obtain ⟨key, hkey⟩ := h
    have total : Std.Total fun a b : α => cmp a b ≤ 0 := ⟨fun a b => by
      simp only [hkey]
      omega⟩
    have trans : IsTrans α fun a b => cmp a b ≤ 0 := ⟨fun a b c hab hbc => by
      simp only [hkey] at hab hbc ⊢
      omega⟩
    exact List.pairwise_insertionSort _ l

variable (H : Host)

def effectiveTzOffset (cfg : Config) (year month day : ℤ) : Double :=
  if !H.timezoneExists cfg.timezone.text then cfg.timezoneOffset
  else H.parseTimezoneOffset cfg.timezone.text (mtDaysFromCivil year month day * 86400 + 43200)

def prayerTimesForConfig (cfg : Config) (year month day : ℤ) : PrayerTimes :=
  if !configLatitudeIsValid cfg.latitude || !configLongitudeIsValid cfg.longitude then
    ⟨.nan, .nan, .nan, .nan, .nan⟩
  else
    let t := H.calculatePrayerTimes year month day cfg.latitude cfg.longitude
      (effectiveTzOffset H cfg year month day) (methodParamsFromConfig cfg)
    ⟨t.fajr.addRat (cfg.fajr.offset / 60), t.dhuhr.addRat (cfg.dhuhr.offset / 60),
      t.asr.addRat (cfg.asr.offset / 60), t.maghrib.addRat (cfg.maghrib.offset / 60),
      t.isha.addRat (cfg.isha.offset / 60)⟩

/-- The prayer times of a day number. -/
def timesOfDay (cfg : Config) (day : ℤ) : PrayerTimes :=
  prayerTimesForConfig H cfg (mtCivilFromDays day).year (mtCivilFromDays day).month
    (mtCivilFromDays day).day

section ClockTexts

/-- Conversion of a finite `double` to an integer type. -/
def truncate (q : ℚ) : ℤ := if 0 ≤ q then ⌊q⌋ else ⌈q⌉

/-- `fmod(t, 24)`, moved into the day. -/
def normalizeClockHours (t : ℚ) : ℚ :=
  let t := t - 24 * truncate (t / 24)
  if t < 0 then t + 24 else t

def formatTimeHm : Double → CString
  | .fin q _ =>
      let t := normalizeClockHours q
      let hours := truncate t
      let minutes := ⌈(t - hours) * 60⌉
      let hm := if 60 ≤ minutes then (hours + 1, minutes - 60) else (hours, minutes)
      formatIntPad 2 (hm.1.tmod 24) ++ 0x3a :: formatIntPad 2 hm.2
  | _ => ascii "--:--"

/-- The hour and the minute an `HH:MM` text shows. -/
def readHm (hm : CString) : ℤ × ℤ :=
  let digit (i : ℕ) : ℤ := (hm.getD i 0).toNat - 0x30
  (digit 0 * 10 + digit 1, digit 3 * 10 + digit 4)

def clockFormat (hour minute timeFormat : ℤ) : CString :=
  let mm := toUnsigned minute % 100
  if timeFormat ≠ 12 then formatIntPad 2 (toUnsigned hour % 100) ++ 0x3a :: formatIntPad 2 mm
  else
    let meridiem := if hour < 12 then ascii "AM" else ascii "PM"
    let hour12 := if hour.tmod 12 = 0 then 12 else hour.tmod 12
    formatIntPad 2 (toUnsigned hour12 % 100) ++ 0x3a :: (formatIntPad 2 mm ++ 0x20 :: meridiem)

def formatTimeCfg (cfg : Config) (hours : Double) : CString :=
  let hm := formatTimeHm hours
  if hm.head? = some 0x2d then hm
  else clockFormat (readHm hm).1 (readHm hm).2 cfg.timeFormat

end ClockTexts

end Muslimtify.Schedule
