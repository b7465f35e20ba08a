import Muslimtify.CDouble
import Muslimtify.FixedArray

/-!
# The configuration

`Config` as the C structure holds it, with its defaults and the checks made on
it outside the loader. Every string field is a terminated `char` array of its
size and a reminder list never has more entries than its array, so these bounds
are part of the types and no operation has to preserve them.

The five prayers share one set of fields. They keep their own names, as in the
structure, and `prayerGetConfig` selects among them.
-/
namespace Muslimtify.Settings
open CText CDouble

def maxReminders : ℕ := 10

def prayerOffsetMin : ℤ := -60
def prayerOffsetMax : ℤ := 60

def locationDefaultRefreshSeconds : ℤ := 12 * 60 * 60
def locationMinRefreshSeconds : ℤ := 3600

structure PrayerConfig where
  enabled : Bool
  adhanEnabled : Bool
  reminders : FixedArray ℤ maxReminders
  offset : ℤ
  adhan : CBuffer 512
  deriving DecidableEq, Repr

structure Config where
  latitude : Double
  longitude : Double
  timezone : CBuffer 64
  timezoneOffset : Double
  autoDetect : Bool
  useGps : Bool
  city : CBuffer 128
  country : CBuffer 64
  updatedAt : ℤ
  refreshInterval : ℤ
  fajr : PrayerConfig
  dhuhr : PrayerConfig
  asr : PrayerConfig
  maghrib : PrayerConfig
  isha : PrayerConfig
  notificationTimeout : ℤ
  notificationUrgency : CBuffer 16
  notificationSound : CBuffer 16
  notificationSoundAlarm : CBuffer 16
  notificationSoundReminder : CBuffer 16
  notificationIcon : CBuffer 64
  calculationMethod : CBuffer 32
  madhab : CBuffer 16
  fajrAngle : Double
  ishaAngle : Double
  timeFormat : ℤ
  deriving DecidableEq, Repr

inductive PrayerType
  | fajr
  | dhuhr
  | asr
  | maghrib
  | isha
  deriving DecidableEq, Repr

/-- The prayers in the order the source lists them. -/
def prayerTypes : List PrayerType := [.fajr, .dhuhr, .asr, .maghrib, .isha]

theorem mem_prayerTypes (p : PrayerType) : p ∈ prayerTypes := by
  cases p <;> decide

theorem prayerTypes_nodup : prayerTypes.Nodup := by decide

def prayerGetName : PrayerType → CString
  | .fajr => ascii "Fajr"
  | .dhuhr => ascii "Dhuhr"
  | .asr => ascii "Asr"
  | .maghrib => ascii "Maghrib"
  | .isha => ascii "Isha"

theorem prayerGetName_injective : Function.Injective prayerGetName := by
  intro p q
  cases p <;> cases q <;> decide

theorem prayerGetName_fits (p : PrayerType) : (prayerGetName p).length < 16 := by
  cases p <;> decide

theorem prayerGetName_nulFree (p : PrayerType) : NulFree (prayerGetName p) := by
  cases p <;> decide

def prayerGetConfig (cfg : Config) : PrayerType → PrayerConfig
  | .fajr => cfg.fajr
  | .dhuhr => cfg.dhuhr
  | .asr => cfg.asr
  | .maghrib => cfg.maghrib
  | .isha => cfg.isha

def prayerIsEnabled (cfg : Config) (type : PrayerType) : Bool := (prayerGetConfig cfg type).enabled

section Defaults

def defaultReminders : FixedArray ℤ maxReminders := ⟨[30, 15, 5], by decide⟩

def prayerDefault : PrayerConfig where
  enabled := true
  adhanEnabled := true
  reminders := defaultReminders
  offset := 0
  adhan := copyString 512 (ascii "")

def configDefault : Config where
  latitude := .zero
  longitude := .zero
  timezone := copyString 64 (ascii "UTC")
  timezoneOffset := .zero
  autoDetect := true
  useGps := false
  city := .empty 128
  country := .empty 64
  updatedAt := 0
  refreshInterval := locationDefaultRefreshSeconds
  fajr := prayerDefault
  dhuhr := prayerDefault
  asr := prayerDefault
  maghrib := prayerDefault
  isha := prayerDefault
  notificationTimeout := 5000
  notificationUrgency := copyString 16 (ascii "critical")
  notificationSound := copyString 16 (ascii "adhan")
  notificationSoundAlarm := copyString 16 (ascii "alarm")
  notificationSoundReminder := copyString 16 (ascii "reminder")
  notificationIcon := copyString 64 (ascii "muslimtify")
  calculationMethod := copyString 32 (ascii "kemenag")
  madhab := copyString 16 (ascii "shafi")
  fajrAngle := .zero
  ishaAngle := .zero
  timeFormat := 24

end Defaults

section Checks

def configLatitudeIsValid (lat : Double) : Bool := lat.isfinite && lat.geRat (-90) && lat.leRat 90

def configLongitudeIsValid (lon : Double) : Bool :=
  lon.isfinite && lon.geRat (-180) && lon.leRat 180

def configLocationNeedsDetect (cfg : Config) : Bool :=
  if !cfg.autoDetect then false
  else if !configLatitudeIsValid cfg.latitude || !configLongitudeIsValid cfg.longitude then true
  else cfg.latitude.absLt (1 / 10 ^ 6) && cfg.longitude.absLt (1 / 10 ^ 6)

/-- The saved location is automatic and older than the refresh interval. -/
def locationIsStale (cfg : Config) (now : ℤ) : Bool :=
  if !cfg.autoDetect then false
  else if cfg.refreshInterval ≤ 0 then false
  else decide (cfg.refreshInterval ≤ now - cfg.updatedAt)

end Checks

section Ranges

/-- The ranges the loader enforces on one prayer's settings. -/
structure PrayerConfig.InRange (p : PrayerConfig) : Prop where
  reminders : ∀ r ∈ p.reminders.items, 1 ≤ r ∧ r ≤ 1440
  offset : prayerOffsetMin ≤ p.offset ∧ p.offset ≤ prayerOffsetMax

/-- The sound modes the loader lets through. -/
def soundModes : List CString := [ascii "adhan", ascii "default", ascii "off"]

/-- The ranges the loader enforces, the C integer types among them. -/
structure Config.InRange (cfg : Config) : Prop where
  prayers : ∀ p, (prayerGetConfig cfg p).InRange
  gps : cfg.autoDetect = false → cfg.useGps = false
  updatedAt : longMin ≤ cfg.updatedAt ∧ cfg.updatedAt ≤ longMax
  refreshInterval : longMin ≤ cfg.refreshInterval ∧ cfg.refreshInterval ≤ longMax
  refreshFloor : ¬(0 < cfg.refreshInterval ∧ cfg.refreshInterval < locationMinRefreshSeconds)
  timeout : -2 ^ 31 ≤ cfg.notificationTimeout ∧ cfg.notificationTimeout ≤ 2 ^ 31 - 1
  sound : cfg.notificationSound.text ∈ soundModes
  timeFormat : cfg.timeFormat = 12 ∨ cfg.timeFormat = 24

theorem prayerDefault_inRange : prayerDefault.InRange where
  reminders := by decide
  offset := by decide

theorem configDefault_inRange : configDefault.InRange where
  prayers p := by cases p <;> exact prayerDefault_inRange
  gps _ := rfl
  updatedAt := by decide
  refreshInterval := by decide
  refreshFloor := by decide
  timeout := by decide
  sound := by decide
  timeFormat := Or.inr rfl

end Ranges

end Muslimtify.Settings
