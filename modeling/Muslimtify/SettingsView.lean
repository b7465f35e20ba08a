import Muslimtify.Handle
import Muslimtify.NextPrayer

/-!
# The settings as the public functions show them

The library hands out the location and the notification settings as structures
of their own, with enumerations where the configuration stores words. A word is
found by the table that it is stored from, so what is shown for a value of an
enumeration is the word that was looked up.
-/
namespace Muslimtify.SettingsView
open CText CDouble Settings Schedule Detection PublicTimes NextPrayer Handle

section Words

/-- The first index of a word. -/
def keyFind (keys : List CString) (key : CString) : Option ℤ :=
  (keys.findIdx? (· = key)).map fun i : ℕ => (i : ℤ)

/-- A word handed out, for any value of the enumeration. -/
def keyAtOrUnknown (keys : List CString) (value : ℤ) : CString :=
  (keyAt keys value).getD (ascii "unknown")

def muslimtifyUrgencyKey (urgency : ℤ) : CString := keyAtOrUnknown urgencyKeys urgency

def muslimtifySoundModeKey (mode : ℤ) : CString := keyAtOrUnknown soundKeys mode

end Words

section Getters

structure MuslimtifyLocation where
  isSet : Bool
  latitude : Double
  longitude : Double
  timezone : CBuffer 64
  utcOffset : Double
  city : CBuffer 128
  country : CBuffer 64
  autoDetect : Bool
  gps : Bool
  refreshInterval : ℤ

structure MuslimtifyPrayerSettings where
  enabled : Bool
  adhanEnabled : Bool
  offset : ℤ
  reminders : FixedArray ℤ maxReminders
  adhanFile : CBuffer 512

structure MuslimtifyNotification where
  urgency : ℤ
  soundMode : ℤ
  prayers : PrayerType → MuslimtifyPrayerSettings

variable (H : Host) (cfg : Config)

/-- `today` is the date of the system's clock. -/
def muslimtifyGetLocation (today : CivilDays.CivilDate) : MuslimtifyLocation where
  isSet := muslimtifyHasLocation cfg
  latitude := cfg.latitude
  longitude := cfg.longitude
  timezone := copyString 64 cfg.timezone.text
  utcOffset := effectiveTzOffset H cfg today.year today.month today.day
  city := copyString 128 cfg.city.text
  country := copyString 64 cfg.country.text
  autoDetect := cfg.autoDetect
  gps := cfg.useGps
  refreshInterval := cfg.refreshInterval

/-- A word that is none of the enumeration's stands for its usual value. -/
def muslimtifyGetNotification : MuslimtifyNotification where
  urgency := (keyFind urgencyKeys cfg.notificationUrgency.text).getD 1
  soundMode := (keyFind soundKeys cfg.notificationSound.text).getD 1
  prayers type :=
    { enabled := (prayerGetConfig cfg type).enabled
      adhanEnabled := (prayerGetConfig cfg type).adhanEnabled
      offset := (prayerGetConfig cfg type).offset
      reminders := FixedArray.empty.pushAll (prayerGetConfig cfg type).reminders.items
      adhanFile := copyString 512 (prayerGetConfig cfg type).adhan.text }

end Getters

section WordLemmas

theorem keyAt_keyFind {keys : List CString} {key : CString} {value : ℤ}
    (h : keyFind keys key = some value) : keyAt keys value = some key := by
  obtain ⟨i, hi, rfl⟩ := Option.map_eq_some_iff.mp h
  obtain ⟨hlt, heq, -⟩ := List.findIdx?_eq_some_iff_getElem.mp hi
  rw [keyAt, if_neg (by omega), Int.toNat_natCast, List.getElem?_eq_getElem hlt]
  exact congrArg some (of_decide_eq_true heq)

end WordLemmas

end Muslimtify.SettingsView
