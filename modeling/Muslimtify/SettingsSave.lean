import Muslimtify.DaemonCycle

/-!
# Changing a setting

A frontend opens the settings, changes one of them in its own copy and saves the
copy whole. `muslimtify_save` writes the file and then deletes the trigger cache,
which is how the daemon hears of the change; whether the deletion worked is not
looked at.

A setter either refuses its argument or changes the one field it names, and
keeps the settings in the ranges the loader enforces.
-/
namespace Muslimtify.SettingsSave
open CText CDouble Settings ConfigFile ConfigRoundTrip Schedule Detection DaemonCycle Program

section Setters

def methodToString (method : CalcMethod) : CString :=
  match methodKeys.find? fun k => k.2 = method with
  | some k => k.1
  | none => ascii "custom"

inductive MuslimtifyMadhab
  | shafi
  | hanafi
  deriving DecidableEq, Repr

def madhabKey : MuslimtifyMadhab → CString
  | .shafi => ascii "shafi"
  | .hanafi => ascii "hanafi"

inductive MuslimtifyUrgency
  | low
  | normal
  | critical
  deriving DecidableEq, Repr

def urgencyKey : MuslimtifyUrgency → CString
  | .low => ascii "low"
  | .normal => ascii "normal"
  | .critical => ascii "critical"

inductive MuslimtifySoundMode
  | adhan
  | default
  | off
  deriving DecidableEq, Repr

def soundKey : MuslimtifySoundMode → CString
  | .adhan => ascii "adhan"
  | .default => ascii "default"
  | .off => ascii "off"

/-- One prayer's settings changed. -/
def updatePrayer (cfg : Config) (f : PrayerConfig → PrayerConfig) : PrayerType → Config
  | .fajr => { cfg with fajr := f cfg.fajr }
  | .dhuhr => { cfg with dhuhr := f cfg.dhuhr }
  | .asr => { cfg with asr := f cfg.asr }
  | .maghrib => { cfg with maghrib := f cfg.maghrib }
  | .isha => { cfg with isha := f cfg.isha }

variable (cfg : Config)

/-- Only the spelling of the table is a method, and `custom` cannot be chosen. -/
def muslimtifySetMethod (key : CString) : Except MuslimtifyError Config :=
  let method := methodFromString key
  if method = .custom ∨ key ≠ methodToString method then .error .unknownMethod
  else .ok { cfg with calculationMethod := copyString 32 key }

def muslimtifySetMadhab (madhab : MuslimtifyMadhab) : Except MuslimtifyError Config :=
  .ok { cfg with madhab := copyString 16 (madhabKey madhab) }

def muslimtifySetTimeFormat (timeFormat : ℤ) : Except MuslimtifyError Config :=
  if timeFormat ≠ 12 ∧ timeFormat ≠ 24 then .error .invalidValue
  else .ok { cfg with timeFormat := timeFormat }

def muslimtifySetPrayerEnabled (prayer : PrayerType) (enabled : Bool) :
    Except MuslimtifyError Config :=
  .ok (updatePrayer cfg (fun p => { p with enabled := enabled }) prayer)

def muslimtifySetPrayerOffset (prayer : PrayerType) (minutes : ℤ) :
    Except MuslimtifyError Config :=
  if minutes < prayerOffsetMin ∨ prayerOffsetMax < minutes then .error .invalidOffset
  else .ok (updatePrayer cfg (fun p => { p with offset := minutes }) prayer)

def muslimtifySetPrayerReminders (prayer : PrayerType) (minutes : List ℤ) :
    Except MuslimtifyError Config :=
  if h : maxReminders < minutes.length then .error .tooManyReminders
  else if minutes.any fun r => r < 1 || 1440 < r then .error .invalidReminder
  else .ok (updatePrayer cfg (fun p => { p with reminders := ⟨minutes, Nat.not_lt.mp h⟩ }) prayer)

def muslimtifySetPrayerAdhan (prayer : PrayerType) (enabled : Bool) :
    Except MuslimtifyError Config :=
  .ok (updatePrayer cfg (fun p => { p with adhanEnabled := enabled }) prayer)

/-- The path is the one the platform resolved. -/
def muslimtifySetPrayerAdhanFile (prayer : PrayerType) (resolved : CString) :
    Except MuslimtifyError Config :=
  .ok (updatePrayer cfg (fun p => { p with adhan := copyString 512 resolved }) prayer)

def muslimtifySetUrgency (urgency : MuslimtifyUrgency) : Except MuslimtifyError Config :=
  .ok { cfg with notificationUrgency := copyString 16 (urgencyKey urgency) }

def muslimtifySetSoundMode (mode : MuslimtifySoundMode) : Except MuslimtifyError Config :=
  .ok { cfg with notificationSound := copyString 16 (soundKey mode) }

end Setters

/-- A call of a setter whose field has nothing to do with the location. -/
inductive Setting
  | method (key : CString)
  | madhab (school : MuslimtifyMadhab)
  | timeFormat (hours : ℤ)
  | prayerEnabled (prayer : PrayerType) (enabled : Bool)
  | prayerOffset (prayer : PrayerType) (minutes : ℤ)
  | prayerReminders (prayer : PrayerType) (minutes : List ℤ)
  | prayerAdhan (prayer : PrayerType) (enabled : Bool)
  | prayerAdhanFile (prayer : PrayerType) (resolved : CString)
  | urgency (level : MuslimtifyUrgency)
  | soundMode (mode : MuslimtifySoundMode)
  deriving DecidableEq, Repr

/-- What the setter does to a handle's settings. -/
def Setting.set (cfg : Config) : Setting → Except MuslimtifyError Config
  | .method key => muslimtifySetMethod cfg key
  | .madhab school => muslimtifySetMadhab cfg school
  | .timeFormat hours => muslimtifySetTimeFormat cfg hours
  | .prayerEnabled prayer enabled => muslimtifySetPrayerEnabled cfg prayer enabled
  | .prayerOffset prayer minutes => muslimtifySetPrayerOffset cfg prayer minutes
  | .prayerReminders prayer minutes => muslimtifySetPrayerReminders cfg prayer minutes
  | .prayerAdhan prayer enabled => muslimtifySetPrayerAdhan cfg prayer enabled
  | .prayerAdhanFile prayer resolved => muslimtifySetPrayerAdhanFile cfg prayer resolved
  | .urgency level => muslimtifySetUrgency cfg level
  | .soundMode mode => muslimtifySetSoundMode cfg mode

/-- The settings hold the value that the setter stored. -/
def Setting.Shows (cfg : Config) : Setting → Prop
  | .method key => cfg.calculationMethod = copyString 32 key
  | .madhab school => cfg.madhab = copyString 16 (madhabKey school)
  | .timeFormat hours => cfg.timeFormat = hours
  | .prayerEnabled prayer enabled => (prayerGetConfig cfg prayer).enabled = enabled
  | .prayerOffset prayer minutes => (prayerGetConfig cfg prayer).offset = minutes
  | .prayerReminders prayer minutes => (prayerGetConfig cfg prayer).reminders.items = minutes
  | .prayerAdhan prayer enabled => (prayerGetConfig cfg prayer).adhanEnabled = enabled
  | .prayerAdhanFile prayer resolved =>
      (prayerGetConfig cfg prayer).adhan = copyString 512 resolved
  | .urgency level => cfg.notificationUrgency = copyString 16 (urgencyKey level)
  | .soundMode mode => cfg.notificationSound = copyString 16 (soundKey mode)

/-- The location as the settings hold it, which no such setter touches. -/
structure StoredLocation where
  latitude : Double
  longitude : Double
  timezone : CBuffer 64
  timezoneOffset : Double
  autoDetect : Bool
  useGps : Bool
  city : CBuffer 128
  country : CBuffer 64
  updatedAt : ℤ
  deriving DecidableEq, Repr

def locationOf (cfg : Config) : StoredLocation where
  latitude := cfg.latitude
  longitude := cfg.longitude
  timezone := cfg.timezone
  timezoneOffset := cfg.timezoneOffset
  autoDetect := cfg.autoDetect
  useGps := cfg.useGps
  city := cfg.city
  country := cfg.country
  updatedAt := cfg.updatedAt

section Changed

theorem prayerGetConfig_updatePrayer (cfg : Config) (f : PrayerConfig → PrayerConfig)
    (p q : PrayerType) :
    prayerGetConfig (updatePrayer cfg f p) q =
      if q = p then f (prayerGetConfig cfg q) else prayerGetConfig cfg q := by
  cases p <;> cases q <;> rfl

theorem updatePrayer_inRange {cfg : Config} (h : cfg.InRange) {f : PrayerConfig → PrayerConfig}
    {p : PrayerType} (hf : (f (prayerGetConfig cfg p)).InRange) :
    (updatePrayer cfg f p).InRange where
  prayers q := by
    rw [prayerGetConfig_updatePrayer]
    split_ifs with hq
    · rw [hq]
      exact hf
    · exact h.prayers q
  gps := by cases p <;> exact h.gps
  updatedAt := by cases p <;> exact h.updatedAt
  refreshInterval := by cases p <;> exact h.refreshInterval
  refreshFloor := by cases p <;> exact h.refreshFloor
  timeout := by cases p <;> exact h.timeout
  sound := by cases p <;> exact h.sound
  timeFormat := by cases p <;> exact h.timeFormat

theorem updatePrayer_self (cfg : Config) (f : PrayerConfig → PrayerConfig) (p : PrayerType) :
    prayerGetConfig (updatePrayer cfg f p) p = f (prayerGetConfig cfg p) := by
  rw [prayerGetConfig_updatePrayer, if_pos rfl]

theorem updatePrayer_location (cfg : Config) (f : PrayerConfig → PrayerConfig) (p : PrayerType) :
    locationOf (updatePrayer cfg f p) = locationOf cfg := by
  cases p <;> rfl

/-- What a setter that accepts its argument does. -/
structure Setting.Changes (setting : Setting) (cfg changed : Config) : Prop where
  shown : setting.Shows changed
  inRange : cfg.InRange → changed.InRange
  location : locationOf changed = locationOf cfg

variable {setting : Setting} {cfg changed : Config}

/-- One prayer's settings changed to a value in range. -/
theorem Setting.Changes.prayer {f : PrayerConfig → PrayerConfig} {p : PrayerType}
    (hshown : setting.Shows (updatePrayer cfg f p))
    (hf : (prayerGetConfig cfg p).InRange → (f (prayerGetConfig cfg p)).InRange) :
    setting.Changes cfg (updatePrayer cfg f p) :=
  ⟨hshown, fun hc => updatePrayer_inRange hc (hf (hc.prayers p)), updatePrayer_location cfg f p⟩

theorem Setting.set_changes (h : setting.set cfg = .ok changed) : setting.Changes cfg changed := by
  cases setting with
  | method key =>
      simp only [Setting.set, muslimtifySetMethod] at h
      split_ifs at h
      obtain rfl := Except.ok.inj h
      exact ⟨rfl, fun hc => { hc with }, rfl⟩
  | madhab school =>
      obtain rfl := Except.ok.inj h
      exact ⟨rfl, fun hc => { hc with }, rfl⟩
  | timeFormat hours =>
      simp only [Setting.set, muslimtifySetTimeFormat] at h
      split_ifs at h with hhours
      obtain rfl := Except.ok.inj h
      exact ⟨rfl, fun hc => { hc with timeFormat := by dsimp only; omega }, rfl⟩
  | prayerEnabled prayer enabled =>
      obtain rfl := Except.ok.inj h
      exact .prayer (by rw [Setting.Shows, updatePrayer_self]) fun hp => { hp with }
  | prayerOffset prayer minutes =>
      simp only [Setting.set, muslimtifySetPrayerOffset] at h
      split_ifs at h with hbound
      obtain rfl := Except.ok.inj h
      exact .prayer (by rw [Setting.Shows, updatePrayer_self])
        fun hp => { hp with offset := by dsimp only; omega }
  | prayerReminders prayer minutes =>
      simp only [Setting.set, muslimtifySetPrayerReminders] at h
      split_ifs at h with hcount hbound
      obtain rfl := Except.ok.inj h
      refine .prayer (by rw [Setting.Shows, updatePrayer_self])
        fun hp => { hp with reminders := fun r hr => ?_ }
      simp only [List.any_eq_true, Bool.or_eq_true, decide_eq_true_eq] at hbound
      by_contra hout
      exact hbound ⟨r, hr, by omega⟩
  | prayerAdhan prayer enabled =>
      obtain rfl := Except.ok.inj h
      exact .prayer (by rw [Setting.Shows, updatePrayer_self]) fun hp => { hp with }
  | prayerAdhanFile prayer resolved =>
      obtain rfl := Except.ok.inj h
      exact .prayer (by rw [Setting.Shows, updatePrayer_self]) fun hp => { hp with }
  | urgency level =>
      obtain rfl := Except.ok.inj h
      exact ⟨rfl, fun hc => { hc with }, rfl⟩
  | soundMode mode =>
      obtain rfl := Except.ok.inj h
      exact ⟨rfl, fun hc => { hc with sound := by dsimp only; cases mode <;> decide }, rfl⟩

/-- A refusal is an error. -/
theorem Setting.set_ne_ok : setting.set cfg ≠ .error .ok := by
  intro h
  cases setting with
  | method | timeFormat | prayerOffset | prayerReminders =>
      simp only [Setting.set, muslimtifySetMethod, muslimtifySetTimeFormat,
        muslimtifySetPrayerOffset, muslimtifySetPrayerReminders] at h
      split_ifs at h <;> cases h
  | _ => cases h

/-- A setter's field depends on nothing that a detection or the file's text changes. -/
theorem Setting.Shows.congr {a b : Config} (h : setting.Shows a)
    (hmethod : b.calculationMethod = a.calculationMethod) (hmadhab : b.madhab = a.madhab)
    (hformat : b.timeFormat = a.timeFormat)
    (hprayers : ∀ p, prayerGetConfig b p = prayerGetConfig a p)
    (hurgency : b.notificationUrgency = a.notificationUrgency)
    (hsound : b.notificationSound = a.notificationSound) : setting.Shows b := by
  cases setting <;> simpa only [Setting.Shows, hmethod, hmadhab, hformat, hprayers, hurgency, hsound]

end Changed

section Saving

/-- `muslimtify_open`: the settings of the new handle. -/
def muslimtifyOpen : CycleProgram (Option Config) := loadConfig

def muslimtifySave (cfg : Config) : CycleProgram MuslimtifyError := do
  if ← saveConfig cfg then
    invalidateCache
    return .ok
  else return .configSave

/-- A frontend that opens the settings, changes one and saves them. -/
def changeSetting (setting : Setting) : CycleProgram MuslimtifyError := do
  match ← muslimtifyOpen with
  | none => return .configLoad
  | some cfg =>
      match setting.set cfg with
      | .error err => return err
      | .ok cfg => muslimtifySave cfg

end Saving

end Muslimtify.SettingsSave
