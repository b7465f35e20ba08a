import Muslimtify.JsonReader
import Muslimtify.Settings

/-!
# Reading the configuration file

`config_load` as it treats the bytes of the file: a file that is absent gives
the defaults, one that cannot be read, is too large or is not one braced
document is refused, and in any other the known fields of the five sections are
looked up one by one, each keeping its default when it is not there. Values are
clamped on the way in, so whatever is loaded is in range.
-/
namespace Muslimtify.ConfigFile
open CText CDouble JsonReader Settings

def maxConfigFileBytes : ℕ := 1024 * 1024

/-- `read_file`: the C string of a file that is not too large. -/
def readFile (limit : ℕ) (bytes : CString) : Option CString :=
  if limit < bytes.length then none else some (terminated bytes)

section Fields

/-- A field of an object: read when the object has it, else kept. -/
def field {α : Type} (key : String) (obj : CString) (old : α) (read : CString → α) : α :=
  match getValue (ascii key) obj with
  | some s => read s
  | none => old

/-- `strcmp(s, "true") == 0` -/
def isTrue (s : CString) : Bool := s = ascii "true"

def clamp (lo hi z : ℤ) : ℤ := if z < lo then lo else if hi < z then hi else z

theorem clamp_range {lo hi : ℤ} (h : lo ≤ hi) (z : ℤ) : lo ≤ clamp lo hi z ∧ clamp lo hi z ≤ hi := by
  unfold clamp
  split_ifs <;> omega

theorem clamp_of_range {lo hi z : ℤ} (h : lo ≤ z ∧ z ≤ hi) : clamp lo hi z = z := by
  unfold clamp
  split_ifs <;> omega

end Fields

section Prayers

def isSeparator (c : UInt8) : Bool := isspace c || c = comma

/-- The loop over the text of a reminder array. Each turn takes one number, so
the length of the text bounds the turns. -/
def reminderLoop : ℕ → CString → FixedArray ℤ maxReminders → FixedArray ℤ maxReminders
  | 0, _, reminders => reminders
  | n + 1, p, reminders =>
      if reminders.items.length < maxReminders then
        match p.dropWhile isSeparator with
        | [] => reminders
        | c :: p =>
            if isDigit c then
              let value := strtolEnd (c :: p)
              reminderLoop n value.2
                (if 0 < value.1 ∧ value.1 ≤ 1440 then reminders.push value.1 else reminders)
            else reminders
      else reminders

def parseReminders (old : FixedArray ℤ maxReminders) (s : CString) : FixedArray ℤ maxReminders :=
  match s with
  | c :: p => if c = arrayOpen then reminderLoop p.length p .empty else old
  | [] => old

def parsePrayerConfig (prayerObj : CString) (pcfg : PrayerConfig) : PrayerConfig where
  enabled := field "enabled" prayerObj pcfg.enabled isTrue
  adhan := field "adhan" prayerObj pcfg.adhan (copyString 512)
  adhanEnabled := field "adhan_enabled" prayerObj pcfg.adhanEnabled isTrue
  reminders := field "reminders" prayerObj pcfg.reminders (parseReminders pcfg.reminders)
  offset := field "offset" prayerObj pcfg.offset fun s =>
    clamp prayerOffsetMin prayerOffsetMax (strtol s)

end Prayers

section Sections

/-- The one-hour floor. Zero, which turns the refresh off, is left alone. -/
def refreshFloor (seconds : ℤ) : ℤ :=
  if 0 < seconds ∧ seconds < locationMinRefreshSeconds then locationMinRefreshSeconds else seconds

def parseLocation (location : CString) (cfg : Config) : Config :=
  let autoDetect := field "auto_detect" location cfg.autoDetect isTrue
  let useGps := field "use_gps" location cfg.useGps isTrue
  { cfg with
    latitude := field "latitude" location cfg.latitude strtod
    longitude := field "longitude" location cfg.longitude strtod
    timezone := field "timezone" location cfg.timezone (copyString 64)
    timezoneOffset := field "timezone_offset" location cfg.timezoneOffset strtod
    autoDetect := autoDetect
    useGps := if !autoDetect then false else useGps
    city := field "city" location cfg.city (copyString 128)
    country := field "country" location cfg.country (copyString 64)
    updatedAt := field "updated_at" location cfg.updatedAt strtol
    refreshInterval :=
      refreshFloor (field "refresh_interval" location cfg.refreshInterval strtol) }

def parsePrayers (prayers : CString) (cfg : Config) : Config :=
  { cfg with
    fajr := field "fajr" prayers cfg.fajr fun s => parsePrayerConfig s cfg.fajr
    dhuhr := field "dhuhr" prayers cfg.dhuhr fun s => parsePrayerConfig s cfg.dhuhr
    asr := field "asr" prayers cfg.asr fun s => parsePrayerConfig s cfg.asr
    maghrib := field "maghrib" prayers cfg.maghrib fun s => parsePrayerConfig s cfg.maghrib
    isha := field "isha" prayers cfg.isha fun s => parsePrayerConfig s cfg.isha }

/-- The sound mode of a file, the older boolean form migrated. -/
def soundMode (s : CString) : CString :=
  if s = ascii "true" then ascii "default"
  else if s = ascii "false" then ascii "off"
  else if s ≠ ascii "adhan" ∧ s ≠ ascii "default" ∧ s ≠ ascii "off" then ascii "adhan"
  else s

def intMin : ℤ := -2 ^ 31
def intMax : ℤ := 2 ^ 31 - 1

def parseNotification (notification : CString) (cfg : Config) : Config :=
  { cfg with
    notificationTimeout := field "timeout" notification cfg.notificationTimeout fun s =>
      clamp intMin intMax (strtol s)
    notificationUrgency := field "urgency" notification cfg.notificationUrgency (copyString 16)
    notificationSound := field "sound" notification cfg.notificationSound fun s =>
      copyString 16 (soundMode s)
    notificationSoundAlarm :=
      field "sound_alarm" notification cfg.notificationSoundAlarm (copyString 16)
    notificationSoundReminder :=
      field "sound_reminder" notification cfg.notificationSoundReminder (copyString 16)
    notificationIcon := field "icon" notification cfg.notificationIcon (copyString 64) }

def parseCalculation (calculation : CString) (cfg : Config) : Config :=
  { cfg with
    calculationMethod := field "method" calculation cfg.calculationMethod (copyString 32)
    madhab := field "madhab" calculation cfg.madhab (copyString 16)
    fajrAngle := field "fajr_angle" calculation cfg.fajrAngle strtod
    ishaAngle := field "isha_angle" calculation cfg.ishaAngle strtod }

def parseDisplay (display : CString) (cfg : Config) : Config :=
  { cfg with
    timeFormat := field "time_format" display cfg.timeFormat fun s =>
      if strtol s = 12 then 12 else 24 }

/-- A section of the document, when it is there. -/
def parseSection (key : String) (parse : CString → Config → Config) (content : CString)
    (cfg : Config) : Config :=
  field key content cfg fun s => parse s cfg

/-- Exactly one braced document, with white space around it. -/
def isDocument (content : CString) : Bool :=
  match findMatchingBracket (skipWhitespace content) objectOpen with
  | some (_, rest) => (skipWhitespace rest).isEmpty
  | none => false

end Sections

def parseConfig (content : CString) : Config :=
  parseSection "display" parseDisplay content <|
    parseSection "calculation" parseCalculation content <|
    parseSection "notification" parseNotification content <|
    parseSection "prayers" parsePrayers content <|
    parseSection "location" parseLocation content configDefault

/-- `config_load`. A file that is there may still not open. -/
def configLoad (file : Option CString) (opens : Bool) : Option Config :=
  match file with
  | none => some configDefault
  | some bytes =>
      if opens then
        (readFile maxConfigFileBytes bytes).bind fun content =>
          if isDocument content then some (parseConfig content) else none
      else none

section Ranges

theorem field_range {α : Type} {P : α → Prop} {key : String} {obj : CString} {old : α}
    {read : CString → α} (ho : P old) (hr : ∀ s, P (read s)) : P (field key obj old read) := by
  unfold field
  split
  · exact hr _
  · exact ho

private theorem push_range {a : FixedArray ℤ maxReminders}
    (ha : ∀ r ∈ a.items, 1 ≤ r ∧ r ≤ 1440) (v : ℤ) :
    ∀ r ∈ (if 0 < v ∧ v ≤ 1440 then a.push v else a).items, 1 ≤ r ∧ r ≤ 1440 := by
  split_ifs with hv
  · intro r hr
    rw [FixedArray.push_items] at hr
    rcases List.mem_append.mp hr with hr | hr
    · exact ha r hr
    · obtain rfl := List.mem_singleton.mp (List.mem_of_mem_take hr)
      omega
  · exact ha

theorem reminderLoop_range (n : ℕ) (p : CString) {a : FixedArray ℤ maxReminders}
    (ha : ∀ r ∈ a.items, 1 ≤ r ∧ r ≤ 1440) :
    ∀ r ∈ (reminderLoop n p a).items, 1 ≤ r ∧ r ≤ 1440 := by
  induction n generalizing p a with
  | zero => exact ha
  | succ n ih =>
      rw [reminderLoop]
      split_ifs
      · split
        · exact ha
        · split_ifs
          · exact ih _ (push_range ha _)
          · exact ha
      · exact ha

theorem parseReminders_range {old : FixedArray ℤ maxReminders}
    (ho : ∀ r ∈ old.items, 1 ≤ r ∧ r ≤ 1440) (s : CString) :
    ∀ r ∈ (parseReminders old s).items, 1 ≤ r ∧ r ≤ 1440 := by
  unfold parseReminders
  split
  · split_ifs
    · exact reminderLoop_range _ _ (by simp)
    · exact ho
  · exact ho

theorem parsePrayerConfig_inRange {pcfg : PrayerConfig} (h : pcfg.InRange) (s : CString) :
    (parsePrayerConfig s pcfg).InRange where
  reminders := field_range (P := fun a : FixedArray ℤ maxReminders =>
    ∀ r ∈ a.items, 1 ≤ r ∧ r ≤ 1440) h.reminders (parseReminders_range h.reminders)
  offset := field_range (P := fun z => prayerOffsetMin ≤ z ∧ z ≤ prayerOffsetMax) h.offset
    fun _ => clamp_range (by decide) _

theorem parseLocation_inRange {cfg : Config} (h : cfg.InRange) (s : CString) :
    (parseLocation s cfg).InRange where
  prayers p := by
    have := h.prayers p
    cases p <;> exact this
  gps hauto := by simp only [parseLocation] at hauto ⊢; simp [hauto]
  updatedAt := field_range (P := fun z => longMin ≤ z ∧ z ≤ longMax) h.updatedAt strtol_range
  refreshInterval := by
    have : longMin ≤ field "refresh_interval" s cfg.refreshInterval strtol ∧
        field "refresh_interval" s cfg.refreshInterval strtol ≤ longMax :=
      field_range (P := fun z => longMin ≤ z ∧ z ≤ longMax) h.refreshInterval strtol_range
    simp only [parseLocation, refreshFloor]
    split_ifs
    · decide
    · exact this
  refreshFloor := by
    simp only [parseLocation, refreshFloor]
    split_ifs with h
    · decide
    · exact h
  timeout := h.timeout
  sound := h.sound
  timeFormat := h.timeFormat

theorem parsePrayers_inRange {cfg : Config} (h : cfg.InRange) (s : CString) :
    (parsePrayers s cfg).InRange where
  prayers p := by
    have hp := h.prayers p
    cases p <;> exact field_range (P := PrayerConfig.InRange) hp
      fun s => parsePrayerConfig_inRange hp s
  gps := h.gps
  updatedAt := h.updatedAt
  refreshInterval := h.refreshInterval
  refreshFloor := h.refreshFloor
  timeout := h.timeout
  sound := h.sound
  timeFormat := h.timeFormat

theorem soundMode_mem (s : CString) : soundMode s ∈ soundModes := by
  unfold soundMode
  split_ifs with h₁ h₂ h₃
  · decide
  · decide
  · decide
  · simp only [soundModes, List.mem_cons, List.not_mem_nil, or_false]
    tauto

theorem parseNotification_inRange {cfg : Config} (h : cfg.InRange) (s : CString) :
    (parseNotification s cfg).InRange where
  prayers p := by
    have := h.prayers p
    cases p <;> exact this
  gps := h.gps
  updatedAt := h.updatedAt
  refreshInterval := h.refreshInterval
  refreshFloor := h.refreshFloor
  timeout := field_range (P := fun z => -2 ^ 31 ≤ z ∧ z ≤ 2 ^ 31 - 1) h.timeout
    fun _ => clamp_range (by decide) _
  sound := field_range (P := fun b : CBuffer 16 => b.text ∈ soundModes) h.sound fun s => by
    have hfits : ∀ m ∈ soundModes, (copyString 16 m).text = m := by decide
    rw [hfits _ (soundMode_mem s)]
    exact soundMode_mem s
  timeFormat := h.timeFormat

theorem parseCalculation_inRange {cfg : Config} (h : cfg.InRange) (s : CString) :
    (parseCalculation s cfg).InRange where
  prayers p := by
    have := h.prayers p
    cases p <;> exact this
  gps := h.gps
  updatedAt := h.updatedAt
  refreshInterval := h.refreshInterval
  refreshFloor := h.refreshFloor
  timeout := h.timeout
  sound := h.sound
  timeFormat := h.timeFormat

theorem parseDisplay_inRange {cfg : Config} (h : cfg.InRange) (s : CString) :
    (parseDisplay s cfg).InRange where
  prayers p := by
    have := h.prayers p
    cases p <;> exact this
  gps := h.gps
  updatedAt := h.updatedAt
  refreshInterval := h.refreshInterval
  refreshFloor := h.refreshFloor
  timeout := h.timeout
  sound := h.sound
  timeFormat := field_range (P := fun z : ℤ => z = 12 ∨ z = 24) h.timeFormat fun s => by
    split_ifs <;> simp

theorem parseConfig_inRange (content : CString) : (parseConfig content).InRange := by
  have lift : ∀ (key : String) (parse : CString → Config → Config),
      (∀ cfg s, Config.InRange cfg → (parse s cfg).InRange) →
      ∀ cfg, Config.InRange cfg → (parseSection key parse content cfg).InRange :=
    fun key parse hp cfg hc => field_range hc fun s => hp cfg s hc
  refine lift _ _ (fun _ s h => parseDisplay_inRange h s) _ ?_
  refine lift _ _ (fun _ s h => parseCalculation_inRange h s) _ ?_
  refine lift _ _ (fun _ s h => parseNotification_inRange h s) _ ?_
  refine lift _ _ (fun _ s h => parsePrayers_inRange h s) _ ?_
  exact lift _ _ (fun _ s h => parseLocation_inRange h s) _ configDefault_inRange

/-- Whatever the file holds, a loaded configuration is in range. -/
theorem configLoad_inRange {file : Option CString} {opens : Bool} {cfg : Config}
    (h : configLoad file opens = some cfg) : cfg.InRange := by
  unfold configLoad at h
  split at h
  · obtain rfl := Option.some.inj h
    exact configDefault_inRange
  · split_ifs at h
    obtain ⟨content, -, h⟩ := Option.bind_eq_some_iff.mp h
    split_ifs at h
    obtain rfl := Option.some.inj h
    exact parseConfig_inRange content

end Ranges

end Muslimtify.ConfigFile
