import Muslimtify.Handle

/-!
# The settings a handle can reach

A handle starts from a configuration that was loaded and is changed by the
public calls, in any order and with any arguments, while the host, the receiver,
the network and the file answer as they like. The ranges that the loader
enforces hold after every call, so whatever is reached survives being saved.
-/
namespace Muslimtify.ReachableSettings
open CText CDouble Settings ConfigFile ConfigRoundTrip LocationFetch Handle
open Detection (MuslimtifyError Place Lookups)

/-- A public call that changes a handle. -/
inductive PublicCall
  | setter (s : Setter)
  | detectLocation
  | setGps (enabled : Bool)
  | reload

/-- The code a call returns and the settings it leaves. -/
def PublicCall.result (env : Surroundings) (cfg : Config) : PublicCall → MuslimtifyError × Config
  | .setter s => (s.call env).run cfg
  | .detectLocation =>
      let r := (muslimtifyDetectLocation env).run cfg
      (r.1.1, r.2)
  | .setGps enabled =>
      let r := (muslimtifySetGps env enabled).run cfg
      (r.1.1, r.2)
  | .reload => (muslimtifyReload (configLoad env.configFile env.configOpens)).run cfg

/-- The settings after a sequence of calls. -/
def afterCalls (cfg : Config) (calls : List (Surroundings × PublicCall)) : Config :=
  calls.foldl (fun cfg c => (c.2.result c.1 cfg).2) cfg

section Steps
variable {env : Surroundings} {cfg : Config}

theorem detectLocation_inRange (hc : cfg.InRange) :
    ((muslimtifyDetectLocation env).run cfg).2.InRange := by
  obtain ⟨lookups, h⟩ := muslimtifyDetectLocation_refined env cfg
  rw [h]
  cases hfound : Detection.muslimtifyDetectLocationWith cfg
      (Detection.locationDetect lookups cfg) with
  | none => exact hc
  | some found => exact Detection.muslimtifyDetectLocationWith_inRange hfound hc

theorem setGps_inRange (enabled : Bool) (hc : cfg.InRange) :
    ((muslimtifySetGps env enabled).run cfg).2.InRange := by
  cases enabled with
  | false => exact { hc with gps := fun _ => rfl }
  | true =>
      have hon : Config.InRange { cfg with useGps := true, autoDetect := true } :=
        { hc with gps := fun h => by cases h }
      rw [muslimtifySetGps, muslimtifySetGpsWith_run]
      rcases locationFetchGps_run env cfg with ⟨place, h⟩ | ⟨status, hstatus, h⟩
      · rw [h]
        exact { hon with updatedAt := place.stamped }
      · rw [h, if_neg hstatus]
        split_ifs
        · exact hon
        · exact hc

theorem reload_inRange (hc : cfg.InRange) :
    ((muslimtifyReload (configLoad env.configFile env.configOpens)).run cfg).2.InRange := by
  cases hload : configLoad env.configFile env.configOpens with
  | none => exact hc
  | some loaded => exact configLoad_inRange hload

/-- Every call keeps the ranges. -/
theorem PublicCall.result_inRange (call : PublicCall) (hc : cfg.InRange) :
    (call.result env cfg).2.InRange := by
  cases call with
  | setter s => exact s.call_outcome.inRange hc
  | detectLocation => exact detectLocation_inRange hc
  | setGps enabled => exact setGps_inRange enabled hc
  | reload => exact reload_inRange hc

theorem afterCalls_inRange (calls : List (Surroundings × PublicCall)) (hc : cfg.InRange) :
    (afterCalls cfg calls).InRange := by
  induction calls generalizing cfg with
  | nil => exact hc
  | cons c calls ih =>
      apply ih
      exact c.2.result_inRange hc

end Steps

/-- The string fields with their sizes. -/
def strings (cfg : Config) : List (Σ cap, CBuffer cap) :=
  [⟨64, cfg.timezone⟩, ⟨128, cfg.city⟩, ⟨64, cfg.country⟩, ⟨16, cfg.notificationUrgency⟩,
    ⟨16, cfg.notificationSound⟩, ⟨16, cfg.notificationSoundAlarm⟩,
    ⟨16, cfg.notificationSoundReminder⟩, ⟨64, cfg.notificationIcon⟩, ⟨32, cfg.calculationMethod⟩,
    ⟨16, cfg.madhab⟩] ++ prayerTypes.map fun p => ⟨512, (prayerGetConfig cfg p).adhan⟩

/-- What the rest of the program takes for granted of the settings. -/
structure Wellformed (cfg : Config) : Prop where
  reminderCount : ∀ p, (prayerGetConfig cfg p).reminders.items.length ≤ maxReminders
  reminders : ∀ p, ∀ r ∈ (prayerGetConfig cfg p).reminders.items, 1 ≤ r ∧ r ≤ 1440
  offset : ∀ p, -60 ≤ (prayerGetConfig cfg p).offset ∧ (prayerGetConfig cfg p).offset ≤ 60
  timeFormat : cfg.timeFormat = 12 ∨ cfg.timeFormat = 24
  sound : cfg.notificationSound.text = ascii "adhan" ∨
    cfg.notificationSound.text = ascii "default" ∨ cfg.notificationSound.text = ascii "off"
  gps : cfg.useGps = true → cfg.autoDetect = true
  refreshInterval : cfg.refreshInterval ≤ 0 ∨ 3600 ≤ cfg.refreshInterval
  strings : ∀ s ∈ strings cfg, s.2.text.length < s.1 ∧ NulFree s.2.text

theorem wellformed_of_inRange {cfg : Config} (hc : cfg.InRange) : Wellformed cfg where
  reminderCount p := (prayerGetConfig cfg p).reminders.fits
  reminders p := (hc.prayers p).reminders
  offset p := (hc.prayers p).offset
  timeFormat := hc.timeFormat
  sound := by
    have h := hc.sound
    simpa only [soundModes, List.mem_cons, List.not_mem_nil, or_false] using h
  gps := by
    intro hgps
    by_contra hauto
    rw [hc.gps (Bool.not_eq_true _ ▸ hauto)] at hgps
    cases hgps
  refreshInterval := by
    have h := hc.refreshFloor
    simp only [locationMinRefreshSeconds] at h
    omega
  strings s _ := ⟨s.2.fits, s.2.nulFree⟩

/-- Whatever is loaded stays well formed under the public calls. -/
theorem reachable_wellformed {file : Option CString} {opens : Bool} {cfg : Config}
    (hload : configLoad file opens = some cfg) (calls : List (Surroundings × PublicCall)) :
    Wellformed (afterCalls cfg calls) :=
  wellformed_of_inRange (afterCalls_inRange calls (configLoad_inRange hload))

/-- A host without a receiver, a network or files. -/
def quietHost : Surroundings where
  timezoneExists _ := true
  parseTimezoneOffset _ := .ofRat (11 / 2)
  systemTimezone := copyString 64 (ascii "Asia/Kolkata")
  time := 1781654400
  time_range := by decide
  receiver := .noFix
  receiverLat := .nan
  receiverLng := .nan
  reply := none
  resolve _ := .notFound
  configFile := none
  configOpens := true

/-- Coordinates by hand, the receiver switched on without a fix, a refused reminder
and a detection that fails. -/
def someCalls : List (Surroundings × PublicCall) :=
  [(quietHost, .setter (.coordinates (.ofRat (227 / 10)) (.ofRat (886 / 10)))),
    (quietHost, .setGps true), (quietHost, .setter (.prayerReminders 4 (some [10, 1441]) 2)),
    (quietHost, .detectLocation)]

theorem reachable_wellformed_someCalls : Wellformed (afterCalls configDefault someCalls) :=
  @reachable_wellformed none true configDefault rfl someCalls

/-- Reached settings load from the file saved for them, with the numbers of the
location rounded to six decimals and the custom angles as the method has it. What
is loaded then loads again as it is. -/
theorem config_round_trip {file : Option CString} {opens : Bool} {cfg : Config}
    (hload : configLoad file opens = some cfg) (calls : List (Surroundings × PublicCall)) :
    ∃ loaded, configLoad (some (configText (afterCalls cfg calls))) true = some loaded ∧
      SameBut [.latitude, .longitude, .timezoneOffset, .fajrAngle, .ishaAngle]
        (afterCalls cfg calls) loaded ∧
      loaded.latitude = (afterCalls cfg calls).latitude.rounded 6 ∧
      loaded.longitude = (afterCalls cfg calls).longitude.rounded 6 ∧
      loaded.timezoneOffset = (afterCalls cfg calls).timezoneOffset.rounded 6 ∧
      configLoad (some (configText loaded)) true = some loaded := by
  have hc := afterCalls_inRange calls (configLoad_inRange hload)
  generalize afterCalls cfg calls = reached at hc ⊢
  refine ⟨storedConfig reached, configLoad_configText hc, ?_, rfl, rfl, rfl, ?_⟩
  · exact (sameBut_put .latitude reached _).trans <|
      (sameBut_put .longitude _ _).trans <|
      (sameBut_put .timezoneOffset _ _).trans <|
      (sameBut_put .fajrAngle _ _).trans
      (sameBut_put .ishaAngle _ _)
  · rw [configLoad_configText (storedConfig_inRange hc), storedConfig_idem]

theorem config_round_trip_someCalls :
    ∃ loaded, configLoad (some (configText (afterCalls configDefault someCalls))) true =
        some loaded ∧
      SameBut [.latitude, .longitude, .timezoneOffset, .fajrAngle, .ishaAngle]
        (afterCalls configDefault someCalls) loaded ∧
      loaded.latitude = (afterCalls configDefault someCalls).latitude.rounded 6 ∧
      loaded.longitude = (afterCalls configDefault someCalls).longitude.rounded 6 ∧
      loaded.timezoneOffset = (afterCalls configDefault someCalls).timezoneOffset.rounded 6 ∧
      configLoad (some (configText loaded)) true = some loaded :=
  @config_round_trip none true configDefault rfl someCalls

end Muslimtify.ReachableSettings
