import Muslimtify.LocationFetch
import Muslimtify.SettingsSave

/-!
# Calls on a handle

A handle holds the settings that the public functions read and change. A call
runs against the settings in place, write by write, and returns a code. Its
arguments are those of C: an enumeration is any number, a string may be `NULL`,
and the detection and the receiver are asked through functions that may do
anything to the copy they are given.

`Field` names every field of the settings, so that what a call leaves alone can
be said of all of them at once.
-/
namespace Muslimtify.Handle
open CText CDouble Settings ConfigFile Schedule LocationFetch
open Detection hiding locationDetect muslimtifyDetectLocationWith
open SettingsSave (methodToString updatePrayer prayerGetConfig_updatePrayer updatePrayer_inRange)

section Setters
variable (env : Surroundings)

def madhabKeys : List CString := [ascii "shafi", ascii "hanafi"]

def urgencyKeys : List CString := [ascii "low", ascii "normal", ascii "critical"]

def soundKeys : List CString := [ascii "adhan", ascii "default", ascii "off"]

/-- The key at an index that came from outside. -/
def keyAt (keys : List CString) (value : ℤ) : Option CString :=
  if value < 0 then none else keys[value.toNat]?

def prayerSettings (prayer : ℤ) : Option PrayerType :=
  if prayer < 0 then none else prayerTypes[prayer.toNat]?

def muslimtifySetCoordinates (latitude longitude : Double) : StateM Config MuslimtifyError := do
  if !configLatitudeIsValid latitude then return .invalidLatitude
  if !configLongitudeIsValid longitude then return .invalidLongitude
  modify fun cfg => { cfg with latitude := latitude }
  modify fun cfg => { cfg with longitude := longitude }
  modify fun cfg => { cfg with autoDetect := false }
  modify fun cfg => { cfg with useGps := false }
  modify fun cfg => { cfg with city := .empty 128 }
  modify fun cfg => { cfg with country := .empty 64 }
  modify fun cfg => { cfg with timezone := env.systemTimezone }
  modify fun cfg => { cfg with timezoneOffset := env.parseTimezoneOffset cfg.timezone.text }
  return .ok

def muslimtifySetTimezone (ianaName : Option CString) : StateM Config MuslimtifyError := do
  let some ianaName := ianaName | return .invalidArg
  let ianaName := terminated ianaName
  if !env.timezoneExists ianaName then return .unknownTimezone
  if 64 < ianaName.length + 1 then return .valueTooLong
  modify fun cfg => { cfg with timezone := copyString 64 ianaName }
  modify fun cfg => { cfg with timezoneOffset := env.parseTimezoneOffset ianaName }
  return .ok

/-- The last length up to `len` at which a cut is not before a continuation byte. -/
def cutLength (city : CString) : ℕ → ℕ
  | 0 => 0
  | len + 1 =>
      if city.getD (len + 1) 0 &&& 0xc0 = 0x80 then cutLength city len else len + 1

def muslimtifySetCity (city : Option CString) : StateM Config MuslimtifyError := do
  let some city := city | return .invalidArg
  let city := terminated city
  let len := if 128 ≤ city.length then cutLength city 127 else city.length
  modify fun cfg => { cfg with city := copyString 128 (city.take len) }
  return .ok

def muslimtifySetCountry (iso2 : Option CString) : StateM Config MuslimtifyError := do
  let some iso2 := iso2 | return .invalidArg
  let iso2 := terminated iso2
  if !countryIsValidAlpha2 iso2 then return .invalidCountry
  modify fun cfg => { cfg with country := copyString 64 (iso2.map toupper) }
  return .ok

def muslimtifySetRefreshInterval (seconds : Int64) : StateM Config MuslimtifyError := do
  if seconds.toInt < 0 ∨ (0 < seconds.toInt ∧ seconds.toInt < locationMinRefreshSeconds) then
    return .invalidRefreshInterval
  modify fun cfg => { cfg with refreshInterval := seconds.toInt }
  return .ok

def muslimtifySetMethod (key : Option CString) : StateM Config MuslimtifyError := do
  let some key := key | return .invalidArg
  let key := terminated key
  let method := methodFromString key
  if method = .custom ∨ key ≠ methodToString method then return .unknownMethod
  modify fun cfg => { cfg with calculationMethod := copyString 32 key }
  return .ok

/-- Store the key of an enumeration's value. -/
def setKey (keys : List CString) (value : ℤ) (store : CString → Config → Config) :
    StateM Config MuslimtifyError := do
  let some key := keyAt keys value | return .invalidValue
  modify (store key)
  return .ok

def muslimtifySetMadhab (madhab : ℤ) : StateM Config MuslimtifyError :=
  setKey madhabKeys madhab fun key cfg => { cfg with madhab := copyString 16 key }

def muslimtifySetUrgency (urgency : ℤ) : StateM Config MuslimtifyError :=
  setKey urgencyKeys urgency fun key cfg => { cfg with notificationUrgency := copyString 16 key }

def muslimtifySetSoundMode (mode : ℤ) : StateM Config MuslimtifyError :=
  setKey soundKeys mode fun key cfg => { cfg with notificationSound := copyString 16 key }

def muslimtifySetTimeFormat (timeFormat : ℤ) : StateM Config MuslimtifyError := do
  if timeFormat ≠ 12 ∧ timeFormat ≠ 24 then return .invalidValue
  modify fun cfg => { cfg with timeFormat := timeFormat }
  return .ok

def muslimtifySetMethodFromCountry : StateM Config MuslimtifyError := do
  modify fun cfg => { cfg with
    calculationMethod := copyString 32 (methodToString (countryDefaultMethod cfg.country.text)) }
  return .ok

/-- A change of one prayer's settings, after the checks on its argument. -/
def setPrayer (prayer : ℤ) (check : MuslimtifyError) (change : PrayerConfig → PrayerConfig) :
    StateM Config MuslimtifyError := do
  let some prayer := prayerSettings prayer | return .unknownPrayer
  if check ≠ .ok then return check
  modify fun cfg => updatePrayer cfg change prayer
  return .ok

def muslimtifySetPrayerEnabled (prayer : ℤ) (enabled : Bool) : StateM Config MuslimtifyError :=
  setPrayer prayer .ok fun pcfg => { pcfg with enabled := enabled }

def muslimtifySetPrayerOffset (prayer minutes : ℤ) : StateM Config MuslimtifyError :=
  setPrayer prayer
    (if minutes < prayerOffsetMin ∨ prayerOffsetMax < minutes then .invalidOffset else .ok)
    fun pcfg => { pcfg with offset := minutes }

/-- The list is the array that the caller passes, without its count. -/
def muslimtifySetPrayerReminders (prayer : ℤ) (minutes : Option (List ℤ)) (count : ℕ) :
    StateM Config MuslimtifyError := do
  if 0 < count ∧ minutes = none then return .invalidArg
  let minutes := (minutes.getD []).take count
  setPrayer prayer
    (if maxReminders < count then .tooManyReminders
      else if minutes.any fun r => r < 1 || 1440 < r then .invalidReminder else .ok)
    fun pcfg => { pcfg with reminders := FixedArray.empty.pushAll minutes }

def muslimtifySetPrayerAdhan (prayer : ℤ) (enabled : Bool) : StateM Config MuslimtifyError :=
  setPrayer prayer .ok fun pcfg => { pcfg with adhanEnabled := enabled }

def muslimtifySetPrayerAdhanFile (prayer : ℤ) (path : Option CString) :
    StateM Config MuslimtifyError := do
  let some path := path | return .invalidArg
  let file := env.resolve path
  setPrayer prayer
    (match file with
      | .ok _ => .ok
      | .notFound => .fileNotFound
      | .notRegular => .fileNotRegular
      | .isSymlink => .fileIsSymlink
      | .notReadable => .fileNotReadable
      | .tooLong => .valueTooLong
      | .failed => .fileResolve)
    fun pcfg => match file with
      | .ok resolved => { pcfg with adhan := copyString 512 resolved.text }
      | _ => pcfg

end Setters

section Location
variable (env : Surroundings)

/-- With what the call writes to `out`. -/
def muslimtifyDetectLocationWith (detect : Option (StateM Config (Bool × GpsStatus))) :
    StateM Config (MuslimtifyError × Option MuslimtifyDetection) := do
  let some detect := detect | return (.invalidArg, none)
  let cfg ← get
  let ((found, status), candidate) := detect.run cfg
  if !found then return (.detectFailed, none)
  let candidate := { candidate with autoDetect := true }
  set candidate
  return (.ok, some
    { source := if cfg.useGps && status = .ok then .gps else .ip
      gps := gpsError status
      gpsDisabled := cfg.useGps && !candidate.useGps })

def muslimtifyDetectLocation : StateM Config (MuslimtifyError × Option MuslimtifyDetection) :=
  muslimtifyDetectLocationWith (some (LocationFetch.locationDetect env))

/-- With what the call writes to `has_fix`. -/
def muslimtifySetGpsWith (enabled : Bool) (probe : Option (StateM Config GpsStatus)) :
    StateM Config (MuslimtifyError × Option Bool) := do
  if !enabled then
    modify fun cfg => { cfg with useGps := false }
    return (.ok, some false)
  let some probe := probe | return (.invalidArg, none)
  let (status, candidate) := probe.run (← get)
  if status = .ok then
    set { candidate with useGps := true, autoDetect := true }
    return (.ok, some true)
  if status = .noFix then
    modify fun cfg => { cfg with useGps := true }
    modify fun cfg => { cfg with autoDetect := true }
    return (.ok, some false)
  return (gpsError status, none)

def muslimtifySetGps (enabled : Bool) : StateM Config (MuslimtifyError × Option Bool) :=
  muslimtifySetGpsWith enabled (some (locationFetchGps env))

def muslimtifyReload (loaded : Option Config) : StateM Config MuslimtifyError := do
  let some cfg := loaded | return .configLoad
  set cfg
  return .ok

end Location

section Fields

inductive PrayerField
  | enabled
  | adhanEnabled
  | reminders
  | offset
  | adhan
  deriving DecidableEq, Repr

inductive Field
  | latitude
  | longitude
  | timezone
  | timezoneOffset
  | autoDetect
  | useGps
  | city
  | country
  | updatedAt
  | refreshInterval
  | prayer (p : PrayerType) (f : PrayerField)
  | notificationTimeout
  | notificationUrgency
  | notificationSound
  | notificationSoundAlarm
  | notificationSoundReminder
  | notificationIcon
  | calculationMethod
  | madhab
  | fajrAngle
  | ishaAngle
  | timeFormat
  deriving DecidableEq, Repr

abbrev PrayerField.Value : PrayerField → Type
  | .enabled | .adhanEnabled => Bool
  | .reminders => FixedArray ℤ maxReminders
  | .offset => ℤ
  | .adhan => CBuffer 512

abbrev Field.Value : Field → Type
  | .latitude | .longitude | .timezoneOffset | .fajrAngle | .ishaAngle => Double
  | .autoDetect | .useGps => Bool
  | .updatedAt | .refreshInterval | .notificationTimeout | .timeFormat => ℤ
  | .timezone | .country | .notificationIcon => CBuffer 64
  | .city => CBuffer 128
  | .calculationMethod => CBuffer 32
  | .notificationUrgency | .notificationSound | .notificationSoundAlarm
  | .notificationSoundReminder | .madhab => CBuffer 16
  | .prayer _ f => f.Value

def PrayerField.get (p : PrayerConfig) : (f : PrayerField) → f.Value
  | .enabled => p.enabled
  | .adhanEnabled => p.adhanEnabled
  | .reminders => p.reminders
  | .offset => p.offset
  | .adhan => p.adhan

def Field.get (cfg : Config) : (f : Field) → f.Value
  | .latitude => cfg.latitude
  | .longitude => cfg.longitude
  | .timezone => cfg.timezone
  | .timezoneOffset => cfg.timezoneOffset
  | .autoDetect => cfg.autoDetect
  | .useGps => cfg.useGps
  | .city => cfg.city
  | .country => cfg.country
  | .updatedAt => cfg.updatedAt
  | .refreshInterval => cfg.refreshInterval
  | .prayer p f => f.get (prayerGetConfig cfg p)
  | .notificationTimeout => cfg.notificationTimeout
  | .notificationUrgency => cfg.notificationUrgency
  | .notificationSound => cfg.notificationSound
  | .notificationSoundAlarm => cfg.notificationSoundAlarm
  | .notificationSoundReminder => cfg.notificationSoundReminder
  | .notificationIcon => cfg.notificationIcon
  | .calculationMethod => cfg.calculationMethod
  | .madhab => cfg.madhab
  | .fajrAngle => cfg.fajrAngle
  | .ishaAngle => cfg.ishaAngle
  | .timeFormat => cfg.timeFormat

/-- Two settings with the same fields are the same. -/
theorem Field.ext {a b : Config} (h : ∀ f : Field, f.get a = f.get b) : a = b := by
  have hprayer : ∀ p, prayerGetConfig a p = prayerGetConfig b p := by
    intro p
    cases ha : prayerGetConfig a p
    cases hb : prayerGetConfig b p
    have hp := fun f => h (.prayer p f)
    simp only [Field.get, ha, hb] at hp
    congr
    · exact hp .enabled
    · exact hp .adhanEnabled
    · exact hp .reminders
    · exact hp .offset
    · exact hp .adhan
  cases a
  cases b
  congr
  · exact h .latitude
  · exact h .longitude
  · exact h .timezone
  · exact h .timezoneOffset
  · exact h .autoDetect
  · exact h .useGps
  · exact h .city
  · exact h .country
  · exact h .updatedAt
  · exact h .refreshInterval
  · exact hprayer .fajr
  · exact hprayer .dhuhr
  · exact hprayer .asr
  · exact hprayer .maghrib
  · exact hprayer .isha
  · exact h .notificationTimeout
  · exact h .notificationUrgency
  · exact h .notificationSound
  · exact h .notificationSoundAlarm
  · exact h .notificationSoundReminder
  · exact h .notificationIcon
  · exact h .calculationMethod
  · exact h .madhab
  · exact h .fajrAngle
  · exact h .ishaAngle
  · exact h .timeFormat

def PrayerField.put (p : PrayerConfig) : (f : PrayerField) → f.Value → PrayerConfig
  | .enabled, v => { p with enabled := v }
  | .adhanEnabled, v => { p with adhanEnabled := v }
  | .reminders, v => { p with reminders := v }
  | .offset, v => { p with offset := v }
  | .adhan, v => { p with adhan := v }

/-- The settings with one field stored. -/
def Field.put (cfg : Config) : (f : Field) → f.Value → Config
  | .latitude, v => { cfg with latitude := v }
  | .longitude, v => { cfg with longitude := v }
  | .timezone, v => { cfg with timezone := v }
  | .timezoneOffset, v => { cfg with timezoneOffset := v }
  | .autoDetect, v => { cfg with autoDetect := v }
  | .useGps, v => { cfg with useGps := v }
  | .city, v => { cfg with city := v }
  | .country, v => { cfg with country := v }
  | .updatedAt, v => { cfg with updatedAt := v }
  | .refreshInterval, v => { cfg with refreshInterval := v }
  | .prayer p f, v => updatePrayer cfg (fun pcfg => f.put pcfg v) p
  | .notificationTimeout, v => { cfg with notificationTimeout := v }
  | .notificationUrgency, v => { cfg with notificationUrgency := v }
  | .notificationSound, v => { cfg with notificationSound := v }
  | .notificationSoundAlarm, v => { cfg with notificationSoundAlarm := v }
  | .notificationSoundReminder, v => { cfg with notificationSoundReminder := v }
  | .notificationIcon, v => { cfg with notificationIcon := v }
  | .calculationMethod, v => { cfg with calculationMethod := v }
  | .madhab, v => { cfg with madhab := v }
  | .fajrAngle, v => { cfg with fajrAngle := v }
  | .ishaAngle, v => { cfg with ishaAngle := v }
  | .timeFormat, v => { cfg with timeFormat := v }

/-- The settings agree in every field but those. -/
def SameBut (fields : List Field) (a b : Config) : Prop := ∀ f ∉ fields, f.get b = f.get a

theorem PrayerField.get_put {f g : PrayerField} (h : g ≠ f) (p : PrayerConfig) (v : f.Value) :
    g.get (f.put p v) = g.get p := by
  cases f <;> cases g <;> first | rfl | exact absurd rfl h

theorem Field.get_updatePrayer {g : Field} {p : PrayerType} {f : PrayerField}
    (h : g ≠ .prayer p f) (cfg : Config) (v : f.Value) :
    g.get (updatePrayer cfg (fun pcfg => f.put pcfg v) p) = g.get cfg := by
  cases g with
  | prayer q g =>
      simp only [Field.get, prayerGetConfig_updatePrayer]
      split_ifs with hq
      · apply PrayerField.get_put
        rintro rfl
        exact h (by rw [hq])
      · rfl
  | _ => cases p <;> rfl

/-- Storing one field leaves the others. -/
theorem sameBut_put (f : Field) (cfg : Config) (v : f.Value) : SameBut [f] cfg (f.put cfg v) := by
  intro g hg
  have hne : g ≠ f := fun h => hg (List.mem_singleton.mpr h)
  cases f with
  | prayer p f => exact Field.get_updatePrayer hne cfg v
  | _ =>
      cases g with
      | prayer q g => cases q <;> rfl
      | _ => first | rfl | exact absurd rfl hne

theorem SameBut.trans {fields later : List Field} {a b c : Config} (h : SameBut fields a b)
    (h' : SameBut later b c) : SameBut (fields ++ later) a c := by
  intro f hf
  rw [h' f fun hmem => hf (List.mem_append_right _ hmem),
    h f fun hmem => hf (List.mem_append_left _ hmem)]

end Fields

/-- A call of a public setter. -/
inductive Setter
  | coordinates (latitude longitude : Double)
  | timezone (ianaName : Option CString)
  | city (name : Option CString)
  | country (iso2 : Option CString)
  | refreshInterval (seconds : Int64)
  | method (key : Option CString)
  | methodFromCountry
  | madhab (value : ℤ)
  | timeFormat (hours : ℤ)
  | prayerEnabled (prayer : ℤ) (enabled : Bool)
  | prayerOffset (prayer minutes : ℤ)
  | prayerReminders (prayer : ℤ) (minutes : Option (List ℤ)) (count : ℕ)
  | prayerAdhan (prayer : ℤ) (enabled : Bool)
  | prayerAdhanFile (prayer : ℤ) (path : Option CString)
  | urgency (value : ℤ)
  | soundMode (value : ℤ)

def Setter.call (env : Surroundings) : Setter → StateM Config MuslimtifyError
  | .coordinates latitude longitude => muslimtifySetCoordinates env latitude longitude
  | .timezone ianaName => muslimtifySetTimezone env ianaName
  | .city name => muslimtifySetCity name
  | .country iso2 => muslimtifySetCountry iso2
  | .refreshInterval seconds => muslimtifySetRefreshInterval seconds
  | .method key => muslimtifySetMethod key
  | .methodFromCountry => muslimtifySetMethodFromCountry
  | .madhab value => muslimtifySetMadhab value
  | .timeFormat hours => muslimtifySetTimeFormat hours
  | .prayerEnabled prayer enabled => muslimtifySetPrayerEnabled prayer enabled
  | .prayerOffset prayer minutes => muslimtifySetPrayerOffset prayer minutes
  | .prayerReminders prayer minutes count => muslimtifySetPrayerReminders prayer minutes count
  | .prayerAdhan prayer enabled => muslimtifySetPrayerAdhan prayer enabled
  | .prayerAdhanFile prayer path => muslimtifySetPrayerAdhanFile env prayer path
  | .urgency value => muslimtifySetUrgency value
  | .soundMode value => muslimtifySetSoundMode value

/-- That field of the prayer with this number. -/
def fieldOf (prayer : ℤ) (f : PrayerField) : List Field :=
  ((prayerSettings prayer).map fun p => Field.prayer p f).toList

/-- The fields a setter is documented to change. -/
def Setter.fields : Setter → List Field
  | .coordinates _ _ => [.latitude, .longitude, .autoDetect, .useGps, .city, .country, .timezone,
      .timezoneOffset]
  | .timezone _ => [.timezone, .timezoneOffset]
  | .city _ => [.city]
  | .country _ => [.country]
  | .refreshInterval _ => [.refreshInterval]
  | .method _ | .methodFromCountry => [.calculationMethod]
  | .madhab _ => [.madhab]
  | .timeFormat _ => [.timeFormat]
  | .prayerEnabled prayer _ => fieldOf prayer .enabled
  | .prayerOffset prayer _ => fieldOf prayer .offset
  | .prayerReminders prayer _ _ => fieldOf prayer .reminders
  | .prayerAdhan prayer _ => fieldOf prayer .adhanEnabled
  | .prayerAdhanFile prayer _ => fieldOf prayer .adhan
  | .urgency _ => [.notificationUrgency]
  | .soundMode _ => [.notificationSound]

section Outcomes
variable {env : Surroundings} {cfg : Config}

/-- A call with code `code` that leaves the settings `after`: it fails and changes
nothing, or it changes some fields and keeps the settings in range. -/
structure Outcome (fields : List Field) (cfg : Config) (result : MuslimtifyError × Config) :
    Prop where
  failed : result.1 ≠ .ok → result.2 = cfg
  changed : result.1 = .ok → SameBut fields cfg result.2
  inRange : cfg.InRange → result.2.InRange

theorem Outcome.refused {fields : List Field} {code : MuslimtifyError} (h : code ≠ .ok) :
    Outcome fields cfg (code, cfg) :=
  ⟨fun _ => rfl, fun hok => absurd hok h, id⟩

theorem Outcome.done {fields : List Field} {after : Config} (h : SameBut fields cfg after)
    (hrange : cfg.InRange → after.InRange) : Outcome fields cfg (.ok, after) :=
  ⟨fun hne => absurd rfl hne, fun _ => h, hrange⟩

theorem muslimtifySetCoordinates_outcome (latitude longitude : Double) :
    Outcome (Setter.coordinates latitude longitude).fields cfg
      ((muslimtifySetCoordinates env latitude longitude).run cfg) := by
  unfold muslimtifySetCoordinates
  cases configLatitudeIsValid latitude with
  | false => exact Outcome.refused (by decide)
  | true =>
      cases configLongitudeIsValid longitude with
      | false => exact Outcome.refused (by decide)
      | true =>
          apply Outcome.done
          · exact (sameBut_put .latitude cfg latitude).trans <|
              (sameBut_put .longitude _ longitude).trans <|
              (sameBut_put .autoDetect _ false).trans <|
              (sameBut_put .useGps _ false).trans <|
              (sameBut_put .city _ (.empty 128)).trans <|
              (sameBut_put .country _ (.empty 64)).trans <|
              (sameBut_put .timezone _ env.systemTimezone).trans
              (sameBut_put .timezoneOffset _ (env.parseTimezoneOffset env.systemTimezone.text))
          · intro hc
            exact { hc with gps := fun _ => rfl }

theorem muslimtifySetTimezone_outcome (ianaName : Option CString) :
    Outcome (Setter.timezone ianaName).fields cfg
      ((muslimtifySetTimezone env ianaName).run cfg) := by
  unfold muslimtifySetTimezone
  cases ianaName with
  | none => exact Outcome.refused (by decide)
  | some name =>
      cases hexists : env.timezoneExists (terminated name) with
      | false =>
          simp only [hexists]
          exact Outcome.refused (by decide)
      | true =>
          by_cases hlong : 64 < (terminated name).length + 1
          · simp only [hexists, hlong, if_true]
            exact Outcome.refused (by decide)
          · simp only [hexists, hlong]
            apply Outcome.done
            · exact (sameBut_put .timezone cfg (copyString 64 (terminated name))).trans
                (sameBut_put .timezoneOffset _ (env.parseTimezoneOffset (terminated name)))
            · intro hc
              exact { hc with }

theorem muslimtifySetCity_outcome (name : Option CString) :
    Outcome (Setter.city name).fields cfg ((muslimtifySetCity name).run cfg) := by
  cases name with
  | none => exact Outcome.refused (by decide)
  | some name =>
      apply Outcome.done
      · exact sameBut_put .city cfg _
      · intro hc
        exact { hc with }

theorem muslimtifySetCountry_outcome (iso2 : Option CString) :
    Outcome (Setter.country iso2).fields cfg ((muslimtifySetCountry iso2).run cfg) := by
  unfold muslimtifySetCountry
  cases iso2 with
  | none => exact Outcome.refused (by decide)
  | some code =>
      cases hvalid : countryIsValidAlpha2 (terminated code) with
      | false =>
          simp only [hvalid]
          exact Outcome.refused (by decide)
      | true =>
          simp only [hvalid]
          apply Outcome.done
          · exact sameBut_put .country cfg _
          · intro hc
            exact { hc with }

theorem muslimtifySetRefreshInterval_outcome (seconds : Int64) :
    Outcome (Setter.refreshInterval seconds).fields cfg
      ((muslimtifySetRefreshInterval seconds).run cfg) := by
  unfold muslimtifySetRefreshInterval
  split_ifs with hbad
  · exact Outcome.refused (by decide)
  · apply Outcome.done
    · exact sameBut_put .refreshInterval cfg seconds.toInt
    · intro hc
      have hlow := seconds.le_toInt
      have hhigh := seconds.toInt_lt
      refine { hc with refreshInterval := ?_, refreshFloor := ?_ }
      · simp only [longMin, longMax]
        omega
      · exact fun h => hbad (Or.inr h)

theorem muslimtifySetMethod_outcome (key : Option CString) :
    Outcome (Setter.method key).fields cfg ((muslimtifySetMethod key).run cfg) := by
  unfold muslimtifySetMethod
  cases key with
  | none => exact Outcome.refused (by decide)
  | some key =>
      simp only
      split_ifs
      · exact Outcome.refused (by decide)
      · apply Outcome.done
        · exact sameBut_put .calculationMethod cfg _
        · intro hc
          exact { hc with }

theorem muslimtifySetMethodFromCountry_outcome :
    Outcome Setter.methodFromCountry.fields cfg (muslimtifySetMethodFromCountry.run cfg) := by
  apply Outcome.done
  · exact sameBut_put .calculationMethod cfg _
  · intro hc
    exact { hc with }

theorem muslimtifySetTimeFormat_outcome (hours : ℤ) :
    Outcome (Setter.timeFormat hours).fields cfg ((muslimtifySetTimeFormat hours).run cfg) := by
  unfold muslimtifySetTimeFormat
  split_ifs with hbad
  · exact Outcome.refused (by decide)
  · apply Outcome.done
    · exact sameBut_put .timeFormat cfg hours
    · intro hc
      exact { hc with timeFormat := by dsimp only; omega }

theorem mem_of_keyAt {keys : List CString} {value : ℤ} {key : CString}
    (h : keyAt keys value = some key) : key ∈ keys := by
  unfold keyAt at h
  split_ifs at h
  exact List.mem_of_getElem? h

/-- One field takes the key of an enumeration's value. -/
theorem setKey_outcome {keys : List CString} {value : ℤ} {store : CString → Config → Config}
    {fields : List Field} (hfields : ∀ key, SameBut fields cfg (store key cfg))
    (hrange : ∀ key ∈ keys, cfg.InRange → (store key cfg).InRange) :
    Outcome fields cfg ((setKey keys value store).run cfg) := by
  unfold setKey
  cases hkey : keyAt keys value with
  | none => exact Outcome.refused (by decide)
  | some key =>
      apply Outcome.done
      · exact hfields key
      · exact hrange key (mem_of_keyAt hkey)

theorem muslimtifySetMadhab_outcome (value : ℤ) :
    Outcome (Setter.madhab value).fields cfg ((muslimtifySetMadhab value).run cfg) := by
  apply setKey_outcome
  · intro key
    exact sameBut_put .madhab cfg (copyString 16 key)
  · intro key _ hc
    exact { hc with }

theorem muslimtifySetUrgency_outcome (value : ℤ) :
    Outcome (Setter.urgency value).fields cfg ((muslimtifySetUrgency value).run cfg) := by
  apply setKey_outcome
  · intro key
    exact sameBut_put .notificationUrgency cfg (copyString 16 key)
  · intro key _ hc
    exact { hc with }

theorem muslimtifySetSoundMode_outcome (value : ℤ) :
    Outcome (Setter.soundMode value).fields cfg ((muslimtifySetSoundMode value).run cfg) := by
  apply setKey_outcome
  · intro key
    exact sameBut_put .notificationSound cfg (copyString 16 key)
  · intro key hkey hc
    have hsound : ∀ key ∈ soundKeys, (copyString 16 key).text ∈ soundModes := by decide
    exact { hc with sound := hsound key hkey }

/-- One field of one prayer changes, to a value that its check lets through. -/
theorem setPrayer_outcome {prayer : ℤ} {check : MuslimtifyError} (f : PrayerField) {v : f.Value}
    {change : PrayerConfig → PrayerConfig}
    (hchange : check = .ok → ∀ pcfg, change pcfg = f.put pcfg v)
    (hrange : check = .ok → ∀ pcfg : PrayerConfig, pcfg.InRange → (f.put pcfg v).InRange) :
    Outcome (fieldOf prayer f) cfg ((setPrayer prayer check change).run cfg) := by
  unfold setPrayer fieldOf
  cases prayerSettings prayer with
  | none => exact Outcome.refused (by decide)
  | some p =>
      by_cases hcheck : check = .ok
      · have hput : change = fun pcfg => f.put pcfg v := funext (hchange hcheck)
        simp only [hcheck, ne_eq, not_true_eq_false, hput]
        apply Outcome.done
        · exact sameBut_put (.prayer p f) cfg v
        · intro hc
          exact updatePrayer_inRange hc (hrange hcheck _ (hc.prayers p))
      · simp only [ne_eq, hcheck, not_false_eq_true, if_true]
        exact Outcome.refused hcheck

theorem muslimtifySetPrayerEnabled_outcome (prayer : ℤ) (enabled : Bool) :
    Outcome (Setter.prayerEnabled prayer enabled).fields cfg
      ((muslimtifySetPrayerEnabled prayer enabled).run cfg) := by
  apply setPrayer_outcome .enabled (v := enabled)
  · exact fun _ _ => rfl
  · exact fun _ pcfg hp => { hp with }

theorem muslimtifySetPrayerOffset_outcome (prayer minutes : ℤ) :
    Outcome (Setter.prayerOffset prayer minutes).fields cfg
      ((muslimtifySetPrayerOffset prayer minutes).run cfg) := by
  apply setPrayer_outcome .offset (v := minutes)
  · exact fun _ _ => rfl
  · intro hok pcfg hp
    split_ifs at hok with hbad
    exact { hp with offset := by simp only [PrayerField.put]; omega }

theorem muslimtifySetPrayerReminders_outcome (prayer : ℤ) (minutes : Option (List ℤ))
    (count : ℕ) :
    Outcome (Setter.prayerReminders prayer minutes count).fields cfg
      ((muslimtifySetPrayerReminders prayer minutes count).run cfg) := by
  unfold muslimtifySetPrayerReminders
  by_cases hnull : 0 < count ∧ minutes = none
  · rw [if_pos hnull]
    exact Outcome.refused (by decide)
  · rw [if_neg hnull]
    apply setPrayer_outcome .reminders
      (v := FixedArray.empty.pushAll ((minutes.getD []).take count))
    · exact fun _ _ => rfl
    · intro hok pcfg hp
      split_ifs at hok with hcount hbad
      refine { hp with reminders := fun r hr => ?_ }
      simp only [PrayerField.put, FixedArray.pushAll_empty] at hr
      simp only [List.any_eq_true, Bool.or_eq_true, decide_eq_true_eq] at hbad
      by_contra hout
      exact hbad ⟨r, List.mem_of_mem_take hr, by omega⟩

theorem muslimtifySetPrayerAdhan_outcome (prayer : ℤ) (enabled : Bool) :
    Outcome (Setter.prayerAdhan prayer enabled).fields cfg
      ((muslimtifySetPrayerAdhan prayer enabled).run cfg) := by
  apply setPrayer_outcome .adhanEnabled (v := enabled)
  · exact fun _ _ => rfl
  · exact fun _ pcfg hp => { hp with }

theorem muslimtifySetPrayerAdhanFile_outcome (prayer : ℤ) (path : Option CString) :
    Outcome (Setter.prayerAdhanFile prayer path).fields cfg
      ((muslimtifySetPrayerAdhanFile env prayer path).run cfg) := by
  unfold muslimtifySetPrayerAdhanFile
  cases path with
  | none => exact Outcome.refused (by decide)
  | some path =>
      cases hfile : env.resolve path with
      | ok resolved =>
          simp only [hfile]
          apply setPrayer_outcome .adhan (v := copyString 512 resolved.text)
          · exact fun _ _ => rfl
          · exact fun _ pcfg hp => { hp with }
      | _ =>
          simp only [hfile]
          apply setPrayer_outcome .adhan (v := .empty 512)
          · exact fun hok => by cases hok
          · exact fun hok => by cases hok

/-- What every setter does. -/
theorem Setter.call_outcome (setter : Setter) :
    Outcome setter.fields cfg ((setter.call env).run cfg) := by
  cases setter with
  | coordinates latitude longitude => exact muslimtifySetCoordinates_outcome latitude longitude
  | timezone ianaName => exact muslimtifySetTimezone_outcome ianaName
  | city name => exact muslimtifySetCity_outcome name
  | country iso2 => exact muslimtifySetCountry_outcome iso2
  | refreshInterval seconds => exact muslimtifySetRefreshInterval_outcome seconds
  | method key => exact muslimtifySetMethod_outcome key
  | methodFromCountry => exact muslimtifySetMethodFromCountry_outcome
  | madhab value => exact muslimtifySetMadhab_outcome value
  | timeFormat hours => exact muslimtifySetTimeFormat_outcome hours
  | prayerEnabled prayer enabled => exact muslimtifySetPrayerEnabled_outcome prayer enabled
  | prayerOffset prayer minutes => exact muslimtifySetPrayerOffset_outcome prayer minutes
  | prayerReminders prayer minutes count =>
      exact muslimtifySetPrayerReminders_outcome prayer minutes count
  | prayerAdhan prayer enabled => exact muslimtifySetPrayerAdhan_outcome prayer enabled
  | prayerAdhanFile prayer path => exact muslimtifySetPrayerAdhanFile_outcome prayer path
  | urgency value => exact muslimtifySetUrgency_outcome value
  | soundMode value => exact muslimtifySetSoundMode_outcome value

end Outcomes

section Calls
variable (env : Surroundings) (cfg : Config)

/-- A call that changes the handle, with the functions injected into it. -/
inductive Call
  | setter (s : Setter)
  | detectLocationWith (detect : Option (StateM Config (Bool × GpsStatus)))
  | setGpsWith (enabled : Bool) (probe : Option (StateM Config GpsStatus))
  | reload (loaded : Option Config)

/-- The code a call returns and the settings it leaves. -/
def Call.result : Call → MuslimtifyError × Config
  | .setter s => (s.call env).run cfg
  | .detectLocationWith detect =>
      let r := (muslimtifyDetectLocationWith detect).run cfg
      (r.1.1, r.2)
  | .setGpsWith enabled probe =>
      let r := (muslimtifySetGpsWith enabled probe).run cfg
      (r.1.1, r.2)
  | .reload loaded => (muslimtifyReload loaded).run cfg

theorem muslimtifyDetectLocationWith_run (detect : StateM Config (Bool × GpsStatus)) :
    (muslimtifyDetectLocationWith (some detect)).run cfg =
      if (detect.run cfg).1.1 then
        ((.ok, some
          { source := if cfg.useGps && (detect.run cfg).1.2 = .ok then .gps else .ip
            gps := gpsError (detect.run cfg).1.2
            gpsDisabled := cfg.useGps && !(detect.run cfg).2.useGps }),
          { (detect.run cfg).2 with autoDetect := true })
      else ((.detectFailed, none), cfg) := by
  unfold muslimtifyDetectLocationWith
  simp only [run_bind, run_get]
  obtain ⟨⟨found, status⟩, candidate⟩ := detect.run cfg
  cases found with
  | true => rfl
  | false => rfl

theorem muslimtifySetGpsWith_run (probe : StateM Config GpsStatus) :
    (muslimtifySetGpsWith true (some probe)).run cfg =
      if (probe.run cfg).1 = .ok then
        ((.ok, some true), { (probe.run cfg).2 with useGps := true, autoDetect := true })
      else if (probe.run cfg).1 = .noFix then
        ((.ok, some false), { cfg with useGps := true, autoDetect := true })
      else ((gpsError (probe.run cfg).1, none), cfg) := by
  unfold muslimtifySetGpsWith
  simp only [Bool.not_true, Bool.false_eq_true, if_false, run_bind, run_get]
  obtain ⟨status, candidate⟩ := probe.run cfg
  cases status <;> rfl

/-- A call that does not succeed leaves the settings as they were. -/
theorem Call.failed_same (call : Call) (h : (call.result env cfg).1 ≠ .ok) :
    (call.result env cfg).2 = cfg := by
  cases call with
  | setter s => exact s.call_outcome.failed h
  | detectLocationWith detect =>
      cases detect with
      | none => rfl
      | some detect =>
          simp only [Call.result, muslimtifyDetectLocationWith_run] at h ⊢
          by_cases hfound : (detect.run cfg).1.1 = true
          · rw [if_pos hfound] at h
            exact absurd rfl h
          · rw [if_neg hfound]
  | setGpsWith enabled probe =>
      cases enabled with
      | false => exact absurd rfl h
      | true =>
          cases probe with
          | none => rfl
          | some probe =>
              simp only [Call.result, muslimtifySetGpsWith_run] at h ⊢
              split_ifs at h ⊢ with hok hfix
              · exact absurd rfl h
              · exact absurd rfl h
              · rfl
  | reload loaded =>
      cases loaded with
      | none => rfl
      | some loaded => exact absurd rfl h

end Calls

/-- A call that fails changes nothing, and a setter that succeeds changes the fields
it documents: coordinates take the host's zone with them and switch detection off.
A receiver without a fix is switched on and nothing else. -/
theorem calls_keep_settings (env : Surroundings) (cfg : Config) :
    (∀ call : Call, (call.result env cfg).1 ≠ .ok → (call.result env cfg).2 = cfg) ∧
      (∀ setter : Setter, ((setter.call env).run cfg).1 = .ok →
        SameBut setter.fields cfg ((setter.call env).run cfg).2) ∧
      (∀ latitude longitude : Double,
        ((muslimtifySetCoordinates env latitude longitude).run cfg).1 = .ok →
        ((muslimtifySetCoordinates env latitude longitude).run cfg).2 = { cfg with
          latitude := latitude
          longitude := longitude
          autoDetect := false
          useGps := false
          city := .empty 128
          country := .empty 64
          timezone := env.systemTimezone
          timezoneOffset := env.parseTimezoneOffset env.systemTimezone.text }) ∧
      ∀ probe : StateM Config GpsStatus, (probe.run cfg).1 = .noFix →
        ((muslimtifySetGpsWith true (some probe)).run cfg).1.1 = .ok ∧
          SameBut [.useGps, .autoDetect] cfg
            ((muslimtifySetGpsWith true (some probe)).run cfg).2 := by
  refine ⟨Call.failed_same env cfg, fun setter => setter.call_outcome.changed, ?_, ?_⟩
  · intro latitude longitude hok
    unfold muslimtifySetCoordinates at hok ⊢
    cases hlat : configLatitudeIsValid latitude with
    | false =>
        rw [hlat] at hok
        cases hok
    | true =>
        cases hlon : configLongitudeIsValid longitude with
        | false =>
            rw [hlat, hlon] at hok
            cases hok
        | true => rfl
  · intro probe hfix
    rw [muslimtifySetGpsWith_run, hfix]
    constructor
    · rfl
    · exact (sameBut_put .useGps cfg true).trans (sameBut_put .autoDetect _ true)

/-- A detection on a handle is one that the daemon's cycle is modelled with. -/
theorem muslimtifyDetectLocation_refined (env : Surroundings) (cfg : Config) :
    ∃ lookups : Lookups, (muslimtifyDetectLocation env).run cfg =
      match Detection.muslimtifyDetectLocationWith cfg (Detection.locationDetect lookups cfg) with
      | some (found, detection) => ((.ok, some detection), found)
      | none => ((.detectFailed, none), cfg) := by
  obtain ⟨lookups, h⟩ := locationDetect_lookups env cfg
  refine ⟨lookups, ?_⟩
  rw [h, muslimtifyDetectLocation, muslimtifyDetectLocationWith_run]
  cases hfound : ((LocationFetch.locationDetect env).run cfg).1.1 with
  | true => rfl
  | false => rfl

end Muslimtify.Handle
