import Muslimtify.Settings

/-!
# Detecting the location

`location_fetch_core` asks the GPS receiver first when it is switched on and the
network otherwise, or when the receiver has no answer. A receiver that is gone
for good is switched off. `muslimtify_detect_location_with` runs such a lookup
on a copy of the settings and keeps the copy only when the lookup succeeds.

What the receiver and the network answer is left open, as `Lookups`.
-/
namespace Muslimtify.Detection
open CText CDouble Settings

inductive GpsStatus
  | ok
  | noFix
  | noDaemon
  | noDevice
  | noPermission
  | unavailable
  deriving DecidableEq, Repr

/-- The errors of the functions modelled here. -/
inductive MuslimtifyError
  | ok
  | invalidArg
  | configLoad
  | noLocation
  | invalidDate
  | dateOrder
  | rangeTooLong
  | configSave
  | invalidValue
  | valueTooLong
  | invalidLatitude
  | invalidLongitude
  | unknownTimezone
  | invalidCountry
  | invalidRefreshInterval
  | unknownMethod
  | unknownPrayer
  | invalidOffset
  | invalidReminder
  | tooManyReminders
  | fileNotFound
  | fileNotRegular
  | fileIsSymlink
  | fileNotReadable
  | fileResolve
  | detectFailed
  | gpsNoDaemon
  | gpsNoDevice
  | gpsNoPermission
  | gpsUnavailable
  | notifyInit
  | cacheSave
  deriving DecidableEq, Repr

/-- What a lookup stores. The receiver reports no country, and the network may
report neither a usable time zone nor a usable country. -/
structure Place where
  latitude : Double
  longitude : Double
  latitude_valid : configLatitudeIsValid latitude = true
  longitude_valid : configLongitudeIsValid longitude = true
  zone : Option (CBuffer 64 × Double)
  country : Option (CBuffer 64)
  updatedAt : ℤ
  stamped : longMin ≤ updatedAt ∧ updatedAt ≤ longMax

def Place.store (place : Place) (cfg : Config) : Config :=
  { cfg with
    latitude := place.latitude
    longitude := place.longitude
    timezone := (place.zone.map Prod.fst).getD cfg.timezone
    timezoneOffset := (place.zone.map Prod.snd).getD cfg.timezoneOffset
    country := place.country.getD cfg.country
    updatedAt := place.updatedAt }

/-- The answers of one lookup: the receiver's status, the place it reports when
that is `ok`, and the place the network reports. -/
structure Lookups where
  gps : GpsStatus
  fix : Place
  ipinfo : Option Place

/-- The failures after which the receiver is not asked again. -/
def isStructural : GpsStatus → Bool
  | .noDaemon | .noDevice | .unavailable => true
  | _ => false

/-- `location_detect`: the settings afterwards when the lookup succeeds, and the
status of the receiver. -/
def locationDetect (lookups : Lookups) (cfg : Config) : Option Config × GpsStatus :=
  if cfg.useGps then
    if lookups.gps = .ok then (some (lookups.fix.store cfg), .ok)
    else
      let cfg := if isStructural lookups.gps then { cfg with useGps := false } else cfg
      (lookups.ipinfo.map fun place => place.store cfg, lookups.gps)
  else (lookups.ipinfo.map fun place => place.store cfg, .ok)

def gpsError : GpsStatus → MuslimtifyError
  | .noDaemon => .gpsNoDaemon
  | .noDevice => .gpsNoDevice
  | .noPermission => .gpsNoPermission
  | .unavailable => .gpsUnavailable
  | .ok | .noFix => .ok

inductive MuslimtifyLocationSource
  | ip
  | gps
  deriving DecidableEq, Repr

structure MuslimtifyDetection where
  source : MuslimtifyLocationSource
  gps : MuslimtifyError
  gpsDisabled : Bool
  deriving DecidableEq, Repr

/-- The detection `{0}`. -/
def MuslimtifyDetection.zero : MuslimtifyDetection := ⟨.ip, .ok, false⟩

/-- `muslimtify_detect_location_with` after the hook's answer. -/
def muslimtifyDetectLocationWith (cfg : Config) (detected : Option Config × GpsStatus) :
    Option (Config × MuslimtifyDetection) :=
  detected.1.map fun candidate =>
    ({ candidate with autoDetect := true },
      { source := if cfg.useGps && detected.2 = .ok then .gps else .ip
        gps := gpsError detected.2
        gpsDisabled := cfg.useGps && !candidate.useGps })

section Kept
variable {lookups : Lookups} {cfg found : Config} {detection : MuslimtifyDetection}

/-- A lookup that succeeds stores the place of the receiver or that of the network, and may
switch the receiver off. -/
theorem locationDetect_place (h : (locationDetect lookups cfg).1 = some found) :
    ∃ (place : Place) (useGps : Bool), (place = lookups.fix ∨ lookups.ipinfo = some place) ∧
      found = { place.store cfg with useGps := useGps } := by
  unfold locationDetect at h
  split_ifs at h with hgps hok hgone
  · obtain rfl := Option.some.inj h
    exact ⟨lookups.fix, cfg.useGps, Or.inl rfl, rfl⟩
  · obtain ⟨place, hplace, rfl⟩ := Option.map_eq_some_iff.mp h
    exact ⟨place, false, Or.inr hplace, rfl⟩
  · obtain ⟨place, hplace, rfl⟩ := Option.map_eq_some_iff.mp h
    exact ⟨place, cfg.useGps, Or.inr hplace, rfl⟩
  · obtain ⟨place, hplace, rfl⟩ := Option.map_eq_some_iff.mp h
    exact ⟨place, cfg.useGps, Or.inr hplace, rfl⟩

/-- A detection stores such a place and turns automatic detection on. -/
theorem muslimtifyDetectLocationWith_place
    (h : muslimtifyDetectLocationWith cfg (locationDetect lookups cfg) = some (found, detection)) :
    ∃ (place : Place) (useGps : Bool), (place = lookups.fix ∨ lookups.ipinfo = some place) ∧
      found = { place.store cfg with useGps := useGps, autoDetect := true } := by
  simp only [muslimtifyDetectLocationWith, Option.map_eq_some_iff, Prod.mk.injEq] at h
  obtain ⟨candidate, hc, rfl, -⟩ := h
  obtain ⟨place, useGps, hplace, rfl⟩ := locationDetect_place hc
  exact ⟨place, useGps, hplace, rfl⟩

theorem muslimtifyDetectLocationWith_eq
    (h : muslimtifyDetectLocationWith cfg (locationDetect lookups cfg) = some (found, detection)) :
    ∃ (place : Place) (useGps : Bool),
      found = { place.store cfg with useGps := useGps, autoDetect := true } := by
  obtain ⟨place, useGps, -, rfl⟩ := muslimtifyDetectLocationWith_place h
  exact ⟨place, useGps, rfl⟩

/-- A detection touches no prayer's settings. -/
theorem muslimtifyDetectLocationWith_prayers
    (h : muslimtifyDetectLocationWith cfg (locationDetect lookups cfg) = some (found, detection))
    (p : PrayerType) : prayerGetConfig found p = prayerGetConfig cfg p := by
  obtain ⟨place, useGps, rfl⟩ := muslimtifyDetectLocationWith_eq h
  cases p <;> rfl

theorem muslimtifyDetectLocationWith_inRange
    (h : muslimtifyDetectLocationWith cfg (locationDetect lookups cfg) = some (found, detection))
    (hc : cfg.InRange) : found.InRange := by
  have hprayers := muslimtifyDetectLocationWith_prayers h
  obtain ⟨place, useGps, rfl⟩ := muslimtifyDetectLocationWith_eq h
  exact
    { prayers := fun p => by rw [hprayers]; exact hc.prayers p
      gps := fun h => by cases h
      updatedAt := place.stamped
      refreshInterval := hc.refreshInterval
      refreshFloor := hc.refreshFloor
      timeout := hc.timeout
      sound := hc.sound
      timeFormat := hc.timeFormat }

end Kept

end Muslimtify.Detection
