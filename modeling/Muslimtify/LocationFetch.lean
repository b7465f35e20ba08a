import Muslimtify.Detection
import Muslimtify.JsonReader
import Muslimtify.Schedule

/-!
# Fetching the location

The functions that look a location up write it into the settings they are given,
field by field. A reply of the network is looked at before anything is stored:
without coordinates that are numbers in range it stores nothing. A time zone or
a country that is not one is passed over.

What the host, the receiver and the network answer during one call is collected
in `Surroundings`. Every lookup is one of those that the detection works with.
-/
namespace Muslimtify.LocationFetch
open CText CDouble JsonReader Settings Schedule Detection

section Countries

def isalpha (c : UInt8) : Bool := (0x41 ≤ c && c ≤ 0x5a) || (0x61 ≤ c && c ≤ 0x7a)

def toupper (c : UInt8) : UInt8 := if 0x61 ≤ c && c ≤ 0x7a then c - 0x20 else c

/-- The codes in their order, with the method of each country. -/
def iso31661Alpha2 : List (String × CalcMethod) :=
  [("AD", .mwl), ("AE", .dubai), ("AF", .karachi), ("AG", .mwl), ("AI", .mwl), ("AL", .mwl),
    ("AM", .mwl), ("AO", .mwl), ("AQ", .mwl), ("AR", .mwl), ("AS", .mwl), ("AT", .mwl),
    ("AU", .mwl), ("AW", .mwl), ("AX", .mwl), ("AZ", .mwl), ("BA", .mwl), ("BB", .mwl),
    ("BD", .karachi), ("BE", .mwl), ("BF", .mwl), ("BG", .mwl), ("BH", .gulf), ("BI", .mwl),
    ("BJ", .mwl), ("BL", .mwl), ("BM", .mwl), ("BN", .jakim), ("BO", .mwl), ("BQ", .mwl),
    ("BR", .mwl), ("BS", .mwl), ("BT", .mwl), ("BV", .mwl), ("BW", .mwl), ("BY", .mwl),
    ("BZ", .mwl), ("CA", .isna), ("CC", .mwl), ("CD", .mwl), ("CF", .mwl), ("CG", .mwl),
    ("CH", .mwl), ("CI", .mwl), ("CK", .mwl), ("CL", .mwl), ("CM", .mwl), ("CN", .mwl),
    ("CO", .mwl), ("CR", .mwl), ("CU", .mwl), ("CV", .mwl), ("CW", .mwl), ("CX", .mwl),
    ("CY", .mwl), ("CZ", .mwl), ("DE", .mwl), ("DJ", .mwl), ("DK", .mwl), ("DM", .mwl),
    ("DO", .mwl), ("DZ", .algeria), ("EC", .mwl), ("EE", .mwl), ("EG", .egypt), ("EH", .mwl),
    ("ER", .mwl), ("ES", .mwl), ("ET", .mwl), ("FI", .mwl), ("FJ", .mwl), ("FK", .mwl),
    ("FM", .mwl), ("FO", .mwl), ("FR", .france), ("GA", .mwl), ("GB", .mwl), ("GD", .mwl),
    ("GE", .mwl), ("GF", .mwl), ("GG", .mwl), ("GH", .mwl), ("GI", .mwl), ("GL", .mwl),
    ("GM", .mwl), ("GN", .mwl), ("GP", .mwl), ("GQ", .mwl), ("GR", .mwl), ("GS", .mwl),
    ("GT", .mwl), ("GU", .mwl), ("GW", .mwl), ("GY", .mwl), ("HK", .mwl), ("HM", .mwl),
    ("HN", .mwl), ("HR", .mwl), ("HT", .mwl), ("HU", .mwl), ("ID", .kemenag), ("IE", .mwl),
    ("IL", .mwl), ("IM", .mwl), ("IN", .karachi), ("IO", .mwl), ("IQ", .mwl), ("IR", .mwl),
    ("IS", .mwl), ("IT", .mwl), ("JE", .mwl), ("JM", .mwl), ("JO", .jordan), ("JP", .mwl),
    ("KE", .mwl), ("KG", .mwl), ("KH", .mwl), ("KI", .mwl), ("KM", .mwl), ("KN", .mwl),
    ("KP", .mwl), ("KR", .mwl), ("KW", .kuwait), ("KY", .mwl), ("KZ", .mwl), ("LA", .mwl),
    ("LB", .mwl), ("LC", .mwl), ("LI", .mwl), ("LK", .mwl), ("LR", .mwl), ("LS", .mwl),
    ("LT", .mwl), ("LU", .mwl), ("LV", .mwl), ("LY", .egypt), ("MA", .morocco), ("MC", .mwl),
    ("MD", .mwl), ("ME", .mwl), ("MF", .mwl), ("MG", .mwl), ("MH", .mwl), ("MK", .mwl),
    ("ML", .mwl), ("MM", .mwl), ("MN", .mwl), ("MO", .mwl), ("MP", .mwl), ("MQ", .mwl),
    ("MR", .mwl), ("MS", .mwl), ("MT", .mwl), ("MU", .mwl), ("MV", .mwl), ("MW", .mwl),
    ("MX", .mwl), ("MY", .jakim), ("MZ", .mwl), ("NA", .mwl), ("NC", .mwl), ("NE", .mwl),
    ("NF", .mwl), ("NG", .mwl), ("NI", .mwl), ("NL", .mwl), ("NO", .mwl), ("NP", .mwl),
    ("NR", .mwl), ("NU", .mwl), ("NZ", .mwl), ("OM", .gulf), ("PA", .mwl), ("PE", .mwl),
    ("PF", .mwl), ("PG", .mwl), ("PH", .mwl), ("PK", .karachi), ("PL", .mwl), ("PM", .mwl),
    ("PN", .mwl), ("PR", .mwl), ("PS", .jordan), ("PT", .portugal), ("PW", .mwl), ("PY", .mwl),
    ("QA", .qatar), ("RE", .mwl), ("RO", .mwl), ("RS", .mwl), ("RU", .russia), ("RW", .mwl),
    ("SA", .makkah), ("SB", .mwl), ("SC", .mwl), ("SD", .egypt), ("SE", .mwl),
    ("SG", .singapore), ("SH", .mwl), ("SI", .mwl), ("SJ", .mwl), ("SK", .mwl), ("SL", .mwl),
    ("SM", .mwl), ("SN", .mwl), ("SO", .mwl), ("SR", .mwl), ("SS", .mwl), ("ST", .mwl),
    ("SV", .mwl), ("SX", .mwl), ("SY", .mwl), ("SZ", .mwl), ("TC", .mwl), ("TD", .mwl),
    ("TF", .mwl), ("TG", .mwl), ("TH", .mwl), ("TJ", .mwl), ("TK", .mwl), ("TL", .mwl),
    ("TM", .mwl), ("TN", .tunisia), ("TO", .mwl), ("TR", .turkey), ("TT", .mwl), ("TV", .mwl),
    ("TW", .mwl), ("TZ", .mwl), ("UA", .mwl), ("UG", .mwl), ("UM", .mwl), ("US", .isna),
    ("UY", .mwl), ("UZ", .mwl), ("VA", .mwl), ("VC", .mwl), ("VE", .mwl), ("VG", .mwl),
    ("VI", .mwl), ("VN", .mwl), ("VU", .mwl), ("WF", .mwl), ("WS", .mwl), ("YE", .makkah),
    ("YT", .mwl), ("ZA", .mwl), ("ZM", .mwl), ("ZW", .mwl)]

/-- The two letters of a code in upper case. -/
def countryKey : CString → Option CString
  | [a, b] => if isalpha a && isalpha b then some [toupper a, toupper b] else none
  | _ => none

/-- The entry of a code. The table is searched by halving, which on distinct codes
in order finds what a search from the front finds. -/
def countryFind (code : CString) : Option CalcMethod :=
  (countryKey code).bind fun key =>
    (iso31661Alpha2.find? fun entry => ascii entry.1 = key).map Prod.snd

def countryIsValidAlpha2 (code : CString) : Bool := (countryFind code).isSome

def countryDefaultMethod (code : CString) : CalcMethod := (countryFind code).getD .mwl

end Countries

/-- The outcome of `platform_resolve_regular_file`. -/
inductive PathFile
  | ok (resolved : CBuffer 512)
  | notFound
  | notRegular
  | isSymlink
  | notReadable
  | tooLong
  | failed
  deriving DecidableEq, Repr

/-- What the outside world answers to one call. -/
structure Surroundings where
  timezoneExists : CString → Bool
  parseTimezoneOffset : CString → Double
  systemTimezone : CBuffer 64
  time : ℤ
  time_range : longMin ≤ time ∧ time ≤ longMax
  receiver : GpsStatus
  receiverLat : Double
  receiverLng : Double
  reply : Option CString
  resolve : CString → PathFile
  configFile : Option CString
  configOpens : Bool

section Lookups
variable (env : Surroundings)

def locationFetchGps : StateM Config GpsStatus := do
  if env.receiver ≠ .ok then return env.receiver
  let lat := env.receiverLat
  let lng := env.receiverLng
  if !(lat.geRat (-90) && lat.leRat 90 && lng.geRat (-180) && lng.leRat 180) then return .noFix
  modify fun cfg => { cfg with latitude := lat }
  modify fun cfg => { cfg with longitude := lng }
  modify fun cfg => { cfg with timezone := env.systemTimezone }
  modify fun cfg => { cfg with timezoneOffset := env.parseTimezoneOffset cfg.timezone.text }
  modify fun cfg => { cfg with updatedAt := env.time }
  return .ok

/-- The numbers before and after the comma of `loc`, both read to their ends. -/
def parseLoc (loc : CString) : Option (Double × Double) :=
  match loc.span (· ≠ comma) with
  | (_, []) => none
  | (before, _ :: after) =>
      let lat := strtodEnd before
      let lon := strtodEnd after
      if lat.2.length = before.length || lat.2 ≠ [] || lon.2.length = after.length || lon.2 ≠ [] ||
          !lat.1.isfinite || !lon.1.isfinite || !lat.1.geRat (-90) || !lat.1.leRat 90 ||
          !lon.1.geRat (-180) || !lon.1.leRat 180 then none
      else some (lat.1, lon.1)

/-- An unknown zone is passed over. -/
def parseTimezoneField (body : CString) : StateM Config Unit :=
  match getValue (ascii "timezone") body with
  | none => return
  | some tz => do
      if env.timezoneExists tz then
        modify fun cfg => { cfg with timezone := copyString 64 tz }
        modify fun cfg => { cfg with timezoneOffset := env.parseTimezoneOffset tz }

/-- Anything but a two-letter code is passed over. -/
def parseCountryField (body : CString) : StateM Config Unit :=
  match getValue (ascii "country") body with
  | none => return
  | some country => do
      if countryIsValidAlpha2 country then
        modify fun cfg => { cfg with country := copyString 64 country }

/-- Whether the reply was applied. -/
def locationParseIpinfo (body : CString) : StateM Config Bool :=
  match (getValue (ascii "loc") (terminated body)).bind parseLoc with
  | none => return false
  | some (lat, lon) => do
      modify fun cfg => { cfg with latitude := lat }
      modify fun cfg => { cfg with longitude := lon }
      parseTimezoneField env (terminated body)
      parseCountryField (terminated body)
      modify fun cfg => { cfg with updatedAt := env.time }
      return true

/-- Without a reply nothing is stored. -/
def locationFetchIpinfo : StateM Config Bool :=
  match env.reply with
  | none => return false
  | some body => locationParseIpinfo env body

/-- Whether a location was found, and the status of the receiver. -/
def locationFetchCore (gps : StateM Config GpsStatus) (ipinfo : StateM Config Bool) :
    StateM Config (Bool × GpsStatus) := do
  let mut status := GpsStatus.ok
  if (← get).useGps then
    status ← gps
    if status = .ok then return (true, status)
    if isStructural status then modify fun cfg => { cfg with useGps := false }
  return (← ipinfo, status)

def locationDetect : StateM Config (Bool × GpsStatus) :=
  locationFetchCore (locationFetchGps env) (locationFetchIpinfo env)

end Lookups

section Running
variable {σ α β : Type}

theorem run_bind (x : StateM σ α) (f : α → StateM σ β) (s : σ) :
    (x >>= f).run s = (f (x.run s).1).run (x.run s).2 := rfl

theorem run_modify (f : σ → σ) (s : σ) : (modify f : StateM σ PUnit).run s = (⟨⟩, f s) := rfl

theorem run_pure (a : α) (s : σ) : (pure a : StateM σ α).run s = (a, s) := rfl

theorem run_get (s : σ) : (get : StateM σ σ).run s = (s, s) := rfl

end Running

section Refinement
variable (env : Surroundings) (cfg : Config)

theorem valid_of_range {lat lng : Double} (h : (lat.geRat (-90) && lat.leRat 90 &&
    lng.geRat (-180) && lng.leRat 180) = true) :
    configLatitudeIsValid lat = true ∧ configLongitudeIsValid lng = true := by
  simp only [Bool.and_eq_true] at h
  obtain ⟨⟨⟨hs, hn⟩, hw⟩, he⟩ := h
  have hfinite : ∀ {x : Double} {a b : ℚ}, x.geRat a = true → x.leRat b = true →
      x.isfinite = true := by
    intro x a b ha hb
    cases x with
    | fin q hq => rfl
    | inf neg => cases neg <;> simp [Double.geRat, Double.leRat] at ha hb
    | nan => cases ha
  constructor
  · simp only [configLatitudeIsValid, hfinite hs hn, hs, hn, Bool.and_self]
  · simp only [configLongitudeIsValid, hfinite hw he, hw, he, Bool.and_self]

theorem locationFetchGps_run :
    (∃ place : Place, (locationFetchGps env).run cfg = (.ok, place.store cfg)) ∨
      ∃ status, status ≠ .ok ∧ (locationFetchGps env).run cfg = (status, cfg) := by
  by_cases hok : env.receiver = .ok
  · cases hrange : env.receiverLat.geRat (-90) && env.receiverLat.leRat 90 &&
        env.receiverLng.geRat (-180) && env.receiverLng.leRat 180 with
    | true =>
        obtain ⟨hlat, hlng⟩ := valid_of_range hrange
        left
        refine ⟨⟨env.receiverLat, env.receiverLng, hlat, hlng, some (env.systemTimezone,
          env.parseTimezoneOffset env.systemTimezone.text), none, env.time, env.time_range⟩, ?_⟩
        simp only [locationFetchGps, hok, hrange]
        rfl
    | false =>
        right
        refine ⟨.noFix, by decide, ?_⟩
        simp only [locationFetchGps, hok, hrange]
        rfl
  · right
    refine ⟨env.receiver, hok, ?_⟩
    simp only [locationFetchGps, ne_eq, hok, not_false_eq_true, if_true]
    rfl

theorem parseLoc_valid {loc : CString} {lat lon : Double} (h : parseLoc loc = some (lat, lon)) :
    configLatitudeIsValid lat = true ∧ configLongitudeIsValid lon = true := by
  unfold parseLoc at h
  split at h
  · cases h
  · dsimp only at h
    split_ifs at h with hbad
    obtain ⟨rfl, rfl⟩ := Prod.mk.inj (Option.some.inj h)
    simp only [Bool.or_eq_true, Bool.not_eq_true', not_or, Bool.not_eq_false] at hbad
    apply valid_of_range
    simp [hbad]

/-- The zone and the country of the reply, where they are one. -/
def knownZone (body : CString) : Option CString :=
  (getValue (ascii "timezone") body).filter fun tz => env.timezoneExists tz

def knownCountry (body : CString) : Option CString :=
  (getValue (ascii "country") body).filter fun country => countryIsValidAlpha2 country

theorem parseTimezoneField_run (body : CString) :
    (parseTimezoneField env body).run cfg = ((), { cfg with
      timezone := ((knownZone env body).map (copyString 64)).getD cfg.timezone
      timezoneOffset := ((knownZone env body).map env.parseTimezoneOffset).getD
        cfg.timezoneOffset }) := by
  unfold parseTimezoneField knownZone
  cases getValue (ascii "timezone") body with
  | none => rfl
  | some tz =>
      cases hexists : env.timezoneExists tz with
      | true =>
          simp only [hexists, if_true, Option.filter_some]
          rfl
      | false =>
          simp only [hexists, Bool.false_eq_true, if_false, Option.filter_some]
          rfl

theorem parseCountryField_run (body : CString) :
    (parseCountryField body).run cfg = ((), { cfg with
      country := ((knownCountry body).map (copyString 64)).getD cfg.country }) := by
  unfold parseCountryField knownCountry
  cases getValue (ascii "country") body with
  | none => rfl
  | some country =>
      cases hvalid : countryIsValidAlpha2 country with
      | true =>
          simp only [hvalid, if_true, Option.filter_some]
          rfl
      | false =>
          simp only [hvalid, Bool.false_eq_true, if_false, Option.filter_some]
          rfl

theorem locationParseIpinfo_rejected {body : CString}
    (h : (getValue (ascii "loc") (terminated body)).bind parseLoc = none) :
    (locationParseIpinfo env body).run cfg = (false, cfg) := by
  rw [locationParseIpinfo, h]
  rfl

theorem locationParseIpinfo_applied {body : CString} {lat lon : Double}
    (h : (getValue (ascii "loc") (terminated body)).bind parseLoc = some (lat, lon)) :
    (locationParseIpinfo env body).run cfg = (true, { cfg with
      latitude := lat
      longitude := lon
      timezone := ((knownZone env (terminated body)).map (copyString 64)).getD cfg.timezone
      timezoneOffset := ((knownZone env (terminated body)).map env.parseTimezoneOffset).getD
        cfg.timezoneOffset
      country := ((knownCountry (terminated body)).map (copyString 64)).getD cfg.country
      updatedAt := env.time }) := by
  rw [locationParseIpinfo, h]
  simp only [run_bind, run_modify, parseTimezoneField_run, parseCountryField_run, run_pure]

theorem locationParseIpinfo_run (body : CString) :
    (∃ place : Place, (locationParseIpinfo env body).run cfg = (true, place.store cfg)) ∨
      (locationParseIpinfo env body).run cfg = (false, cfg) := by
  cases hloc : (getValue (ascii "loc") (terminated body)).bind parseLoc with
  | none => exact .inr (locationParseIpinfo_rejected env cfg hloc)
  | some loc =>
      obtain ⟨lat, lon⟩ := loc
      obtain ⟨_, -, hparse⟩ := Option.bind_eq_some_iff.mp hloc
      obtain ⟨hlat, hlon⟩ := parseLoc_valid hparse
      left
      refine ⟨⟨lat, lon, hlat, hlon, (knownZone env (terminated body)).map fun tz =>
        (copyString 64 tz, env.parseTimezoneOffset tz),
        (knownCountry (terminated body)).map (copyString 64), env.time, env.time_range⟩, ?_⟩
      rw [locationParseIpinfo_applied env cfg hloc, Place.store]
      cases knownZone env (terminated body) <;> rfl

theorem locationFetchIpinfo_run :
    ∃ answer : Option Place, (locationFetchIpinfo env).run cfg =
      (answer.isSome, (answer.map fun place => place.store cfg).getD cfg) := by
  unfold locationFetchIpinfo
  cases env.reply with
  | none => exact ⟨none, rfl⟩
  | some body =>
      rcases locationParseIpinfo_run env cfg body with ⟨place, h⟩ | h
      · exact ⟨some place, h⟩
      · exact ⟨none, h⟩

/-- A place for the receiver that reports none. -/
def nowhere : Place :=
  ⟨.zero, .zero, by decide +kernel, by decide +kernel, none, none, env.time, env.time_range⟩

theorem locationFetchCore_off {gps : StateM Config GpsStatus} {ipinfo : StateM Config Bool}
    (h : cfg.useGps = false) :
    (locationFetchCore gps ipinfo).run cfg =
      (((ipinfo.run cfg).1, .ok), (ipinfo.run cfg).2) := by
  simp only [locationFetchCore, run_bind, run_get, h, Bool.false_eq_true, if_false, run_pure]

theorem locationFetchCore_on {gps : StateM Config GpsStatus} {ipinfo : StateM Config Bool}
    (h : cfg.useGps = true) {status : GpsStatus} {found : Config}
    (hgps : gps.run cfg = (status, found)) :
    (locationFetchCore gps ipinfo).run cfg =
      if status = .ok then ((true, .ok), found)
      else
        let asked := if isStructural status then { found with useGps := false } else found
        (((ipinfo.run asked).1, status), (ipinfo.run asked).2) := by
  simp only [locationFetchCore, run_bind, run_get, h, if_true, hgps]
  split_ifs with hok hgone
  · rw [hok, run_pure]
  · simp only [run_bind, run_modify, run_pure]
  · simp only [run_bind, run_pure]

/-- Each lookup is one that the detection is modelled with. -/
theorem locationDetect_lookups :
    ∃ lookups : Lookups, Detection.locationDetect lookups cfg =
      ((if ((locationDetect env).run cfg).1.1 then some ((locationDetect env).run cfg).2 else none),
        ((locationDetect env).run cfg).1.2) := by
  have hasked : ∀ asked : Config, ∃ answer : Option Place,
      (if ((locationFetchIpinfo env).run asked).1 then some ((locationFetchIpinfo env).run asked).2
        else none) = answer.map fun place => place.store asked := by
    intro asked
    obtain ⟨answer, h⟩ := locationFetchIpinfo_run env asked
    refine ⟨answer, ?_⟩
    rw [h]
    cases answer <;> rfl
  unfold locationDetect
  cases hgps : cfg.useGps with
  | false =>
      obtain ⟨answer, hanswer⟩ := hasked cfg
      refine ⟨⟨.ok, nowhere env, answer⟩, ?_⟩
      simp only [locationFetchCore_off cfg hgps, hanswer, Detection.locationDetect, hgps,
        Bool.false_eq_true, if_false]
  | true =>
      rcases locationFetchGps_run env cfg with ⟨place, h⟩ | ⟨status, hstatus, h⟩
      · refine ⟨⟨.ok, place, none⟩, ?_⟩
        simp only [locationFetchCore_on cfg hgps h, Detection.locationDetect, hgps, if_true]
      · obtain ⟨answer, hanswer⟩ :=
          hasked (if isStructural status then { cfg with useGps := false } else cfg)
        refine ⟨⟨status, nowhere env, answer⟩, ?_⟩
        simp only [locationFetchCore_on cfg hgps h, Detection.locationDetect, hgps, if_true,
          if_neg hstatus, hanswer]

end Refinement

end Muslimtify.LocationFetch
