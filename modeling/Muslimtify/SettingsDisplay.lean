import Muslimtify.Display
import Muslimtify.SettingsView

/-!
# What the display prints of the settings as JSON

The location carries strings that came from outside, so they are written with
escapes, and a reader gets back every byte of them. The notification settings
are read back as the words, the flags and the reminders that were shown.
-/
namespace Muslimtify.SettingsDisplay
open CText CDouble CivilDays JsonReader JsonDocument JsonGrammar JsonLookup JsonLayout JsonWriter
  JsonPrinting
  StringWriters Settings ConfigFile ConfigRoundTrip Schedule Detection PublicTimes NextPrayer
  TriggerPartition Display Handle SettingsView

section Location

/-- `%+.kf` -/
def formatSigned (k : ℕ) (x : Double) : CString :=
  if (formatFixed k x).head? = some 0x2d then formatFixed k x else 0x2b :: formatFixed k x

/-- What `snprintf` leaves of a text in `cap` bytes. -/
def printed (cap : ℕ) (text : CString) : CString := text.take (cap - 1)

def coordinates (loc : MuslimtifyLocation) : CString :=
  printed 32 (formatFixed 4 loc.latitude ++ (ascii "," ++ formatFixed 4 loc.longitude))

def gmt (loc : MuslimtifyLocation) : CString :=
  printed 16 (ascii "UTC" ++ formatSigned 1 loc.utcOffset)

def displayLocationJson (loc : MuslimtifyLocation) : CString :=
  ascii "\x7b\n" ++
  (ascii "  \"coordinates\": " ++ (jsonStr (coordinates loc) ++ (ascii ",\n" ++
  (ascii "  \"city\": " ++ (jsonStr loc.city.text ++ (ascii ",\n" ++
  (ascii "  \"country\": " ++ (jsonStr loc.country.text ++ (ascii ",\n" ++
  (ascii "  \"timezone\": " ++ (jsonStr loc.timezone.text ++ (ascii ",\n" ++
  (ascii "  \"gmt\": " ++ (jsonStr (gmt loc) ++ (ascii ",\n" ++
  (ascii "  \"gps\": " ++ (boolText loc.gps ++ (ascii ",\n" ++
  (ascii "  \"refresh_interval\": " ++ (formatInt loc.refreshInterval ++ (ascii "\n" ++
  ascii "\x7d\n")))))))))))))))))))))

/-- A string as `json_str` writes it. -/
def strValue (s : CString) : Value := .string (s.flatMap jsonStrByte)

def locationLines (loc : MuslimtifyLocation) : List Member :=
  [line 2 "coordinates" (strValue (coordinates loc)), line 2 "city" (strValue loc.city.text),
    line 2 "country" (strValue loc.country.text), line 2 "timezone" (strValue loc.timezone.text),
    line 2 "gmt" (strValue (gmt loc)), line 2 "gps" (boolValue loc.gps),
    lastLine 2 "refresh_interval" (intValue loc.refreshInterval)]

theorem displayLocationJson_lines (loc : MuslimtifyLocation) :
    displayLocationJson loc =
      objectOpen :: (membersText (locationLines loc) ++ objectClose :: [0x0a]) := by
  simp only [displayLocationJson, locationLines, membersText, Member.text, line, lastLine, strValue,
    Value.text, boolValue, intValue, jsonStr, List.append_assoc, List.cons_append, List.nil_append]
  rfl

theorem strValue_valid (s : CString) (n : ℕ) : (strValue s).Valid n :=
  jsonStrByte_escapes.flatMap_raw s

theorem strValue_result {s : CString} (h : NulFree s) : (strValue s).result = s :=
  jsonStrByte_escapes.unescape_flatMap h

theorem locationLines_valid (loc : MuslimtifyLocation) : ∀ m ∈ locationLines loc, m.Valid 98 := by
  simp only [locationLines, List.forall_mem_cons]
  exact ⟨line_valid (by decide) (strValue_valid _ _) 2,
    line_valid (by decide) (strValue_valid _ _) 2,
    line_valid (by decide) (strValue_valid _ _) 2, line_valid (by decide) (strValue_valid _ _) 2,
    line_valid (by decide) (strValue_valid _ _) 2, line_valid (by decide) (boolValue_valid _ _) 2,
    lastLine_valid (by decide) (intValue_valid _ _) 2, List.forall_mem_nil _⟩

/-- What a reader of the printed object knows of the location. -/
structure LocationShown where
  coordinates : CString
  city : CString
  country : CString
  timezone : CString
  gmt : CString
  gps : Bool
  refreshInterval : ℤ

def readLocation (json : CString) : Option LocationShown := do
  let coordinates ← getValue (ascii "coordinates") json
  let city ← getValue (ascii "city") json
  let country ← getValue (ascii "country") json
  let timezone ← getValue (ascii "timezone") json
  let gmt ← getValue (ascii "gmt") json
  let gps ← getValue (ascii "gps") json
  let refreshInterval ← getValue (ascii "refresh_interval") json
  return {
    coordinates := coordinates
    city := city
    country := country
    timezone := timezone
    gmt := gmt
    gps := isTrue gps
    refreshInterval := strtol refreshInterval }

/-- The two numbers at the comma. -/
def readCoordinates (text : CString) : Option (Double × Double) :=
  match text.span (· ≠ comma) with
  | (_, []) => none
  | (before, _ :: after) => some (strtod before, strtod after)

/-- What holds of the bytes of numbers holds of a printed number. -/
theorem formatFixed_bytes {P : UInt8 → Prop} (hdigit : ∀ b, isDigit b = true → P b)
    (hrest : ∀ b ∈ ascii ".-infa", P b) (k : ℕ) (x : Double) : ∀ b ∈ formatFixed k x, P b := by
  have hdigits : ∀ n, ∀ b ∈ fixedDigits k n, P b := fun n =>
    List.forall_mem_append.mpr ⟨fun b hb => hdigit b (decimal_isDigit _ b hb),
      List.forall_mem_cons.mpr ⟨hrest _ (by decide),
        fun b hb => hdigit b (zeroPad_isDigit (decimal_isDigit _) b hb)⟩⟩
  cases x with
  | fin q h =>
      rw [formatFixed]
      split_ifs
      · exact List.forall_mem_cons.mpr ⟨hrest _ (by decide), hdigits _⟩
      · exact hdigits _
  | inf neg =>
      cases neg with
      | false => exact fun b hb => hrest b ((by decide : ascii "inf" ⊆ ascii ".-infa") hb)
      | true => exact fun b hb => hrest b ((by decide : ascii "-inf" ⊆ ascii ".-infa") hb)
  | nan => exact fun b hb => hrest b ((by decide : ascii "nan" ⊆ ascii ".-infa") hb)

/-- An angle in degrees takes at most nine characters. -/
theorem formatFixed_angle {x : Double} (h₁ : x.geRat (-180) = true) (h₂ : x.leRat 180 = true) :
    (formatFixed 4 x).length ≤ 9 := by
  have hlength : ∀ q : ℚ, 0 ≤ q → q ≤ 180 →
      (fixedDigits 4 (roundHalfEven (q * 10 ^ 4))).length ≤ 8 := by
    intro q hq hq'
    have hscaled : q * 10 ^ 4 ≤ 1800000 := by linarith
    have hnear := (roundHalfEven_near (q := q * 10 ^ 4) (by positivity)).1
    generalize roundHalfEven (q * 10 ^ 4) = n at hnear ⊢
    have hle : n ≤ 1800000 := by
      have : (n : ℚ) < 1800001 := by linarith
      exact Nat.le_of_lt_succ (by exact_mod_cast this)
    have hwhole := decimal_length_le (n := n / 10 ^ 4) (k := 3) (by decide) (by omega)
    have hpad := zeroPad_length (w := 4)
      (decimal_length_le (n := n % 10 ^ 4) (k := 4) (by decide) (Nat.mod_lt _ (by decide)))
    simp only [fixedDigits, List.length_append, List.length_cons, hpad]
    omega
  cases x with
  | fin q h =>
      simp only [Double.geRat, Double.leRat, decide_eq_true_eq] at h₁ h₂
      rw [formatFixed]
      split_ifs with hneg
      · exact Nat.succ_le_succ (hlength (-q) (by linarith) (by linarith))
      · exact (hlength q (not_lt.mp hneg) h₂).trans (by decide)
  | inf neg => cases neg <;> decide
  | nan => decide

theorem formatFixed_plain (k : ℕ) (x : Double) : PlainText (formatFixed k x) :=
  formatFixed_bytes (fun _ => digit_plain) (by decide : PlainText (ascii ".-infa")) k x

theorem gmt_plain (loc : MuslimtifyLocation) : PlainText (gmt loc) := by
  have hsigned : PlainText (formatSigned 1 loc.utcOffset) := by
    unfold formatSigned
    split_ifs
    · exact formatFixed_plain 1 _
    · exact .cons (by decide) (formatFixed_plain 1 _)
  have htext : PlainText (ascii "UTC") := by decide
  exact fun b hb => (htext.append hsigned) b (List.mem_of_mem_take hb)

theorem coordinates_plain (loc : MuslimtifyLocation) : PlainText (coordinates loc) := by
  have htext : PlainText (ascii ",") := by decide
  exact fun b hb => ((formatFixed_plain 4 loc.latitude).append
    (htext.append (formatFixed_plain 4 loc.longitude))) b (List.mem_of_mem_take hb)

theorem plain_nulFree {s : CString} (h : PlainText s) : NulFree s := by
  rintro b hb rfl
  exact absurd (h 0 hb) (by decide)

/-- Coordinates in range are printed in full. -/
theorem coordinates_full {loc : MuslimtifyLocation}
    (hlat : configLatitudeIsValid loc.latitude = true)
    (hlon : configLongitudeIsValid loc.longitude = true) :
    coordinates loc = formatFixed 4 loc.latitude ++ comma :: formatFixed 4 loc.longitude := by
  simp only [configLatitudeIsValid, configLongitudeIsValid, Bool.and_eq_true] at hlat hlon
  have hwide : loc.latitude.geRat (-180) = true ∧ loc.latitude.leRat 180 = true := by
    obtain ⟨⟨-, hlow⟩, hhigh⟩ := hlat
    revert hlow hhigh
    cases loc.latitude with
    | fin q h =>
        simp only [Double.geRat, Double.leRat, decide_eq_true_eq]
        exact fun hlow hhigh => ⟨by linarith, by linarith⟩
    | inf neg => cases neg <;> simp [Double.geRat, Double.leRat]
    | nan => simp [Double.geRat]
  have hlat' := formatFixed_angle hwide.1 hwide.2
  have hlon' := formatFixed_angle hlon.1.2 hlon.2
  refine List.take_of_length_le ?_
  rw [List.length_append, show ascii "," ++ formatFixed 4 loc.longitude =
    comma :: formatFixed 4 loc.longitude from rfl, List.length_cons]
  omega

theorem readCoordinates_pair (latitude longitude : Double) :
    readCoordinates (formatFixed 4 latitude ++ comma :: formatFixed 4 longitude) =
      some (latitude.rounded 4, longitude.rounded 4) := by
  have hnocomma : ∀ b ∈ formatFixed 4 latitude, decide (b ≠ comma) = true := by
    have hdigit : ∀ b, isDigit b = true → b ≠ comma := by
      rintro b h rfl
      exact absurd h (by decide)
    have hrest : ∀ b ∈ ascii ".-infa", b ≠ comma := by
      rintro b hb rfl
      exact absurd hb (by decide)
    exact fun b hb => decide_eq_true (formatFixed_bytes hdigit hrest 4 _ b hb)
  have hspan : (formatFixed 4 latitude ++ comma :: formatFixed 4 longitude).span (· ≠ comma) =
      (formatFixed 4 latitude, comma :: formatFixed 4 longitude) := by
    rw [List.span_eq_takeWhile_dropWhile, List.takeWhile_append_of_pos hnocomma,
      List.dropWhile_append_of_pos hnocomma]
    simp
  rw [readCoordinates, hspan]
  simp only [strtod_format (k := 4) (by decide)]

/-- Coordinates in range are read back, rounded. -/
theorem readCoordinates_text {loc : MuslimtifyLocation}
    (hlat : configLatitudeIsValid loc.latitude = true)
    (hlon : configLongitudeIsValid loc.longitude = true) :
    readCoordinates (coordinates loc) =
      some (loc.latitude.rounded 4, loc.longitude.rounded 4) := by
  rw [coordinates_full hlat hlon, readCoordinates_pair]

/-- The names are UTF-8 texts. -/
structure TextNames (loc : MuslimtifyLocation) : Prop where
  city : ∃ cs, loc.city.text = utf8 cs
  country : ∃ cs, loc.country.text = utf8 cs
  timezone : ∃ cs, loc.timezone.text = utf8 cs

theorem displayLocationJson_document {loc : MuslimtifyLocation} (h : TextNames loc) :
    ∃ doc : Document, doc.depth ≤ 100 ∧ displayLocationJson loc = doc.text := by
  obtain ⟨⟨city, hcity⟩, ⟨country, hcountry⟩, ⟨timezone, htimezone⟩⟩ := h
  let ms : Named :=
    [("coordinates", ofText (coordinates loc)), ("city", ofChars city),
      ("country", ofChars country), ("timezone", ofChars timezone), ("gmt", ofText (gmt loc)),
      ("gps", ofBool loc.gps), ("refresh_interval", ofInt loc.refreshInterval)]
  have hn : PlainNames ms := plainNames_of (show _ = ["coordinates", "city", "country", "timezone",
    "gmt", "gps", "refresh_interval"] from rfl) (by decide)
  have hcoordinates := ofText_text (coordinates_plain loc)
  have hgmt := ofText_text (gmt_plain loc)
  refine ⟨lineDocument ms, ?_, ?_⟩
  · refine (objectLines_depth (d := 0) ?_).trans (by decide)
    simp only [ms, List.forall_mem_cons]
    exact ⟨le_rfl, le_rfl, le_rfl, le_rfl, le_rfl, le_rfl, le_rfl, List.forall_mem_nil _⟩
  · rw [lineDocument_text, objectLines_text 0 hn]
    simp only [ms, List.map_cons, List.map_nil, partLines_one, partLines_more, memberText,
      hcoordinates, hgmt, ofChars_text, ← hcity, ← hcountry, ← htimezone, ofBool_text, ofInt_text,
      ← jsonStr_plain (coordinates_plain loc), ← jsonStr_plain (gmt_plain loc),
      displayLocationJson, List.append_assoc, List.cons_append]
    rfl

/-- The JSON of the location gives back every byte of its names, whatever they are, and the
coordinates to four decimals. It is a text of the grammar when the names are texts. -/
theorem location_json_read {cfg : Config} (hc : cfg.InRange) (H : Host) (today : CivilDate) :
    let loc := muslimtifyGetLocation H cfg today
    let json := displayLocationJson loc
    readLocation json = some
      { coordinates := coordinates loc, city := cfg.city.text, country := cfg.country.text,
        timezone := cfg.timezone.text, gmt := gmt loc, gps := cfg.useGps,
        refreshInterval := cfg.refreshInterval } ∧
    (muslimtifyHasLocation cfg = true → readCoordinates (coordinates loc) =
      some (cfg.latitude.rounded 4, cfg.longitude.rounded 4)) ∧
    (TextNames loc → ∃ doc : Document, doc.depth ≤ 100 ∧ json = doc.text) := by
  intro loc json
  have hget : ∀ key, getValue key json = lookup key (locationLines loc) := by
    intro key
    have hlines := getValue_members (locationLines_valid loc) key blank_nil blank_nil
      (newline_blank 0)
    rw [show json = _ from displayLocationJson_lines loc]
    exact hlines
  have hcity : loc.city = cfg.city := copyString_text _
  have hcountry : loc.country = cfg.country := copyString_text _
  have htimezone : loc.timezone = cfg.timezone := copyString_text _
  have hrefresh := strtol_text hc.refreshInterval
  have hstring : ∀ (key : String) (s : CString), NulFree s →
      lookup (ascii key) (locationLines loc) = some (strValue s).result →
      getValue (ascii key) json = some s := by
    intro key s hs hl
    rw [hget, hl, strValue_result hs]
  have h₁ := hstring "coordinates" _ (plain_nulFree (coordinates_plain loc)) rfl
  have h₂ := hstring "city" _ loc.city.nulFree rfl
  have h₃ := hstring "country" _ loc.country.nulFree rfl
  have h₄ := hstring "timezone" _ loc.timezone.nulFree rfl
  have h₅ := hstring "gmt" _ (plain_nulFree (gmt_plain loc)) rfl
  have h₆ : getValue (ascii "gps") json = some (boolText loc.gps) := (hget _).trans rfl
  have h₇ : getValue (ascii "refresh_interval") json = some (formatInt loc.refreshInterval) :=
    (hget _).trans rfl
  refine ⟨?_, fun hset => ?_, displayLocationJson_document⟩
  · simp only [readLocation, h₁, h₂, h₃, h₄, h₅, h₆, h₇, hcity, hcountry, htimezone,
      isTrue_boolText, Option.bind_eq_bind, Option.bind_some]
    exact congrArg some (congrArg _ hrefresh)
  · simp only [muslimtifyHasLocation, Bool.and_eq_true] at hset
    exact readCoordinates_text hset.1.2 hset.2

theorem location_json_read_north :
    (readLocation (displayLocationJson (muslimtifyGetLocation springHost farNorth ⟨2026, 6, 17⟩))).map
      (·.city) = some farNorth.city.text := by
  rw [(location_json_read farNorth_inRange springHost ⟨2026, 6, 17⟩).1]
  rfl

end Location

section Notification

/-- The lines of the prayers that are left to print. -/
def printPrayerSettings (n : MuslimtifyNotification) : List PrayerType → CString
  | [] => []
  | type :: rest =>
      let p := n.prayers type
      ascii "    \"" ++ (prayerKey type ++ (ascii "\": \x7b \"enabled\": " ++ (boolText p.enabled ++
      (ascii ", \"reminders\": [" ++ (printReminders p.reminders.items ++
      (ascii "], \"adhan\": " ++ (boolText p.adhanEnabled ++ (ascii " \x7d" ++
      ((if rest.isEmpty then [] else ascii ",") ++
      (ascii "\n" ++ printPrayerSettings n rest))))))))))

def displayNotificationSettingsJson (n : MuslimtifyNotification) : CString :=
  ascii "\x7b\n" ++
  (ascii "  \"sound\": " ++ (jsonStr (muslimtifySoundModeKey n.soundMode) ++ (ascii ",\n" ++
  (ascii "  \"urgency\": " ++ (jsonStr (muslimtifyUrgencyKey n.urgency) ++ (ascii ",\n" ++
  (ascii "  \"prayers\": \x7b\n" ++ (printPrayerSettings n prayerTypes ++
  (ascii "  \x7d\n" ++ ascii "\x7d\n")))))))))

def settingsMembers (p : MuslimtifyPrayerSettings) : Named :=
  [("enabled", ofBool p.enabled), ("reminders", arrayList (p.reminders.items.map ofInt)),
    ("adhan", ofBool p.adhanEnabled)]

def settingsEntries (n : MuslimtifyNotification) (types : List PrayerType) : Named :=
  types.map fun type => (prayerWord type, objectList (settingsMembers (n.prayers type)))

def notificationMembers (n : MuslimtifyNotification) : Named :=
  [("sound", ofText (muslimtifySoundModeKey n.soundMode)),
    ("urgency", ofText (muslimtifyUrgencyKey n.urgency)),
    ("prayers", objectLines 2 (settingsEntries n prayerTypes))]

theorem settingsMembers_plain (p : MuslimtifyPrayerSettings) : PlainNames (settingsMembers p) :=
  plainNames_of (show _ = ["enabled", "reminders", "adhan"] from rfl) (by decide)

theorem settingsEntries_plain (n : MuslimtifyNotification) (types : List PrayerType) :
    PlainNames (settingsEntries n types) := by
  intro m hm
  obtain ⟨type, -, rfl⟩ := List.mem_map.mp hm
  exact prayerWord_plain type

theorem notificationMembers_plain (n : MuslimtifyNotification) :
    PlainNames (notificationMembers n) :=
  plainNames_of (show _ = ["sound", "urgency", "prayers"] from rfl) (by decide)

/-- A word of the enumeration, or the one for a value outside it. -/
theorem keyAtOrUnknown_plain {keys : List CString} (h : ∀ key ∈ keys, PlainText key) (value : ℤ) :
    PlainText (keyAtOrUnknown keys value) := by
  unfold keyAtOrUnknown
  cases hkey : keyAt keys value with
  | none => exact (by decide : PlainText (ascii "unknown"))
  | some key => exact h key (mem_of_keyAt hkey)

theorem printPrayerSettings_lines (n : MuslimtifyNotification) (types : List PrayerType) :
    printPrayerSettings n types = partLines 4 ((settingsEntries n types).map memberText) := by
  induction types with
  | nil => rfl
  | cons type rest ih =>
      have hempty : (settingsEntries n rest).isEmpty = rest.isEmpty := List.isEmpty_map
      have htext := objectList_text (settingsMembers_plain (n.prayers type)) (List.cons_ne_nil _ _)
      rw [settingsEntries, List.map_cons, List.map_cons, partLines, ← settingsEntries, ← ih,
        List.isEmpty_map, hempty, memberText, htext, printPrayerSettings, prayerKey_word,
        printReminders_list]
      simp only [settingsMembers, List.map_cons, List.map_nil, partList, memberText, ofBool_text,
        arrayList_text, ofInt_texts, List.append_assoc, List.cons_append]
      rfl

theorem displayNotificationSettingsJson_text (n : MuslimtifyNotification) :
    displayNotificationSettingsJson n = (lineDocument (notificationMembers n)).text := by
  have hsound : PlainText (keyAtOrUnknown soundKeys n.soundMode) :=
    keyAtOrUnknown_plain (by decide) n.soundMode
  have hurgency : PlainText (keyAtOrUnknown urgencyKeys n.urgency) :=
    keyAtOrUnknown_plain (by decide) n.urgency
  have hprayers := objectLines_text 2 (settingsEntries_plain n prayerTypes)
  rw [← printPrayerSettings_lines] at hprayers
  rw [lineDocument_text, objectLines_text 0 (notificationMembers_plain n),
    displayNotificationSettingsJson, muslimtifySoundModeKey, muslimtifyUrgencyKey,
    jsonStr_plain hsound, jsonStr_plain hurgency]
  simp only [notificationMembers, List.map_cons, List.map_nil, partLines_one, partLines_more,
    memberText, muslimtifySoundModeKey, muslimtifyUrgencyKey, ofText_text hsound,
    ofText_text hurgency, hprayers, List.append_assoc, List.cons_append]
  rfl

/-- What a reader of the printed object knows of a prayer's settings. -/
structure SettingsShown where
  enabled : Bool
  reminders : FixedArray ℤ maxReminders
  adhan : Bool
  deriving DecidableEq, Repr

structure NotificationShown where
  sound : CString
  urgency : CString
  prayers : List SettingsShown
  deriving DecidableEq, Repr

def readSettings (json : CString) (type : PrayerType) : Option SettingsShown := do
  let enabled ← readPath ["prayers", prayerWord type, "enabled"] json
  let reminders ← readPath ["prayers", prayerWord type, "reminders"] json
  let adhan ← readPath ["prayers", prayerWord type, "adhan"] json
  return {
    enabled := isTrue enabled
    reminders := parseReminders .empty reminders
    adhan := isTrue adhan }

def readNotification (json : CString) : Option NotificationShown := do
  let sound ← readPath ["sound"] json
  let urgency ← readPath ["urgency"] json
  let prayers ← prayerTypes.mapM (readSettings json)
  return ⟨sound, urgency, prayers⟩

theorem notificationDocument_depth (n : MuslimtifyNotification) :
    (lineDocument (notificationMembers n)).depth ≤ 100 := by
  have hprayer : ∀ p, (objectList (settingsMembers p)).depth ≤ 2 := by
    refine fun p => objectList_depth ?_
    simp only [settingsMembers, List.forall_mem_cons]
    refine ⟨Nat.zero_le _, arrayList_depth ?_, Nat.zero_le _, List.forall_mem_nil _⟩
    exact List.forall_mem_map.mpr fun _ _ => le_rfl
  have hprayers : (objectLines 2 (settingsEntries n prayerTypes)).depth ≤ 3 :=
    objectLines_depth (List.forall_mem_map.mpr fun _ _ => hprayer _)
  refine (objectLines_depth (d := 3) ?_).trans (by decide)
  simp only [notificationMembers, List.forall_mem_cons]
  exact ⟨Nat.zero_le _, Nat.zero_le _, hprayers, List.forall_mem_nil _⟩

theorem settingsEntries_lookup (n : MuslimtifyNotification) (type : PrayerType) :
    (settingsEntries n prayerTypes).lookup (prayerWord type) =
      some (objectList (settingsMembers (n.prayers type))) := by
  cases type <;> rfl

theorem readSettings_text {n : MuslimtifyNotification} {type : PrayerType}
    (hr : ∀ r ∈ (n.prayers type).reminders.items, 1 ≤ r ∧ r ≤ 1440) :
    readSettings (displayNotificationSettingsJson n) type =
      some ⟨(n.prayers type).enabled, (n.prayers type).reminders, (n.prayers type).adhanEnabled⟩ := by
  have hfield : ∀ key, PlainName key → ∀ v,
      (settingsMembers (n.prayers type)).lookup key = some v →
      readPath ["prayers", prayerWord type, key] (displayNotificationSettingsJson n) =
        some (handed v) := by
    intro key hk v hv
    have hnames : ∀ name ∈ ["prayers", prayerWord type, key], PrintableKey name := by
      simp only [List.forall_mem_cons]
      exact ⟨by decide, (prayerWord_plain type).printable, hk.printable, List.forall_mem_nil _⟩
    have hprayers : (notificationMembers n).lookup "prayers" = some _ := rfl
    have halong : along ["prayers", prayerWord type, key]
        (objectLines 0 (notificationMembers n)) = some v := by
      rw [along_objectLines (notificationMembers_plain n), hprayers, Option.bind_some,
        along_objectLines (settingsEntries_plain n _), settingsEntries_lookup, Option.bind_some,
        along_objectList (settingsMembers_plain _), hv]
      rfl
    rw [displayNotificationSettingsJson_text]
    exact readPath_along hnames (List.cons_ne_nil _ _) (notificationDocument_depth n) halong
      (lineWs 0)
  have henabled := hfield "enabled" (by decide) _ rfl
  have hreminders := hfield "reminders" (by decide) _ rfl
  have hadhan := hfield "adhan" (by decide) _ rfl
  simp only [readSettings, henabled, hreminders, hadhan, Option.bind_eq_bind, Option.bind_some,
    isTrue_handed, parseReminders_handed hr]
  rfl

/-- The word of an enumeration that is shown is the one that is stored. -/
theorem keyAtOrUnknown_keyFind {keys : List CString} {key : CString} (h : key ∈ keys) (usual : ℤ) :
    keyAtOrUnknown keys ((keyFind keys key).getD usual) = key := by
  have hsome : (keys.findIdx? (· = key)).isSome = true := by
    rw [List.findIdx?_isSome]
    exact List.any_eq_true.mpr ⟨key, h, decide_eq_true rfl⟩
  obtain ⟨i, hi⟩ := Option.isSome_iff_exists.mp hsome
  have hfind : keyFind keys key = some (i : ℤ) := by rw [keyFind, hi, Option.map_some]
  rw [hfind, Option.getD_some, keyAtOrUnknown, keyAt_keyFind hfind, Option.getD_some]

theorem keyFind_none {keys : List CString} {key : CString} (h : key ∉ keys) :
    keyFind keys key = none := by
  have hnone : keys.findIdx? (· = key) = none :=
    List.findIdx?_eq_none_iff.mpr fun k hk => decide_eq_false fun he : k = key => h (he ▸ hk)
  rw [keyFind, hnone, Option.map_none]

theorem getNotification_reminders (cfg : Config) (type : PrayerType) :
    ((muslimtifyGetNotification cfg).prayers type).reminders.items =
      (prayerGetConfig cfg type).reminders.items := by
  have hfits := (prayerGetConfig cfg type).reminders.fits
  simp only [muslimtifyGetNotification, FixedArray.pushAll_empty, List.take_of_length_le hfits]

theorem getNotification_sound {cfg : Config} (hc : cfg.InRange) :
    muslimtifySoundModeKey (muslimtifyGetNotification cfg).soundMode =
      cfg.notificationSound.text := keyAtOrUnknown_keyFind hc.sound 1

/-- An urgency that is no word of the enumeration is shown as the normal one. -/
def urgencyShown (cfg : Config) : CString :=
  if cfg.notificationUrgency.text ∈ urgencyKeys then cfg.notificationUrgency.text
  else ascii "normal"

theorem getNotification_urgency (cfg : Config) :
    muslimtifyUrgencyKey (muslimtifyGetNotification cfg).urgency = urgencyShown cfg := by
  unfold urgencyShown
  split_ifs with hknown
  · exact keyAtOrUnknown_keyFind hknown 1
  · have hnone := keyFind_none hknown
    simp only [muslimtifyGetNotification, hnone]
    rfl

/-- The JSON of the notification settings is an object of the grammar and is read back as what is
configured: the sound mode, the urgency, and for each prayer the flags and all reminders. An
urgency that is no word of the enumeration is shown as the normal one. -/
theorem notification_json_read {cfg : Config} (hc : cfg.InRange) :
    let json := displayNotificationSettingsJson (muslimtifyGetNotification cfg)
    (∃ doc : Document, doc.depth ≤ 100 ∧ json = doc.text) ∧
    readNotification json = some
      { sound := cfg.notificationSound.text
        urgency := if cfg.notificationUrgency.text ∈ urgencyKeys then cfg.notificationUrgency.text
          else ascii "normal"
        prayers := prayerTypes.map fun type =>
          { enabled := (prayerGetConfig cfg type).enabled
            reminders := (prayerGetConfig cfg type).reminders
            adhan := (prayerGetConfig cfg type).adhanEnabled } } := by
  intro json
  have htext := displayNotificationSettingsJson_text (muslimtifyGetNotification cfg)
  have hdepth := notificationDocument_depth (muslimtifyGetNotification cfg)
  refine ⟨⟨_, hdepth, htext⟩, ?_⟩
  have hword : ∀ key, PlainName key → ∀ s, PlainText s →
      (notificationMembers (muslimtifyGetNotification cfg)).lookup key = some (ofText s) →
      readPath [key] json = some s := by
    intro key hk s hs hv
    rw [show json = _ from htext, readPath_member (notificationMembers_plain _) hdepth hk hv,
      handed_ofText hs]
  have hsound := hword "sound" (by decide) _ (keyAtOrUnknown_plain (by decide) _) rfl
  have hurgency := hword "urgency" (by decide) _ (keyAtOrUnknown_plain (by decide) _) rfl
  have hreminders : ∀ type, ((muslimtifyGetNotification cfg).prayers type).reminders =
      (prayerGetConfig cfg type).reminders := by
    intro type
    ext1
    exact getNotification_reminders cfg type
  have hprayer : ∀ type, readSettings json type = some
      ⟨(prayerGetConfig cfg type).enabled, (prayerGetConfig cfg type).reminders,
        (prayerGetConfig cfg type).adhanEnabled⟩ := by
    intro type
    have hrange := (hc.prayers type).reminders
    rw [← hreminders type] at hrange ⊢
    exact readSettings_text hrange
  have hshown := getNotification_sound hc
  have hlevel := getNotification_urgency cfg
  rw [muslimtifySoundModeKey] at hshown
  rw [muslimtifyUrgencyKey, urgencyShown] at hlevel
  rw [hshown] at hsound
  rw [hlevel] at hurgency
  simp only [readNotification, hsound, hurgency, prayerTypes, List.mapM_cons, List.mapM_nil, hprayer,
    Option.bind_eq_bind, Option.bind_some]
  rfl

theorem notification_json_read_north :
    (readNotification (displayNotificationSettingsJson (muslimtifyGetNotification farNorth))).map
      (·.urgency) = some farNorth.notificationUrgency.text := by
  rw [(notification_json_read farNorth_inRange).2]
  decide +kernel

end Notification

end Muslimtify.SettingsDisplay
