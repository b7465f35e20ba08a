import Muslimtify.ConfigFile
import Muslimtify.JsonWriter

/-!
# Writing the configuration file

`write_json_file` prints five sections, one member a line. Loading what was
written for a configuration in range gives it back with its coordinates and its
offset rounded to six decimals. The angles are written for the custom method
only, so with any other method they come back as zero.
-/
namespace Muslimtify.ConfigRoundTrip
open CText CDouble JsonReader JsonDocument JsonWriter Settings ConfigFile

section Writer

def locationMembers (cfg : Config) : List Member :=
  [line 4 "latitude" (fixedValue 6 cfg.latitude),
    line 4 "longitude" (fixedValue 6 cfg.longitude),
    line 4 "timezone" (stringValue cfg.timezone.text),
    line 4 "timezone_offset" (fixedValue 6 cfg.timezoneOffset),
    line 4 "auto_detect" (boolValue cfg.autoDetect),
    line 4 "use_gps" (boolValue cfg.useGps),
    line 4 "updated_at" (intValue cfg.updatedAt),
    line 4 "refresh_interval" (intValue cfg.refreshInterval),
    line 4 "city" (stringValue cfg.city.text),
    lastLine 4 "country" (stringValue cfg.country.text)]

/-- The reminders with `", "` between them. -/
def reminderText : List ℤ → CString
  | [] => []
  | [r] => formatInt r
  | r :: rs => formatInt r ++ comma :: 0x20 :: reminderText rs

def prayerMembers (p : PrayerConfig) : List Member :=
  [line 6 "enabled" (boolValue p.enabled),
    line 6 "adhan" (stringValue p.adhan.text),
    line 6 "adhan_enabled" (boolValue p.adhanEnabled),
    line 6 "reminders" (.array (reminderText p.reminders.items)),
    lastLine 6 "offset" (intValue p.offset)]

def prayersMembers (cfg : Config) : List Member :=
  [line 4 "fajr" (objectValue (prayerMembers cfg.fajr)),
    line 4 "dhuhr" (objectValue (prayerMembers cfg.dhuhr)),
    line 4 "asr" (objectValue (prayerMembers cfg.asr)),
    line 4 "maghrib" (objectValue (prayerMembers cfg.maghrib)),
    lastLine 4 "isha" (objectValue (prayerMembers cfg.isha))]

def notificationMembers (cfg : Config) : List Member :=
  [line 4 "timeout" (intValue cfg.notificationTimeout),
    line 4 "urgency" (stringValue cfg.notificationUrgency.text),
    line 4 "sound" (stringValue cfg.notificationSound.text),
    line 4 "sound_alarm" (stringValue cfg.notificationSoundAlarm.text),
    line 4 "sound_reminder" (stringValue cfg.notificationSoundReminder.text),
    lastLine 4 "icon" (stringValue cfg.notificationIcon.text)]

/-- `strcmp(cfg->calculation_method, "custom") == 0` -/
def isCustom (cfg : Config) : Bool := cfg.calculationMethod.text = ascii "custom"

def calculationMembers (cfg : Config) : List Member :=
  if isCustom cfg then
    [line 4 "method" (stringValue cfg.calculationMethod.text),
      line 4 "madhab" (stringValue cfg.madhab.text),
      line 4 "fajr_angle" (fixedValue 6 cfg.fajrAngle),
      lastLine 4 "isha_angle" (fixedValue 6 cfg.ishaAngle)]
  else
    [line 4 "method" (stringValue cfg.calculationMethod.text),
      lastLine 4 "madhab" (stringValue cfg.madhab.text)]

def displayMembers (cfg : Config) : List Member :=
  [lastLine 4 "time_format" (intValue cfg.timeFormat)]

def configMembers (cfg : Config) : List Member :=
  [line 2 "location" (objectValue (locationMembers cfg)),
    line 2 "prayers" (objectValue (prayersMembers cfg)),
    line 2 "notification" (objectValue (notificationMembers cfg)),
    line 2 "calculation" (objectValue (calculationMembers cfg)),
    lastLine 2 "display" (objectValue (displayMembers cfg))]

/-- What `write_json_file` prints. -/
def configText (cfg : Config) : CString := objectText (configMembers cfg) ++ [0x0a]

end Writer

section Written

theorem locationMembers_written (cfg : Config) (n : ℕ) : ∀ m ∈ locationMembers cfg, WrittenMember n m := by
  simp only [locationMembers, List.forall_mem_cons]
  exact ⟨line_written (by decide) (fixedValue_written _ _ _) _,
    line_written (by decide) (fixedValue_written _ _ _) _,
    line_written (by decide) (stringValue_written _ _) _,
    line_written (by decide) (fixedValue_written _ _ _) _,
    line_written (by decide) (boolValue_written _ _) _,
    line_written (by decide) (boolValue_written _ _) _,
    line_written (by decide) (intValue_written _ _) _,
    line_written (by decide) (intValue_written _ _) _,
    line_written (by decide) (stringValue_written _ _) _,
    lastLine_written (by decide) (stringValue_written _ _) _, fun _ h => by cases h⟩

private theorem isPlain_of_digit : ∀ c : UInt8, isDigit c = true → isPlain c = true :=
  forall_byte (by decide +kernel)

theorem formatInt_nested (z : ℤ) (n : ℕ) : Nested n (formatInt z) := by
  have hd : Nested n (decimal z.natAbs) :=
    nested_of_plain (fun c hc => isPlain_of_digit c (decimal_isDigit _ c hc)) n
  unfold formatInt
  split_ifs
  · exact .plain (by decide) hd
  · exact hd

theorem reminderText_nested (rs : List ℤ) (n : ℕ) : Nested n (reminderText rs) := by
  induction rs with
  | nil => exact .nil
  | cons r rs ih =>
      cases rs with
      | nil => exact formatInt_nested r n
      | cons u us =>
          exact (formatInt_nested r n).append (.plain (by decide) (.plain (by decide) ih))

theorem reminderText_written (rs : List ℤ) (n : ℕ) : Written n (.array (reminderText rs)) := by
  refine ⟨reminderText_nested rs n, ?_⟩
  have h : NulFree (reminderText rs) := by
    induction rs with
    | nil => exact nulFree_nil
    | cons r rs ih =>
        cases rs with
        | nil => exact formatInt_nulFree r
        | cons u us =>
            simp only [reminderText, nulFree_append, nulFree_cons]
            exact ⟨formatInt_nulFree r, by decide, by decide, ih⟩
  simp only [Value.text, nulFree_cons, nulFree_append]
  exact ⟨by decide, h, by decide, nulFree_nil⟩

theorem prayerMembers_written (p : PrayerConfig) (n : ℕ) : ∀ m ∈ prayerMembers p, WrittenMember n m := by
  simp only [prayerMembers, List.forall_mem_cons]
  exact ⟨line_written (by decide) (boolValue_written _ _) _,
    line_written (by decide) (stringValue_written _ _) _,
    line_written (by decide) (boolValue_written _ _) _,
    line_written (by decide) (reminderText_written _ _) _,
    lastLine_written (by decide) (intValue_written _ _) _, fun _ h => by cases h⟩

theorem prayersMembers_written (cfg : Config) : ∀ m ∈ prayersMembers cfg, WrittenMember 1 m := by
  have hv : ∀ p, Written 1 (objectValue (prayerMembers p)) :=
    fun p => objectValue_written (prayerMembers_written p 0)
  simp only [prayersMembers, List.forall_mem_cons]
  exact ⟨line_written (by decide) (hv _) _, line_written (by decide) (hv _) _,
    line_written (by decide) (hv _) _, line_written (by decide) (hv _) _,
    lastLine_written (by decide) (hv _) _, fun _ h => by cases h⟩

theorem notificationMembers_written (cfg : Config) (n : ℕ) :
    ∀ m ∈ notificationMembers cfg, WrittenMember n m := by
  simp only [notificationMembers, List.forall_mem_cons]
  exact ⟨line_written (by decide) (intValue_written _ _) _,
    line_written (by decide) (stringValue_written _ _) _,
    line_written (by decide) (stringValue_written _ _) _,
    line_written (by decide) (stringValue_written _ _) _,
    line_written (by decide) (stringValue_written _ _) _,
    lastLine_written (by decide) (stringValue_written _ _) _, fun _ h => by cases h⟩

theorem calculationMembers_written (cfg : Config) (n : ℕ) :
    ∀ m ∈ calculationMembers cfg, WrittenMember n m := by
  unfold calculationMembers
  split_ifs
  · simp only [List.forall_mem_cons]
    exact ⟨line_written (by decide) (stringValue_written _ _) _,
      line_written (by decide) (stringValue_written _ _) _,
      line_written (by decide) (fixedValue_written _ _ _) _,
      lastLine_written (by decide) (fixedValue_written _ _ _) _, fun _ h => by cases h⟩
  · simp only [List.forall_mem_cons]
    exact ⟨line_written (by decide) (stringValue_written _ _) _,
      lastLine_written (by decide) (stringValue_written _ _) _, fun _ h => by cases h⟩

theorem displayMembers_written (cfg : Config) (n : ℕ) : ∀ m ∈ displayMembers cfg, WrittenMember n m := by
  simp only [displayMembers, List.forall_mem_cons]
  exact ⟨lastLine_written (by decide) (intValue_written _ _) _, fun _ h => by cases h⟩

theorem configMembers_written (cfg : Config) : ∀ m ∈ configMembers cfg, WrittenMember 2 m := by
  simp only [configMembers, List.forall_mem_cons]
  exact ⟨line_written (by decide) (objectValue_written (locationMembers_written cfg 1)) _,
    line_written (by decide) (objectValue_written (prayersMembers_written cfg)) _,
    line_written (by decide) (objectValue_written (notificationMembers_written cfg 1)) _,
    line_written (by decide) (objectValue_written (calculationMembers_written cfg 1)) _,
    lastLine_written (by decide) (objectValue_written (displayMembers_written cfg 1)) _,
    fun _ h => by cases h⟩

end Written

section Numbers

theorem isTrue_boolText (b : Bool) : isTrue (boolText b) = b := by
  cases b <;> decide

theorem strtol_text {z : ℤ} (hz : longMin ≤ z ∧ z ≤ longMax) : strtol (formatInt z) = z := by
  have := strtol_formatInt hz noDigitHead_nil
  rwa [List.append_nil] at this

private theorem not_separator_of_digit : ∀ c : UInt8, isDigit c = true → isSeparator c = false :=
  forall_byte (by decide +kernel)

/-- A positive number begins with a digit. -/
private theorem formatInt_head {r : ℤ} (hr : 0 < r) :
    ∃ c t, formatInt r = c :: t ∧ isDigit c = true := by
  obtain ⟨c, t, h⟩ := List.exists_cons_of_ne_nil (decimal_ne_nil r.natAbs)
  refine ⟨c, t, ?_, decimal_isDigit r.natAbs c (by simp [h])⟩
  rw [formatInt, if_neg (by omega), h]

/-- The loop takes the numbers of the array one by one. -/
private theorem reminderLoop_text {rs : List ℤ} (hrs : ∀ r ∈ rs, 1 ≤ r ∧ r ≤ 1440) {n : ℕ}
    (hn : rs.length ≤ n) {acc : FixedArray ℤ maxReminders}
    (hroom : acc.items.length + rs.length ≤ maxReminders) {p : CString}
    (hp : p.dropWhile isSeparator = reminderText rs ++ [arrayClose]) :
    reminderLoop n p acc = acc.pushAll rs := by
  induction rs generalizing n acc p with
  | nil =>
      cases n with
      | zero => rfl
      | succ n =>
          rw [reminderLoop, hp]
          split_ifs <;> rfl
  | cons r rs ih =>
      obtain ⟨m, rfl⟩ := Nat.exists_eq_succ_of_ne_zero (show n ≠ 0 by
        simp only [List.length_cons] at hn
        omega)
      simp only [List.length_cons] at hn hroom
      have hr := hrs r (by simp)
      obtain ⟨c, t, hct, hdigit⟩ := formatInt_head (show 0 < r by omega)
      obtain ⟨rest, hrest, hhead, hnext⟩ : ∃ rest,
          reminderText (r :: rs) ++ [arrayClose] = formatInt r ++ rest ∧ NoDigitHead rest ∧
          rest.dropWhile isSeparator = reminderText rs ++ [arrayClose] := by
        cases rs with
        | nil => exact ⟨[arrayClose], rfl, noDigitHead_cons (by decide), by decide⟩
        | cons u us =>
            refine ⟨comma :: 0x20 :: (reminderText (u :: us) ++ [arrayClose]),
              by simp [reminderText], noDigitHead_cons (by decide), ?_⟩
            obtain ⟨d, v, hdv, hd⟩ := formatInt_head (show 0 < u by
              have := hrs u (by simp)
              omega)
            have hsep := not_separator_of_digit d hd
            have hstart : ∃ w, reminderText (u :: us) ++ [arrayClose] = d :: w := by
              cases us <;> exact ⟨_, by simp only [reminderText, hdv, List.cons_append]; rfl⟩
            obtain ⟨w, hw⟩ := hstart
            simp [hw, hsep, show isSeparator comma = true by decide,
              show isSeparator 0x20 = true by decide]
      have hnum := strtolEnd_formatInt (z := r) (by simp only [longMin, longMax]; omega) hhead
      have hlen : (acc.push r).items.length = acc.items.length + 1 := by
        rw [FixedArray.push_items, List.length_append, List.take_of_length_le (by simp; omega)]
        rfl
      rw [hct] at hnum
      rw [reminderLoop, if_pos (by omega), hp, hrest, hct]
      simp only [List.cons_append, hdigit, if_true]
      rw [List.cons_append] at hnum
      rw [hnum, if_pos (by omega)]
      exact ih (fun u hu => hrs u (by simp [hu])) (by omega) (by rw [hlen]; omega) hnext

theorem parseReminders_text {a : FixedArray ℤ maxReminders}
    (ha : ∀ r ∈ a.items, 1 ≤ r ∧ r ≤ 1440) (old : FixedArray ℤ maxReminders) :
    parseReminders old (arrayOpen :: (reminderText a.items ++ [arrayClose])) = a := by
  have hdrop : (reminderText a.items ++ [arrayClose]).dropWhile isSeparator =
      reminderText a.items ++ [arrayClose] := by
    cases h : a.items with
    | nil => decide
    | cons r rs =>
        obtain ⟨c, t, hct, hd⟩ := formatInt_head (show 0 < r by
          have := ha r (by simp [h])
          omega)
        have hstart : ∃ w, reminderText (r :: rs) ++ [arrayClose] = c :: w := by
          cases rs <;> exact ⟨_, by simp only [reminderText, hct, List.cons_append]; rfl⟩
        obtain ⟨w, hw⟩ := hstart
        simp [hw, not_separator_of_digit c hd]
  have hcount : ∀ rs : List ℤ, (∀ r ∈ rs, 1 ≤ r ∧ r ≤ 1440) →
      rs.length ≤ (reminderText rs).length := by
    intro rs hrs
    induction rs with
    | nil => rfl
    | cons r rs ih =>
        have ih := ih fun u hu => hrs u (by simp [hu])
        obtain ⟨c, t, hct, -⟩ := formatInt_head (show 0 < r by
          have := hrs r (by simp)
          omega)
        cases rs with
        | nil => simp [reminderText, hct]
        | cons u us =>
            simp only [reminderText, hct, List.length_append, List.length_cons] at ih ⊢
            omega
  have hlen := hcount a.items ha
  rw [parseReminders, if_pos rfl, reminderLoop_text ha (by rw [List.length_append]; omega)
    (by simpa using a.fits) hdrop]
  ext1
  rw [FixedArray.pushAll_empty, List.take_of_length_le a.fits]

end Numbers

section Sections

private theorem field_some {ms : List Member} {n : ℕ} (h : ∀ m ∈ ms, WrittenMember n m)
    (hn : n ≤ 98) {key : String} {s : CString} (hl : lookup (ascii key) ms = some s) {α : Type}
    (old : α) (read : CString → α) : field key (objectText ms) old read = read s := by
  have hget := getValue_object (fun m hm => (h m hm).valid.mono hn) (ascii key) blank_nil blank_nil
  simp only [List.nil_append, List.append_nil, hl] at hget
  rw [field, hget]

private theorem field_none {ms : List Member} {n : ℕ} (h : ∀ m ∈ ms, WrittenMember n m)
    (hn : n ≤ 98) {key : String} (hl : lookup (ascii key) ms = none) {α : Type} (old : α)
    (read : CString → α) : field key (objectText ms) old read = old := by
  have hget := getValue_object (fun m hm => (h m hm).valid.mono hn) (ascii key) blank_nil blank_nil
  simp only [List.nil_append, List.append_nil, hl] at hget
  rw [field, hget]

theorem parseLocation_text {cfg : Config} (hc : cfg.InRange) (old : Config) :
    parseLocation (objectText (locationMembers cfg)) old =
      { old with
        latitude := cfg.latitude.rounded 6
        longitude := cfg.longitude.rounded 6
        timezone := cfg.timezone
        timezoneOffset := cfg.timezoneOffset.rounded 6
        autoDetect := cfg.autoDetect
        useGps := cfg.useGps
        city := cfg.city
        country := cfg.country
        updatedAt := cfg.updatedAt
        refreshInterval := cfg.refreshInterval } := by
  have hw := locationMembers_written cfg 0
  have hgps : (if !cfg.autoDetect then false else cfg.useGps) = cfg.useGps := by
    cases h : cfg.autoDetect
    · rw [hc.gps h]
      rfl
    · rfl
  have hfloor : refreshFloor cfg.refreshInterval = cfg.refreshInterval := if_neg hc.refreshFloor
  simp only [parseLocation,
    field_some hw (by decide) (show lookup (ascii "latitude") _ =
      some (formatFixed 6 cfg.latitude) from rfl),
    field_some hw (by decide) (show lookup (ascii "longitude") _ =
      some (formatFixed 6 cfg.longitude) from rfl),
    field_some hw (by decide) (show lookup (ascii "timezone") _ =
      some (stringValue cfg.timezone.text).result from rfl),
    field_some hw (by decide) (show lookup (ascii "timezone_offset") _ =
      some (formatFixed 6 cfg.timezoneOffset) from rfl),
    field_some hw (by decide) (show lookup (ascii "auto_detect") _ =
      some (boolText cfg.autoDetect) from rfl),
    field_some hw (by decide) (show lookup (ascii "use_gps") _ =
      some (boolText cfg.useGps) from rfl),
    field_some hw (by decide) (show lookup (ascii "updated_at") _ =
      some (formatInt cfg.updatedAt) from rfl),
    field_some hw (by decide) (show lookup (ascii "refresh_interval") _ =
      some (formatInt cfg.refreshInterval) from rfl),
    field_some hw (by decide) (show lookup (ascii "city") _ =
      some (stringValue cfg.city.text).result from rfl),
    field_some hw (by decide) (show lookup (ascii "country") _ =
      some (stringValue cfg.country.text).result from rfl),
    strtod_format (k := 6) (by decide), stringValue_result, copyString_text, isTrue_boolText,
    strtol_text hc.updatedAt, strtol_text hc.refreshInterval, hgps, hfloor]

theorem parsePrayerConfig_text {p : PrayerConfig} (hp : p.InRange) (old : PrayerConfig) :
    parsePrayerConfig (objectText (prayerMembers p)) old = p := by
  have hw := prayerMembers_written p 0
  have hoffset : longMin ≤ p.offset ∧ p.offset ≤ longMax := by
    have := hp.offset
    simp only [prayerOffsetMin, prayerOffsetMax] at this
    simp only [longMin, longMax]
    omega
  simp only [parsePrayerConfig,
    field_some hw (by decide) (show lookup (ascii "enabled") _ =
      some (boolText p.enabled) from rfl),
    field_some hw (by decide) (show lookup (ascii "adhan") _ =
      some (stringValue p.adhan.text).result from rfl),
    field_some hw (by decide) (show lookup (ascii "adhan_enabled") _ =
      some (boolText p.adhanEnabled) from rfl),
    field_some hw (by decide) (show lookup (ascii "reminders") _ =
      some (arrayOpen :: (reminderText p.reminders.items ++ [arrayClose])) from rfl),
    field_some hw (by decide) (show lookup (ascii "offset") _ =
      some (formatInt p.offset) from rfl),
    stringValue_result, copyString_text, isTrue_boolText, parseReminders_text hp.reminders,
    strtol_text hoffset, clamp_of_range hp.offset]

theorem parsePrayers_text {cfg : Config} (hc : cfg.InRange) (old : Config) :
    parsePrayers (objectText (prayersMembers cfg)) old =
      { old with
        fajr := cfg.fajr
        dhuhr := cfg.dhuhr
        asr := cfg.asr
        maghrib := cfg.maghrib
        isha := cfg.isha } := by
  have hw := prayersMembers_written cfg
  simp only [parsePrayers,
    field_some hw (by decide) (show lookup (ascii "fajr") _ =
      some (objectText (prayerMembers cfg.fajr)) from rfl),
    field_some hw (by decide) (show lookup (ascii "dhuhr") _ =
      some (objectText (prayerMembers cfg.dhuhr)) from rfl),
    field_some hw (by decide) (show lookup (ascii "asr") _ =
      some (objectText (prayerMembers cfg.asr)) from rfl),
    field_some hw (by decide) (show lookup (ascii "maghrib") _ =
      some (objectText (prayerMembers cfg.maghrib)) from rfl),
    field_some hw (by decide) (show lookup (ascii "isha") _ =
      some (objectText (prayerMembers cfg.isha)) from rfl),
    parsePrayerConfig_text (p := cfg.fajr) (hc.prayers .fajr),
    parsePrayerConfig_text (p := cfg.dhuhr) (hc.prayers .dhuhr),
    parsePrayerConfig_text (p := cfg.asr) (hc.prayers .asr),
    parsePrayerConfig_text (p := cfg.maghrib) (hc.prayers .maghrib),
    parsePrayerConfig_text (p := cfg.isha) (hc.prayers .isha)]

theorem soundMode_of_mem {s : CString} (h : s ∈ soundModes) : soundMode s = s := by
  simp only [soundModes, List.mem_cons, List.not_mem_nil, or_false] at h
  rcases h with rfl | rfl | rfl <;> decide

theorem parseNotification_text {cfg : Config} (hc : cfg.InRange) (old : Config) :
    parseNotification (objectText (notificationMembers cfg)) old =
      { old with
        notificationTimeout := cfg.notificationTimeout
        notificationUrgency := cfg.notificationUrgency
        notificationSound := cfg.notificationSound
        notificationSoundAlarm := cfg.notificationSoundAlarm
        notificationSoundReminder := cfg.notificationSoundReminder
        notificationIcon := cfg.notificationIcon } := by
  have hw := notificationMembers_written cfg 0
  have htimeout : longMin ≤ cfg.notificationTimeout ∧ cfg.notificationTimeout ≤ longMax := by
    have := hc.timeout
    simp only [longMin, longMax]
    omega
  simp only [parseNotification,
    field_some hw (by decide) (show lookup (ascii "timeout") _ =
      some (formatInt cfg.notificationTimeout) from rfl),
    field_some hw (by decide) (show lookup (ascii "urgency") _ =
      some (stringValue cfg.notificationUrgency.text).result from rfl),
    field_some hw (by decide) (show lookup (ascii "sound") _ =
      some (stringValue cfg.notificationSound.text).result from rfl),
    field_some hw (by decide) (show lookup (ascii "sound_alarm") _ =
      some (stringValue cfg.notificationSoundAlarm.text).result from rfl),
    field_some hw (by decide) (show lookup (ascii "sound_reminder") _ =
      some (stringValue cfg.notificationSoundReminder.text).result from rfl),
    field_some hw (by decide) (show lookup (ascii "icon") _ =
      some (stringValue cfg.notificationIcon.text).result from rfl),
    stringValue_result, copyString_text, strtol_text htimeout,
    (clamp_of_range hc.timeout : clamp intMin intMax _ = _), soundMode_of_mem hc.sound]

/-- The angle a saved configuration has once it is loaded again. -/
def storedAngle (cfg : Config) (angle old : Double) : Double :=
  if isCustom cfg then angle.rounded 6 else old

theorem parseCalculation_text (cfg old : Config) :
    parseCalculation (objectText (calculationMembers cfg)) old =
      { old with
        calculationMethod := cfg.calculationMethod
        madhab := cfg.madhab
        fajrAngle := storedAngle cfg cfg.fajrAngle old.fajrAngle
        ishaAngle := storedAngle cfg cfg.ishaAngle old.ishaAngle } := by
  have hw := calculationMembers_written cfg 0
  have hmethod : lookup (ascii "method") (calculationMembers cfg) =
      some (stringValue cfg.calculationMethod.text).result := by
    unfold calculationMembers
    split_ifs <;> rfl
  have hmadhab : lookup (ascii "madhab") (calculationMembers cfg) =
      some (stringValue cfg.madhab.text).result := by
    unfold calculationMembers
    split_ifs <;> rfl
  by_cases h : isCustom cfg = true
  · have hfajr : lookup (ascii "fajr_angle") (calculationMembers cfg) =
        some (formatFixed 6 cfg.fajrAngle) := by
      rw [calculationMembers, if_pos h]
      rfl
    have hisha : lookup (ascii "isha_angle") (calculationMembers cfg) =
        some (formatFixed 6 cfg.ishaAngle) := by
      rw [calculationMembers, if_pos h]
      rfl
    simp only [parseCalculation, field_some hw (by decide) hmethod,
      field_some hw (by decide) hmadhab, field_some hw (by decide) hfajr,
      field_some hw (by decide) hisha, stringValue_result, copyString_text,
      strtod_format (k := 6) (by decide), storedAngle, h, if_true]
  · have hfajr : lookup (ascii "fajr_angle") (calculationMembers cfg) = none := by
      rw [calculationMembers, if_neg h]
      rfl
    have hisha : lookup (ascii "isha_angle") (calculationMembers cfg) = none := by
      rw [calculationMembers, if_neg h]
      rfl
    simp only [parseCalculation, field_some hw (by decide) hmethod,
      field_some hw (by decide) hmadhab, field_none hw (by decide) hfajr,
      field_none hw (by decide) hisha, stringValue_result, copyString_text, storedAngle, h]
    rfl

theorem parseDisplay_text {cfg : Config} (hc : cfg.InRange) (old : Config) :
    parseDisplay (objectText (displayMembers cfg)) old = { old with timeFormat := cfg.timeFormat } := by
  have hw := displayMembers_written cfg 0
  have hformat : (if strtol (formatInt cfg.timeFormat) = 12 then (12 : ℤ) else 24) =
      cfg.timeFormat := by
    rw [strtol_text (by rcases hc.timeFormat with h | h <;> rw [h] <;> decide)]
    rcases hc.timeFormat with h | h <;> rw [h] <;> decide
  simp only [parseDisplay, field_some hw (by decide) (show lookup (ascii "time_format") _ =
    some (formatInt cfg.timeFormat) from rfl), hformat]

end Sections

section Document

/-- A configuration as it comes back from the file. -/
def storedConfig (cfg : Config) : Config :=
  { cfg with
    latitude := cfg.latitude.rounded 6
    longitude := cfg.longitude.rounded 6
    timezoneOffset := cfg.timezoneOffset.rounded 6
    fajrAngle := storedAngle cfg cfg.fajrAngle .zero
    ishaAngle := storedAngle cfg cfg.ishaAngle .zero }

private theorem parseSection_text {cfg : Config} {key : String} {ms : List Member}
    (hl : lookup (ascii key) (configMembers cfg) = some (objectText ms))
    (parse : CString → Config → Config) (old : Config) :
    parseSection key parse (configText cfg) old = parse (objectText ms) old := by
  have htail : Blank [0x0a] := fun c h => by
    rw [List.mem_singleton.mp h]
    rfl
  have hget := getValue_object (fun m hm => ((configMembers_written cfg) m hm).valid.mono
    (by decide)) (ascii key) blank_nil htail
  simp only [List.nil_append, hl] at hget
  rw [parseSection, field, configText, hget]

theorem parseConfig_text {cfg : Config} (hc : cfg.InRange) :
    parseConfig (configText cfg) = storedConfig cfg := by
  simp only [parseConfig,
    parseSection_text (show lookup (ascii "location") _ =
      some (objectText (locationMembers cfg)) from rfl),
    parseSection_text (show lookup (ascii "prayers") _ =
      some (objectText (prayersMembers cfg)) from rfl),
    parseSection_text (show lookup (ascii "notification") _ =
      some (objectText (notificationMembers cfg)) from rfl),
    parseSection_text (show lookup (ascii "calculation") _ =
      some (objectText (calculationMembers cfg)) from rfl),
    parseSection_text (show lookup (ascii "display") _ =
      some (objectText (displayMembers cfg)) from rfl),
    parseLocation_text hc, parsePrayers_text hc, parseNotification_text hc,
    parseCalculation_text, parseDisplay_text hc]
  rfl

theorem isDocument_text (cfg : Config) : isDocument (configText cfg) = true := by
  have hnested := nested_members fun m hm => ((configMembers_written cfg) m hm).valid
  have hmatch := findMatchingBracket_nested (Or.inl ⟨rfl, rfl⟩ : IsPair objectOpen objectClose)
    hnested (by decide) [0x0a]
  have hskip : skipWhitespace (configText cfg) =
      objectOpen :: (membersText (configMembers cfg) ++ objectClose :: [0x0a]) := by
    simp only [configText, objectText, List.cons_append, List.append_assoc, List.nil_append]
    exact skipWhitespace_of_head (by decide) _
  rw [isDocument, hskip, hmatch]
  rfl

theorem configText_nulFree (cfg : Config) : NulFree (configText cfg) := by
  have h := objectValue_nulFree fun m hm => ((configMembers_written cfg) m hm).nulFree
  simp only [configText, nulFree_append, nulFree_cons]
  exact ⟨h, by decide, nulFree_nil⟩

end Document

section Size

theorem reminderText_length {rs : List ℤ} (h : ∀ r ∈ rs, 1 ≤ r ∧ r ≤ 1440) :
    (reminderText rs).length ≤ 22 * rs.length := by
  have hone : ∀ r : ℤ, 1 ≤ r ∧ r ≤ 1440 → (formatInt r).length ≤ 20 := fun r hr =>
    formatInt_length (by simp only [longMin, longMax]; omega)
  induction rs with
  | nil => rfl
  | cons r rs ih =>
      have hr := hone r (h r (by simp))
      have ih := ih fun u hu => h u (by simp [hu])
      cases rs with
      | nil =>
          simp only [reminderText, List.length_cons, List.length_nil]
          omega
      | cons u us =>
          simp only [reminderText, List.length_append, List.length_cons] at ih ⊢
          omega

private theorem objectValue_length (ms : List Member) :
    (objectValue ms).text.length = (membersText ms).length + 2 := by
  simp [objectValue, Value.text]

private theorem array_length (body : CString) :
    (Value.array body).text.length = body.length + 2 := by
  simp [Value.text]

theorem prayerMembers_length {p : PrayerConfig} (hp : p.InRange) :
    (membersText (prayerMembers p)).length ≤ 4000 := by
  have h₁ := boolValue_length p.enabled
  have h₂ := stringValue_length p.adhan
  have h₃ := boolValue_length p.adhanEnabled
  have h₄ := reminderText_length hp.reminders
  have h₅ := intValue_length (z := p.offset) (by
    have := hp.offset
    simp only [prayerOffsetMin, prayerOffsetMax] at this
    simp only [longMin, longMax]
    omega)
  have h₆ := p.reminders.fits
  have hmax : maxReminders = 10 := rfl
  have k₁ : (ascii "enabled").length = 7 := rfl
  have k₂ : (ascii "adhan").length = 5 := rfl
  have k₃ : (ascii "adhan_enabled").length = 13 := rfl
  have k₄ : (ascii "reminders").length = 9 := rfl
  have k₅ : (ascii "offset").length = 6 := rfl
  simp only [prayerMembers, membersText, List.length_append, List.length_cons, line_length,
    lastLine_length, array_length]
  omega

theorem locationMembers_length {cfg : Config} (hc : cfg.InRange) :
    (membersText (locationMembers cfg)).length ≤ 4000 := by
  have h₁ := fixedValue_length (k := 6) (by decide) cfg.latitude
  have h₂ := fixedValue_length (k := 6) (by decide) cfg.longitude
  have h₃ := stringValue_length cfg.timezone
  have h₄ := fixedValue_length (k := 6) (by decide) cfg.timezoneOffset
  have h₅ := boolValue_length cfg.autoDetect
  have h₆ := boolValue_length cfg.useGps
  have h₇ := intValue_length hc.updatedAt
  have h₈ := intValue_length hc.refreshInterval
  have h₉ := stringValue_length cfg.city
  have h₀ := stringValue_length cfg.country
  have k₁ : (ascii "latitude").length = 8 := rfl
  have k₂ : (ascii "longitude").length = 9 := rfl
  have k₃ : (ascii "timezone").length = 8 := rfl
  have k₄ : (ascii "timezone_offset").length = 15 := rfl
  have k₅ : (ascii "auto_detect").length = 11 := rfl
  have k₆ : (ascii "use_gps").length = 7 := rfl
  have k₇ : (ascii "updated_at").length = 10 := rfl
  have k₈ : (ascii "refresh_interval").length = 16 := rfl
  have k₉ : (ascii "city").length = 4 := rfl
  have k₀ : (ascii "country").length = 7 := rfl
  simp only [locationMembers, membersText, List.length_append, List.length_cons, line_length,
    lastLine_length]
  omega

theorem prayersMembers_length {cfg : Config} (hc : cfg.InRange) :
    (membersText (prayersMembers cfg)).length ≤ 21000 := by
  have h₁ := prayerMembers_length (p := cfg.fajr) (hc.prayers .fajr)
  have h₂ := prayerMembers_length (p := cfg.dhuhr) (hc.prayers .dhuhr)
  have h₃ := prayerMembers_length (p := cfg.asr) (hc.prayers .asr)
  have h₄ := prayerMembers_length (p := cfg.maghrib) (hc.prayers .maghrib)
  have h₅ := prayerMembers_length (p := cfg.isha) (hc.prayers .isha)
  have k₁ : (ascii "fajr").length = 4 := rfl
  have k₂ : (ascii "dhuhr").length = 5 := rfl
  have k₃ : (ascii "asr").length = 3 := rfl
  have k₄ : (ascii "maghrib").length = 7 := rfl
  have k₅ : (ascii "isha").length = 4 := rfl
  simp only [prayersMembers, membersText, List.length_append, List.length_cons, line_length,
    lastLine_length, objectValue_length]
  omega

theorem notificationMembers_length {cfg : Config} (hc : cfg.InRange) :
    (membersText (notificationMembers cfg)).length ≤ 2000 := by
  have h₁ := intValue_length (z := cfg.notificationTimeout) (by
    have := hc.timeout
    simp only [longMin, longMax]
    omega)
  have h₂ := stringValue_length cfg.notificationUrgency
  have h₃ := stringValue_length cfg.notificationSound
  have h₄ := stringValue_length cfg.notificationSoundAlarm
  have h₅ := stringValue_length cfg.notificationSoundReminder
  have h₆ := stringValue_length cfg.notificationIcon
  have k₁ : (ascii "timeout").length = 7 := rfl
  have k₂ : (ascii "urgency").length = 7 := rfl
  have k₃ : (ascii "sound").length = 5 := rfl
  have k₄ : (ascii "sound_alarm").length = 11 := rfl
  have k₅ : (ascii "sound_reminder").length = 14 := rfl
  have k₆ : (ascii "icon").length = 4 := rfl
  simp only [notificationMembers, membersText, List.length_append, List.length_cons, line_length,
    lastLine_length]
  omega

theorem calculationMembers_length (cfg : Config) :
    (membersText (calculationMembers cfg)).length ≤ 2000 := by
  have h₁ := stringValue_length cfg.calculationMethod
  have h₂ := stringValue_length cfg.madhab
  have h₃ := fixedValue_length (k := 6) (by decide) cfg.fajrAngle
  have h₄ := fixedValue_length (k := 6) (by decide) cfg.ishaAngle
  have k₁ : (ascii "method").length = 6 := rfl
  have k₂ : (ascii "madhab").length = 6 := rfl
  have k₃ : (ascii "fajr_angle").length = 10 := rfl
  have k₄ : (ascii "isha_angle").length = 10 := rfl
  unfold calculationMembers
  split_ifs <;>
    · simp only [membersText, List.length_append, List.length_cons, line_length, lastLine_length]
      omega

theorem configText_length {cfg : Config} (hc : cfg.InRange) :
    (configText cfg).length ≤ maxConfigFileBytes := by
  have h₁ := locationMembers_length hc
  have h₂ := prayersMembers_length hc
  have h₃ := notificationMembers_length hc
  have h₄ := calculationMembers_length cfg
  have h₅ : (membersText (displayMembers cfg)).length ≤ 100 := by
    have h := intValue_length (z := cfg.timeFormat) (by
      rcases hc.timeFormat with h | h <;> rw [h] <;> decide)
    have k : (ascii "time_format").length = 11 := rfl
    simp only [displayMembers, membersText, lastLine_length]
    omega
  have k₁ : (ascii "location").length = 8 := rfl
  have k₂ : (ascii "prayers").length = 7 := rfl
  have k₃ : (ascii "notification").length = 12 := rfl
  have k₄ : (ascii "calculation").length = 11 := rfl
  have k₅ : (ascii "display").length = 7 := rfl
  simp only [configText, objectText, configMembers, membersText, List.length_append,
    List.length_cons, List.length_nil, line_length, lastLine_length, objectValue_length,
    maxConfigFileBytes]
  omega

end Size

section Stored

/-- What is written for a configuration in range loads. -/
theorem configLoad_configText {cfg : Config} (hc : cfg.InRange) :
    configLoad (some (configText cfg)) true = some (storedConfig cfg) := by
  have hread : readFile maxConfigFileBytes (configText cfg) = some (configText cfg) := by
    rw [readFile, if_neg (Nat.not_lt.mpr (configText_length hc)),
      terminated_eq (configText_nulFree cfg)]
  simp [configLoad, hread, isDocument_text, parseConfig_text hc]

theorem storedConfig_inRange {cfg : Config} (hc : cfg.InRange) : (storedConfig cfg).InRange :=
  configLoad_inRange (configLoad_configText hc)

theorem storedConfig_idem (cfg : Config) : storedConfig (storedConfig cfg) = storedConfig cfg := by
  have hcustom : isCustom (storedConfig cfg) = isCustom cfg := rfl
  simp only [storedConfig, Double.rounded_idem, storedAngle]
  split_ifs <;> simp_all [isCustom, Double.rounded_idem]

theorem storedConfig_prayers (cfg : Config) (p : PrayerType) :
    prayerGetConfig (storedConfig cfg) p = prayerGetConfig cfg p := by
  cases p <;> rfl

end Stored

end Muslimtify.ConfigRoundTrip
