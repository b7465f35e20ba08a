import Muslimtify.AnnouncedTime
import Muslimtify.ConfigRoundTrip
import Muslimtify.DateRange
import Muslimtify.JsonPrinting

/-!
# What the display prints as JSON

The functions of the display print with a format string for each line. Their
outputs are the texts of trees, whatever the times, the flags and the lists are,
and a reader that looks the members up gets back what was printed: the date, and
for each prayer its minute, the day it falls on, whether it is enabled and all
of its reminders.
-/
namespace Muslimtify.Display
open CText CDouble CivilDays JsonReader JsonDocument JsonGrammar JsonLookup JsonLayout JsonWriter
  JsonPrinting Settings ConfigFile ConfigRoundTrip Schedule Detection PublicTimes Calendar DateRange
  NextPrayer AnnouncedTime TriggerPartition

section Cells

def muslimtifyFormatTime (time : MuslimtifyTime) (timeFormat : ℤ) : CString :=
  if !time.valid then ascii "--:--" else clockFormat time.hour time.minute timeFormat

/-- A time with a mark for the next or the previous day, if `mark` asks for it. -/
def formatCell (t : MuslimtifyTime) (timeFormat : ℤ) (mark : Bool) : CString :=
  let day := if mark then t.dayOffset else 0
  muslimtifyFormatTime t timeFormat ++
    (if 0 < day then ascii "+" else if day < 0 then ascii "-" else [])

def lowerCopy (cap : ℕ) (src : CString) : CString := (src.take (cap - 1)).map toLower

def prayerKey (type : PrayerType) : CString := lowerCopy 16 (prayerGetName type)

end Cells

section Printers
variable (timeFormat : ℤ)

def printReminders : List ℤ → CString
  | [] => []
  | r :: rest => formatInt r ++ ((if rest.isEmpty then [] else ascii ", ") ++ printReminders rest)

/-- The entries of the prayers that are left to print. -/
def printPrayerEntries (day : MuslimtifyDay) (pad : CString) : List PrayerType → CString
  | [] => []
  | type :: rest =>
      let p := day.prayers type
      pad ++ (ascii "\"" ++ (prayerKey type ++ (ascii "\": \x7b\n" ++
      (pad ++ (ascii "  \"time\": \"" ++ (formatCell p.time timeFormat false ++ (ascii "\",\n" ++
      (pad ++ (ascii "  \"offset\": " ++ (formatInt p.time.dayOffset ++ (ascii ",\n" ++
      (pad ++ (ascii "  \"enabled\": " ++ (boolText p.enabled ++ (ascii ",\n" ++
      (pad ++ (ascii "  \"reminders\": [" ++ (printReminders p.reminders.items ++ (ascii "]\n" ++
      (pad ++ (ascii "\x7d" ++ ((if rest.isEmpty then [] else ascii ",") ++ (ascii "\n" ++
      printPrayerEntries day pad rest)))))))))))))))))))))))

def displayDayJson (day : MuslimtifyDay) : CString :=
  ascii "\x7b\n" ++ (ascii "  \"date\": \"" ++ (dateText day.date ++ (ascii "\",\n" ++
  (ascii "  \"prayers\": \x7b\n" ++
  (printPrayerEntries timeFormat day (ascii "    ") prayerTypes ++
  (ascii "  \x7d\n" ++ ascii "\x7d\n"))))))

/-- The days of a range that are left to print. -/
def printRangeDays : List MuslimtifyDay → CString
  | [] => []
  | day :: rest =>
      ascii "  \x7b\n" ++ (ascii "    \"date\": \"" ++ (dateText day.date ++ (ascii "\",\n" ++
      (ascii "    \"prayers\": \x7b\n" ++
      (printPrayerEntries timeFormat day (ascii "      ") prayerTypes ++
      (ascii "    \x7d\n" ++ (ascii "  \x7d" ++
      ((if rest.isEmpty then [] else ascii ",") ++ (ascii "\n" ++ printRangeDays rest)))))))))

def displayRangeJson (days : List MuslimtifyDay) : CString :=
  ascii "[\n" ++ (printRangeDays timeFormat days ++ ascii "]\n")

end Printers

section Trees
variable (timeFormat : ℤ)

def prayerWord : PrayerType → String
  | .fajr => "fajr"
  | .dhuhr => "dhuhr"
  | .asr => "asr"
  | .maghrib => "maghrib"
  | .isha => "isha"

theorem prayerKey_word (type : PrayerType) : prayerKey type = ascii (prayerWord type) := by
  cases type <;> decide

def prayerMembers (p : MuslimtifyPrayer) : Named :=
  [("time", ofText (formatCell p.time timeFormat false)), ("offset", ofInt p.time.dayOffset),
    ("enabled", ofBool p.enabled), ("reminders", arrayList (p.reminders.items.map ofInt))]

def prayersMembers (n : ℕ) (day : MuslimtifyDay) (types : List PrayerType) : Named :=
  types.map fun type =>
    (prayerWord type, objectLines n (prayerMembers timeFormat (day.prayers type)))

/-- A day whose object ends `n` blanks in. -/
def dayMembers (n : ℕ) (day : MuslimtifyDay) : Named :=
  [("date", ofText (dateText day.date)),
    ("prayers", objectLines (n + 2) (prayersMembers timeFormat (n + 4) day prayerTypes))]

def dayTree (n : ℕ) (day : MuslimtifyDay) : Json := objectLines n (dayMembers timeFormat n day)

def rangeTree (days : List MuslimtifyDay) : Json := arrayLines 0 (days.map (dayTree timeFormat 2))

theorem formatTime_plain (time : MuslimtifyTime) :
    PlainText (muslimtifyFormatTime time timeFormat) := by
  have hpad := formatIntPad_plain 2
  have hhalf : ∀ h m : ℤ, ∀ half : CString, PlainText half →
      PlainText (formatIntPad 2 h ++ 0x3a :: (formatIntPad 2 m ++ 0x20 :: half)) := fun _ _ _ hh =>
    (hpad _).append (.cons (by decide) ((hpad _).append (.cons (by decide) hh)))
  unfold muslimtifyFormatTime clockFormat
  split_ifs
  · decide
  · exact (hpad _).append (.cons (by decide) (hpad _))
  all_goals exact hhalf _ _ _ (by decide)

theorem formatCell_plain (t : MuslimtifyTime) (mark : Bool) :
    PlainText (formatCell t timeFormat mark) := by
  refine (formatTime_plain timeFormat t).append ?_
  split_ifs <;> decide

theorem dateText_plain (date : CivilDate) : PlainText (dateText date) :=
  (formatIntPad_plain 4 _).append (.cons (by decide)
    ((formatIntPad_plain 2 _).append (.cons (by decide) (formatIntPad_plain 2 _))))

theorem prayerMembers_plain (p : MuslimtifyPrayer) : PlainNames (prayerMembers timeFormat p) :=
  plainNames_of (show _ = ["time", "offset", "enabled", "reminders"] from rfl) (by decide)

theorem prayerWord_plain (type : PrayerType) : PlainName (prayerWord type) := by
  cases type <;> decide

theorem prayersMembers_plain (n : ℕ) (day : MuslimtifyDay) (types : List PrayerType) :
    PlainNames (prayersMembers timeFormat n day types) := by
  intro m hm
  obtain ⟨type, -, rfl⟩ := List.mem_map.mp hm
  exact prayerWord_plain type

theorem dayMembers_plain (n : ℕ) (day : MuslimtifyDay) : PlainNames (dayMembers timeFormat n day) :=
  plainNames_of (show _ = ["date", "prayers"] from rfl) (by decide)

theorem printReminders_list (rs : List ℤ) : printReminders rs = partList (rs.map formatInt) := by
  induction rs with
  | nil => rfl
  | cons r rs ih =>
      rw [printReminders, List.map_cons, partList, ih, List.isEmpty_map]
      rfl

/-- The lines of one prayer. -/
theorem prayerMembers_text (n : ℕ) (p : MuslimtifyPrayer) :
    (objectLines n (prayerMembers timeFormat p)).text =
      ascii "\x7b\n" ++
      (blanks n ++ (ascii "  \"time\": \"" ++ (formatCell p.time timeFormat false ++
      (ascii "\",\n" ++
      (blanks n ++ (ascii "  \"offset\": " ++ (formatInt p.time.dayOffset ++ (ascii ",\n" ++
      (blanks n ++ (ascii "  \"enabled\": " ++ (boolText p.enabled ++ (ascii ",\n" ++
      (blanks n ++ (ascii "  \"reminders\": [" ++ (printReminders p.reminders.items ++
      (ascii "]\n" ++
      (blanks n ++ ascii "\x7d"))))))))))))))))) := by
  have htime := ofText_text (formatCell_plain timeFormat p.time false)
  rw [objectLines_text n (prayerMembers_plain timeFormat p), printReminders_list]
  simp only [prayerMembers, List.map_cons, List.map_nil, partLines_one, partLines_more,
    memberText, htime, ofInt_text,
    ofBool_text, arrayList_text, ofInt_texts, blanks_add n 2, List.append_assoc, List.cons_append]
  rfl

theorem printPrayerEntries_lines (day : MuslimtifyDay) (n : ℕ) (types : List PrayerType) :
    printPrayerEntries timeFormat day (blanks n) types =
      partLines n ((prayersMembers timeFormat n day types).map memberText) := by
  induction types with
  | nil => rfl
  | cons type rest ih =>
      have hempty : (prayersMembers timeFormat n day rest).isEmpty = rest.isEmpty :=
        List.isEmpty_map
      rw [prayersMembers, List.map_cons, List.map_cons, partLines, ← prayersMembers, ← ih,
        List.isEmpty_map, hempty, printPrayerEntries, memberText, prayerMembers_text,
        prayerKey_word]
      simp only [List.append_assoc, List.cons_append]
      rfl

theorem dayTree_text (n : ℕ) (day : MuslimtifyDay) :
    (dayTree timeFormat n day).text =
      ascii "\x7b\n" ++ (blanks n ++ (ascii "  \"date\": \"" ++ (dateText day.date ++
      (ascii "\",\n" ++
      (blanks n ++ (ascii "  \"prayers\": \x7b\n" ++
      (printPrayerEntries timeFormat day (blanks (n + 4)) prayerTypes ++
      (blanks n ++ (ascii "  \x7d\n" ++ (blanks n ++ ascii "\x7d")))))))))) := by
  have hdate := ofText_text (dateText_plain day.date)
  have hprayers := objectLines_text (n + 2)
    (prayersMembers_plain timeFormat (n + 4) day prayerTypes)
  rw [← printPrayerEntries_lines] at hprayers
  rw [dayTree, objectLines_text n (dayMembers_plain timeFormat n day)]
  simp only [dayMembers, List.map_cons, List.map_nil, partLines_one, partLines_more, memberText,
    hdate,
    hprayers, blanks_add n 2, List.append_assoc, List.cons_append]
  rfl

theorem displayDayJson_text (day : MuslimtifyDay) :
    displayDayJson timeFormat day = (dayTree timeFormat 0 day).text ++ [0x0a] := by
  rw [dayTree_text]
  simp only [List.append_assoc]
  rfl

theorem printRangeDays_lines (days : List MuslimtifyDay) :
    printRangeDays timeFormat days =
      partLines 2 ((days.map (dayTree timeFormat 2)).map Json.text) := by
  induction days with
  | nil => rfl
  | cons day rest ih =>
      rw [List.map_cons, List.map_cons, partLines, ← ih, List.isEmpty_map, List.isEmpty_map,
        printRangeDays, dayTree_text]
      simp only [List.append_assoc]
      rfl

theorem displayRangeJson_text (days : List MuslimtifyDay) :
    displayRangeJson timeFormat days = (rangeTree timeFormat days).text ++ [0x0a] := by
  rw [rangeTree, arrayLines_text, displayRangeJson, printRangeDays_lines]
  simp only [List.append_assoc, List.cons_append]
  rfl

end Trees

section Reading

/-- What a reader of the printed object knows of a prayer. -/
structure PrayerShown where
  minute : Option ℤ
  dayOffset : ℤ
  enabled : Bool
  reminders : FixedArray ℤ maxReminders
  deriving DecidableEq, Repr

structure DayShown where
  date : CivilDate
  prayers : List PrayerShown
  deriving DecidableEq, Repr

def readPrayer (json : CString) (type : PrayerType) : Option PrayerShown := do
  let time ← readPath ["prayers", prayerWord type, "time"] json
  let offset ← readPath ["prayers", prayerWord type, "offset"] json
  let enabled ← readPath ["prayers", prayerWord type, "enabled"] json
  let reminders ← readPath ["prayers", prayerWord type, "reminders"] json
  return {
    minute := if time = ascii "--:--" then none else some (minuteShown time)
    dayOffset := strtol offset
    enabled := isTrue enabled
    reminders := parseReminders .empty reminders }

/-- The printed day, through the reader of the library. -/
def readDay (json : CString) : Option DayShown := do
  let date ← (readPath ["date"] json).bind scanDate
  let prayers ← prayerTypes.mapM (readPrayer json)
  return ⟨date, prayers⟩

def shownPrayer (p : MuslimtifyPrayer) : PrayerShown where
  minute := if p.time.valid then some (p.time.hour * 60 + p.time.minute) else none
  dayOffset := p.time.dayOffset
  enabled := p.enabled
  reminders := p.reminders

def shownDay (day : MuslimtifyDay) : DayShown :=
  ⟨day.date, prayerTypes.map fun type => shownPrayer (day.prayers type)⟩

/-- The ranges of the fields that the library fills in. -/
structure PrayerInRange (p : MuslimtifyPrayer) : Prop where
  hour : p.time.valid = true → 0 ≤ p.time.hour ∧ p.time.hour < 24
  minute : p.time.valid = true → 0 ≤ p.time.minute ∧ p.time.minute < 60
  dayOffset : -1 ≤ p.time.dayOffset ∧ p.time.dayOffset ≤ 1
  reminders : ∀ r ∈ p.reminders.items, 1 ≤ r ∧ r ≤ 1440

variable (timeFormat : ℤ)

theorem printReminders_text (rs : List ℤ) : printReminders rs = reminderText rs := by
  induction rs with
  | nil => rfl
  | cons r rs ih =>
      rw [printReminders, ih]
      cases rs <;> simp [reminderText, ascii, comma]

theorem isTrue_handed (b : Bool) : isTrue (handed (ofBool b)) = b := by
  rw [show handed (ofBool b) = _ from ofBool_text b, isTrue_boolText]

theorem strtol_handed {z : ℤ} (h : longMin ≤ z ∧ z ≤ longMax) : strtol (handed (ofInt z)) = z := by
  rw [show handed (ofInt z) = _ from ofInt_text z, strtol_text h]

theorem parseReminders_handed {rs : FixedArray ℤ maxReminders}
    (h : ∀ r ∈ rs.items, 1 ≤ r ∧ r ≤ 1440) :
    parseReminders .empty (handed (arrayList (rs.items.map ofInt))) = rs := by
  rw [show handed (arrayList _) = _ from arrayList_text _, ofInt_texts, ← printReminders_list,
    printReminders_text, parseReminders_text h]

theorem prayersMembers_lookup (n : ℕ) (day : MuslimtifyDay) (type : PrayerType) :
    (prayersMembers timeFormat n day prayerTypes).lookup (prayerWord type) =
      some (objectLines n (prayerMembers timeFormat (day.prayers type))) := by
  cases type <;> rfl

/-- A clock text begins with a digit. -/
theorem clockFormat_ne_dashes (hour minute : ℤ) :
    clockFormat hour minute timeFormat ≠ ascii "--:--" := by
  have hdigit : ∀ n : Fin 100, UInt8.ofNat (0x30 + n / 10) ≠ 0x2d := by decide
  have hhead : ∀ (z : ℤ) (rest : CString),
      (formatIntPad 2 (toUnsigned z % 100) ++ rest).head? ≠ some 0x2d := by
    intro z rest
    obtain ⟨a, ha⟩ : ∃ a : Fin 100, (a : ℤ) = toUnsigned z % 100 :=
      ⟨⟨(toUnsigned z % 100).toNat, by omega⟩, by simp; omega⟩
    rw [← ha, formatIntPad_two]
    simpa using hdigit a
  intro h
  have hdash : (clockFormat hour minute timeFormat).head? = some 0x2d := by
    rw [h]
    rfl
  unfold clockFormat at hdash
  split_ifs at hdash <;> exact hhead _ _ hdash

/-- The cell of a time tells its minute. -/
theorem formatCell_shown {t : MuslimtifyTime} (hh : t.valid = true → 0 ≤ t.hour ∧ t.hour < 24)
    (hm : t.valid = true → 0 ≤ t.minute ∧ t.minute < 60) :
    (if formatCell t timeFormat false = ascii "--:--" then none
      else some (minuteShown (formatCell t timeFormat false))) =
      if t.valid then some (t.hour * 60 + t.minute) else none := by
  have hcell : formatCell t timeFormat false = muslimtifyFormatTime t timeFormat :=
    List.append_nil _
  rw [hcell, muslimtifyFormatTime]
  cases hv : t.valid with
  | false => rfl
  | true =>
      have hne := clockFormat_ne_dashes timeFormat t.hour t.minute
      have hshown := minuteShown_clockFormat (hh hv) (hm hv) timeFormat
      simp only [Bool.not_true, Bool.false_eq_true, if_false, if_true, if_neg hne, hshown]

theorem dayTree_depth (n : ℕ) (day : MuslimtifyDay) : (dayTree timeFormat n day).depth ≤ 4 := by
  have hprayer : ∀ p m, (objectLines m (prayerMembers timeFormat p)).depth ≤ 2 := by
    refine fun p m => objectLines_depth ?_
    simp only [prayerMembers, List.forall_mem_cons]
    refine ⟨Nat.zero_le _, Nat.zero_le _, Nat.zero_le _, arrayList_depth ?_, List.forall_mem_nil _⟩
    exact List.forall_mem_map.mpr fun _ _ => le_rfl
  have hprayers :
      (objectLines (n + 2) (prayersMembers timeFormat (n + 4) day prayerTypes)).depth ≤ 3 :=
    objectLines_depth (List.forall_mem_map.mpr fun _ _ => hprayer _ _)
  refine objectLines_depth ?_
  simp only [dayMembers, List.forall_mem_cons]
  exact ⟨Nat.zero_le _, hprayers, List.forall_mem_nil _⟩

/-- What stands at a path of the day is what the reader finds in its text. -/
theorem readPath_day (n : ℕ) (day : MuslimtifyDay) {path : List String}
    (hp : ∀ key ∈ path, PlainName key) (hne : path ≠ []) {v : Json}
    (hv : along path (dayTree timeFormat n day) = some v) (tail : Ws) :
    readPath path ((dayTree timeFormat n day).text ++ tail.bytes) = some (handed v) :=
  readPath_along (fun key hk => (hp key hk).printable) hne
    ((dayTree_depth timeFormat n day).trans (by decide)) hv tail

theorem readPrayer_day (n : ℕ) {day : MuslimtifyDay} {type : PrayerType}
    (hp : PrayerInRange (day.prayers type)) (tail : Ws) :
    readPrayer ((dayTree timeFormat n day).text ++ tail.bytes) type =
      some (shownPrayer (day.prayers type)) := by
  have hfield : ∀ key, PlainName key → ∀ v,
      (prayerMembers timeFormat (day.prayers type)).lookup key = some v →
      readPath ["prayers", prayerWord type, key]
        ((dayTree timeFormat n day).text ++ tail.bytes) = some (handed v) := by
    intro key hk v hv
    have hnames : ∀ name ∈ ["prayers", prayerWord type, key], PlainName name := by
      simp only [List.forall_mem_cons]
      exact ⟨by decide, prayerWord_plain type, hk, List.forall_mem_nil _⟩
    refine readPath_day timeFormat n day hnames (List.cons_ne_nil _ _) ?_ tail
    have hprayers : (dayMembers timeFormat n day).lookup "prayers" = some _ := rfl
    rw [dayTree, along_objectLines (dayMembers_plain timeFormat n day), hprayers, Option.bind_some,
      along_objectLines (prayersMembers_plain timeFormat _ day _), prayersMembers_lookup,
      Option.bind_some, along_objectLines (prayerMembers_plain timeFormat _), hv]
    rfl
  have htime := hfield "time" (by decide) _ rfl
  have hoffset := hfield "offset" (by decide) _ rfl
  have henabled := hfield "enabled" (by decide) _ rfl
  have hreminders := hfield "reminders" (by decide) _ rfl
  rw [handed_ofText (formatCell_plain timeFormat _ _)] at htime
  have hday : longMin ≤ (day.prayers type).time.dayOffset ∧
      (day.prayers type).time.dayOffset ≤ longMax := by
    have := hp.dayOffset
    simp only [longMin, longMax]
    omega
  simp only [readPrayer, htime, hoffset, henabled, hreminders, Option.bind_eq_bind,
    Option.bind_some, formatCell_shown timeFormat hp.hour hp.minute, strtol_handed hday,
    isTrue_handed, parseReminders_handed hp.reminders]
  rfl

/-- Whatever stands behind it, the text of a day is read back. -/
theorem readDay_tree (n : ℕ) {day : MuslimtifyDay}
    (hday : ∀ type, PrayerInRange (day.prayers type)) (tail : Ws) :
    readDay ((dayTree timeFormat n day).text ++ tail.bytes) = some (shownDay day) := by
  have hdate : readPath ["date"] ((dayTree timeFormat n day).text ++ tail.bytes) =
      some (handed (ofText (dateText day.date))) :=
    readPath_day timeFormat n day (by decide) (by decide)
      (by rw [dayTree, along_objectLines (dayMembers_plain timeFormat n day)]; rfl) tail
  rw [handed_ofText (dateText_plain day.date)] at hdate
  have hprayers : prayerTypes.mapM (readPrayer ((dayTree timeFormat n day).text ++ tail.bytes)) =
      some (prayerTypes.map fun type => shownPrayer (day.prayers type)) := by
    simp only [prayerTypes, List.mapM_cons, List.mapM_nil,
      readPrayer_day timeFormat n (hday _) tail]
    rfl
  simp only [readDay, hdate, hprayers, Option.bind_some, scanDate_dateText, Option.bind_eq_bind]
  rfl

end Reading

section Days
variable {H : Host} {cfg : Config} {now : Tm}

theorem farNorth_inRange : farNorth.InRange := configLoad_inRange configLoad_farNorth

theorem timeFromHours_inRange (hours : Double) (serial : ℤ) (utcOffset : Double) :
    let t := timeFromHours hours serial utcOffset
    (t.valid = true → 0 ≤ t.hour ∧ t.hour < 24) ∧ (t.valid = true → 0 ≤ t.minute ∧ t.minute < 60) ∧
      -1 ≤ t.dayOffset ∧ t.dayOffset ≤ 1 := by
  cases hours with
  | fin q h =>
      obtain ⟨hour, minute, hread, hh₀, hh₁, hm₀, hm₁, -⟩ := readHm_formatTimeHm q h
      have hoffset : -1 ≤ dayOffsetOf ⌈q * 60⌉ ∧ dayOffsetOf ⌈q * 60⌉ ≤ 1 := by
        unfold dayOffsetOf
        split_ifs <;> decide
      simp only [timeFromHours, hread]
      exact ⟨fun _ => ⟨hh₀, hh₁⟩, fun _ => ⟨hm₀, hm₁⟩, hoffset⟩
  | inf neg =>
      exact ⟨fun h => (by cases h), fun h => (by cases h),
        show (-1 : ℤ) ≤ 0 ∧ (0 : ℤ) ≤ 1 by decide⟩
  | nan =>
      exact ⟨fun h => (by cases h), fun h => (by cases h),
        show (-1 : ℤ) ≤ 0 ∧ (0 : ℤ) ≤ 1 by decide⟩

theorem muslimtifyDay_inRange (hc : cfg.InRange) {date : CivilDate} {day : MuslimtifyDay}
    (h : muslimtifyDay H cfg date = .ok day) :
    day.date = date ∧ ∀ type, PrayerInRange (day.prayers type) := by
  unfold muslimtifyDay at h
  split_ifs at h
  obtain rfl := Except.ok.inj h
  refine ⟨rfl, fun type => ?_⟩
  obtain ⟨hh, hm, hoffset⟩ := timeFromHours_inRange
    (prayerGetTime (prayerTimesForConfig H cfg date.year date.month date.day) type)
    (mtDaysFromCivil date.year date.month date.day)
    (effectiveTzOffset H cfg date.year date.month date.day)
  exact ⟨hh, hm, hoffset, (hc.prayers type).reminders⟩

theorem muslimtifyDayAt_inRange (hc : cfg.InRange) {date : CivilDate} {day : ShownDay}
    (h : muslimtifyDayAt H cfg now date = .ok day) :
    day.date = date ∧ ∀ type, PrayerInRange (day.prayers type) := by
  unfold muslimtifyDayAt at h
  split at h
  · cases hday : muslimtifyDay H cfg date with
    | error err =>
        rw [hday] at h
        cases h
    | ok d =>
        rw [hday] at h
        obtain rfl := Except.ok.inj h
        exact muslimtifyDay_inRange hc hday
  · cases h

/-- The JSON of a day is one object of the grammar, and read with the reader of the library it
gives back the date and, for each prayer, its minute, its day, whether it is enabled and all
of its reminders. -/
theorem day_json_read (hc : cfg.InRange) {date : CivilDate} {day : ShownDay}
    (h : muslimtifyDayAt H cfg now date = .ok day) (timeFormat : ℤ) :
    (∃ doc : Document, doc.depth ≤ 100 ∧
      displayDayJson timeFormat day.toMuslimtifyDay = doc.text) ∧
    readDay (displayDayJson timeFormat day.toMuslimtifyDay) =
      some (shownDay day.toMuslimtifyDay) := by
  obtain ⟨-, hrange⟩ := muslimtifyDayAt_inRange hc h
  have htext := displayDayJson_text timeFormat day.toMuslimtifyDay
  have hdepth := (dayTree_depth timeFormat 0 day.toMuslimtifyDay).trans (by decide : 4 ≤ 100)
  refine ⟨⟨lineDocument (dayMembers timeFormat 0 day.toMuslimtifyDay), hdepth, htext⟩, ?_⟩
  rw [htext]
  exact readDay_tree timeFormat 0 hrange (lineWs 0)

theorem northDay_ok : ∃ day : ShownDay,
    muslimtifyDayAt (steadyHost juneTimes) farNorth springEve ⟨2026, 6, 17⟩ = .ok day := by
  have hok : ∃ day, muslimtifyDayAt (steadyHost juneTimes) farNorth springEve ⟨2026, 6, 17⟩ = .ok day ∧
      day.date = ⟨2026, 6, 17⟩ :=
    muslimtifyDayAt_ok (dateIsValid_iff.mp (by decide)) (by decide +kernel)
  exact hok.imp fun _ hday => hday.1

theorem day_json_read_north :
    ∃ day : ShownDay, muslimtifyDayAt (steadyHost juneTimes) farNorth springEve ⟨2026, 6, 17⟩ = .ok day ∧
      readDay (displayDayJson 12 day.toMuslimtifyDay) = some (shownDay day.toMuslimtifyDay) := by
  obtain ⟨day, hday⟩ := northDay_ok
  exact ⟨day, hday, (day_json_read farNorth_inRange hday 12).2⟩

/-- The loop over a range writes days that are each right on their own. -/
theorem fillDays_each {first : ℤ} (n i : ℕ) {out filled : List ShownDay}
    (h : fillDays (muslimtifyDayAt H cfg now) first n i out = (.ok, filled))
    (hout : ∀ day ∈ out, ∃ date, muslimtifyDayAt H cfg now date = .ok day) :
    ∀ day ∈ filled, ∃ date, muslimtifyDayAt H cfg now date = .ok day := by
  induction n generalizing i out with
  | zero =>
      obtain ⟨-, rfl⟩ := Prod.mk.inj h
      exact hout
  | succ n ih =>
      rw [fillDays] at h
      split at h
      · obtain ⟨-, rfl⟩ := Prod.mk.inj h
        exact hout
      · next day hday =>
          exact ih (i + 1) h (List.forall_mem_append.mpr
            ⟨hout, List.forall_mem_singleton.mpr ⟨_, hday⟩⟩)

theorem muslimtifyRange_each {start end_ : CivilDate} {cap count : ℕ}
    (h : (muslimtifyRange H (some cfg) now start end_ cap count).error = .ok) :
    ∀ day ∈ (muslimtifyRange H (some cfg) now start end_ cap count).out,
      ∃ date, muslimtifyDayAt H cfg now date = .ok day := by
  unfold muslimtifyRange at h ⊢
  dsimp only at h ⊢
  split_ifs at h ⊢ with hcheck hcap hfill
  · exact absurd h hcheck
  · exact absurd h hfill
  · exact fillDays_each _ 0 (Prod.ext (not_not.mp hfill) rfl) (List.forall_mem_nil _)

/-- The JSON of a range is one array of the grammar with an object for each day of the calendar
from the first to the last, in this order. Each is read as the JSON of that day alone is. -/
theorem range_json_read (hc : cfg.InRange) {start end_ : CivilDate} {cap count : ℕ}
    (h : (muslimtifyRange H (some cfg) now start end_ cap count).error = .ok) (timeFormat : ℤ) :
    let r := muslimtifyRange H (some cfg) now start end_ cap count
    ∃ trees : List Json, (arrayLines 0 trees).depth ≤ 100 ∧
      displayRangeJson timeFormat (r.out.map (·.toMuslimtifyDay)) =
        (arrayLines 0 trees).text ++ [0x0a] ∧
      (trees.map fun tree => readDay tree.text) =
        r.out.map (fun day => some (shownDay day.toMuslimtifyDay)) ∧
      ∀ n, Spans start end_ n → trees.length = n + 1 ∧
        (trees.map fun tree => (readDay tree.text).map (·.date)) =
          (List.range (n + 1)).map fun i => some (nextDay^[i] start) := by
  intro r
  have hread : ∀ day ∈ r.out, readDay (dayTree timeFormat 2 day.toMuslimtifyDay).text =
      some (shownDay day.toMuslimtifyDay) := by
    intro day hday
    obtain ⟨date, hdate⟩ := muslimtifyRange_each h day hday
    have hread := readDay_tree timeFormat 2 (muslimtifyDayAt_inRange hc hdate).2 .none
    rwa [show Ws.none.bytes = [] from rfl, List.append_nil] at hread
  have hdates := (range_exact H (some cfg) now start end_ cap count).2.1 h
  refine ⟨r.out.map fun day => dayTree timeFormat 2 day.toMuslimtifyDay, ?_, ?_, ?_, fun n hn => ?_⟩
  · refine (arrayLines_depth (d := 4)
      (List.forall_mem_map.mpr fun _ _ => dayTree_depth _ _ _)).trans ?_
    decide
  · rw [displayRangeJson_text, rangeTree, List.map_map]
    rfl
  · rw [List.map_map]
    exact List.map_congr_left hread
  · obtain ⟨hcount, hdays⟩ := hdates n hn
    have hlength := congrArg List.length hdays
    simp only [List.length_map, List.length_range] at hlength ⊢
    refine ⟨hlength, ?_⟩
    have hlift := congrArg (List.map some) hdays
    rw [List.map_map, List.map_map] at hlift
    rw [List.map_map]
    exact (List.map_congr_left fun day hday => by
      rw [Function.comp, hread day hday]; rfl).trans hlift

theorem februarySpan : Spans ⟨2026, 2, 27⟩ ⟨2026, 3, 1⟩ 2 := by
  unfold Spans
  decide

theorem northRange_ok :
    (muslimtifyRange (steadyHost juneTimes) (some farNorth) springEve ⟨2026, 2, 27⟩ ⟨2026, 3, 1⟩
      366 0).error = .ok :=
  (range_exact (steadyHost juneTimes) (some farNorth) springEve ⟨2026, 2, 27⟩ ⟨2026, 3, 1⟩
    366 0).1.mpr ⟨dateIsValid_iff.mp (by decide), dateIsValid_iff.mp (by decide),
      ⟨2, februarySpan, by decide, by decide⟩, farNorth, rfl, by decide +kernel⟩

theorem range_json_read_north :
    ∃ trees : List Json, displayRangeJson 24
        ((muslimtifyRange (steadyHost juneTimes) (some farNorth) springEve ⟨2026, 2, 27⟩ ⟨2026, 3, 1⟩
          366 0).out.map (·.toMuslimtifyDay)) = (arrayLines 0 trees).text ++ [0x0a] ∧
      (trees.map fun tree => (readDay tree.text).map (·.date)) =
        [some ⟨2026, 2, 27⟩, some ⟨2026, 2, 28⟩, some ⟨2026, 3, 1⟩] := by
  obtain ⟨trees, -, htext, -, hdays⟩ := range_json_read farNorth_inRange northRange_ok 24
  exact ⟨trees, htext, (hdays 2 februarySpan).2.trans (by decide)⟩

end Days

section Countdown
variable (timeFormat : ℤ)

/-- The three strings of an upcoming prayer, if there is one. -/
def nextPrayerStrings (next : MuslimtifyNext) : Option (CString × CString × CString) :=
  if next.prayer = none then none
  else some (dateText ⟨next.time.year, next.time.month, next.time.day⟩,
    formatCell next.time timeFormat false,
    formatIntPad 2 (next.minutesUntil.tdiv 60) ++
      (ascii ":" ++ formatIntPad 2 (next.minutesUntil.tmod 60)))

def displayNextJson (next : MuslimtifyNext) : CString :=
  match next.prayer, nextPrayerStrings timeFormat next with
  | some prayer, some (date, time, remaining) =>
      ascii "\x7b\n" ++ (ascii "  \"date\": \"" ++ (date ++ (ascii "\",\n" ++
      (ascii "  \"prayer\": \"" ++ (prayerKey prayer ++ (ascii "\",\n" ++
      (ascii "  \"time\": \"" ++ (time ++ (ascii "\",\n" ++
      (ascii "  \"remaining\": \"" ++ (remaining ++ (ascii "\"\n" ++ ascii "\x7d\n"))))))))))))
  | _, _ => ascii "\x7b\x7d\n"

/-- What a reader of the printed object knows of the upcoming prayer. -/
structure NextShown where
  date : CivilDate
  prayer : PrayerType
  minute : Option ℤ
  minutesUntil : ℤ
  deriving DecidableEq, Repr

/-- `sscanf(text, "%d:%d", ...)`, as minutes. -/
def scanMinutes (text : CString) : Option ℤ := do
  let (hours, rest) ← scanInt text
  let rest ← if rest.head? = some 0x3a then some rest.tail else none
  let (minutes, _) ← scanInt rest
  return hours * 60 + minutes

def readNext (json : CString) : Option NextShown := do
  let date ← (readPath ["date"] json).bind scanDate
  let key ← readPath ["prayer"] json
  let prayer ← prayerTypes.find? fun type => prayerKey type = key
  let time ← readPath ["time"] json
  let minutesUntil ← (readPath ["remaining"] json).bind scanMinutes
  return {
    date := date
    prayer := prayer
    minute := if time = ascii "--:--" then none else some (minuteShown time)
    minutesUntil := minutesUntil }

def shownNext (next : MuslimtifyNext) : Option NextShown :=
  next.prayer.map fun prayer =>
    { date := ⟨next.time.year, next.time.month, next.time.day⟩
      prayer := prayer
      minute := if next.time.valid then some (next.time.hour * 60 + next.time.minute) else none
      minutesUntil := next.minutesUntil }

def nextMembers (next : MuslimtifyNext) (prayer : PrayerType) : Named :=
  [("date", ofText (dateText ⟨next.time.year, next.time.month, next.time.day⟩)),
    ("prayer", ofText (prayerKey prayer)), ("time", ofText (formatCell next.time timeFormat false)),
    ("remaining", ofText (formatIntPad 2 (next.minutesUntil.tdiv 60) ++
      (ascii ":" ++ formatIntPad 2 (next.minutesUntil.tmod 60))))]

theorem remaining_plain (minutes : ℤ) :
    PlainText (formatIntPad 2 (minutes.tdiv 60) ++
      (ascii ":" ++ formatIntPad 2 (minutes.tmod 60))) :=
  (formatIntPad_plain 2 _).append (.append (by decide) (formatIntPad_plain 2 _))

theorem prayerKey_plain (type : PrayerType) : PlainText (prayerKey type) := by
  cases type <;> decide

theorem displayNextJson_text {next : MuslimtifyNext} {prayer : PrayerType}
    (h : next.prayer = some prayer) :
    displayNextJson timeFormat next = (lineDocument (nextMembers timeFormat next prayer)).text := by
  have hdate := ofText_text (dateText_plain ⟨next.time.year, next.time.month, next.time.day⟩)
  have hprayer := ofText_text (prayerKey_plain prayer)
  have htime := ofText_text (formatCell_plain timeFormat next.time false)
  have hremaining := ofText_text (remaining_plain next.minutesUntil)
  have hn : PlainNames (nextMembers timeFormat next prayer) :=
    plainNames_of (show _ = ["date", "prayer", "time", "remaining"] from rfl) (by decide)
  rw [lineDocument_text, objectLines_text 0 hn]
  simp only [displayNextJson, nextPrayerStrings, h, if_neg (Option.some_ne_none prayer),
    nextMembers, List.map_cons, List.map_nil,
    partLines_one, partLines_more, memberText, hdate, hprayer, htime, hremaining, List.append_assoc,
    List.cons_append]
  rfl

theorem scanMinutes_text (minutes : ℤ) :
    scanMinutes (formatIntPad 2 (minutes.tdiv 60) ++
      (ascii ":" ++ formatIntPad 2 (minutes.tmod 60))) = some minutes := by
  have hhours := scanInt_formatIntPad 2 (minutes.tdiv 60)
    (s := 0x3a :: formatIntPad 2 (minutes.tmod 60)) (noDigitHead_cons (by decide))
  have hmin := scanInt_formatIntPad 2 (minutes.tmod 60) noDigitHead_nil
  rw [List.append_nil] at hmin
  have hsum : minutes.tdiv 60 * 60 + minutes.tmod 60 = minutes := Int.tdiv_mul_add_tmod minutes 60
  rw [show ascii ":" ++ formatIntPad 2 _ = 0x3a :: formatIntPad 2 _ from rfl]
  simp [scanMinutes, hhours, hmin, hsum]

variable {H : Host} {cfg : Config} {now : Tm}

theorem muslimtifyNextAt_inRange {next : MuslimtifyNext}
    (h : muslimtifyNextAt H cfg now = .ok next) :
    (next.time.valid = true → 0 ≤ next.time.hour ∧ next.time.hour < 24) ∧
      (next.time.valid = true → 0 ≤ next.time.minute ∧ next.time.minute < 60) := by
  unfold muslimtifyNextAt at h
  dsimp only at h
  split_ifs at h
  · obtain rfl := Except.ok.inj h
    exact ⟨fun h => (by cases h), fun h => (by cases h)⟩
  · obtain rfl := Except.ok.inj h
    obtain ⟨hh, hm, -⟩ := timeFromHours_inRange _ _ _
    exact ⟨hh, hm⟩

/-- The JSON of the upcoming prayer, read back; without one it is an object that has nothing. -/
theorem next_json_read {next : MuslimtifyNext} (h : muslimtifyNextAt H cfg now = .ok next)
    (timeFormat : ℤ) :
    (∃ doc : Document, doc.depth ≤ 100 ∧ displayNextJson timeFormat next = doc.text) ∧
      readNext (displayNextJson timeFormat next) = shownNext next := by
  obtain ⟨hh, hm⟩ := muslimtifyNextAt_inRange h
  cases hprayer : next.prayer with
  | none =>
      have hnone : displayNextJson timeFormat next = ascii "\x7b\x7d\n" := by
        rw [displayNextJson, hprayer]
      have hshown : shownNext next = none := by rw [shownNext, hprayer, Option.map_none]
      rw [hnone, hshown]
      exact ⟨⟨⟨.none, .none, .nil, lineWs 0⟩, by decide, rfl⟩, by decide⟩
  | some prayer =>
      have htext := displayNextJson_text timeFormat hprayer
      have hn : PlainNames (nextMembers timeFormat next prayer) :=
        plainNames_of (show _ = ["date", "prayer", "time", "remaining"] from rfl) (by decide)
      have hdepth : (lineDocument (nextMembers timeFormat next prayer)).depth ≤ 100 := by
        refine (objectLines_depth (d := 0) ?_).trans (by decide)
        simp only [nextMembers, List.forall_mem_cons]
        exact ⟨le_rfl, le_rfl, le_rfl, le_rfl, List.forall_mem_nil _⟩
      refine ⟨⟨_, hdepth, htext⟩, ?_⟩
      have hread : ∀ key, PlainName key → ∀ s, PlainText s →
          (nextMembers timeFormat next prayer).lookup key = some (ofText s) →
          readPath [key] (displayNextJson timeFormat next) = some s := by
        intro key hk s hs hv
        rw [htext, readPath_member hn hdepth hk hv, handed_ofText hs]
      have hdate := hread "date" (by decide) _ (dateText_plain _) rfl
      have hkey := hread "prayer" (by decide) _ (prayerKey_plain prayer) rfl
      have htime := hread "time" (by decide) _ (formatCell_plain timeFormat _ _) rfl
      have hremaining := hread "remaining" (by decide) _ (remaining_plain _) rfl
      have hfind :
          (prayerTypes.find? fun type => prayerKey type = prayerKey prayer) = some prayer := by
        cases prayer <;> decide
      simp only [readNext, hdate, hkey, htime, hremaining, hfind, Option.bind_eq_bind,
        Option.bind_some, scanDate_dateText, scanMinutes_text, formatCell_shown timeFormat hh hm,
        shownNext, hprayer]
      rfl

theorem springNext_ok : ∃ next, muslimtifyNextAt springHost farNorth springEve = .ok next := by
  unfold muslimtifyNextAt
  dsimp only
  split_ifs with hset
  · exact absurd hset (by decide +kernel)
  · exact ⟨_, rfl⟩
  · exact ⟨_, rfl⟩

theorem next_json_read_spring :
    ∃ next, muslimtifyNextAt springHost farNorth springEve = .ok next ∧
      readNext (displayNextJson 24 next) = shownNext next := by
  obtain ⟨next, hnext⟩ := springNext_ok
  exact ⟨next, hnext, (next_json_read hnext 24).2⟩

end Countdown

end Muslimtify.Display
