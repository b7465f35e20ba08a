import Muslimtify.DisplayTables

/-!
# What the display prints as lines of keys and values

`--headless` output is meant for scripts: a line `key=value` for each thing there
is to say, with an empty line between two days. Colours may stand around a key
and its value. What a script finds in the lines is the day that was printed,
without the prayers that are switched off.
-/
namespace Muslimtify.DisplayPlain
open CText CDouble CivilDays Calendar JsonPrinting Settings ConfigFile ConfigRoundTrip Schedule
  Detection PublicTimes DateRange NextPrayer AnnouncedTime Display DisplayTables TextTables
  LineStream TriggerPartition

section Printers
variable (useColors : Bool) (timeFormat : ℤ)

def printPlainPrayer (highlight : ℤ) (day : MuslimtifyDay) (type : PrayerType) : CString :=
  let p := day.prayers type
  let C := colour useColors
  if !p.enabled then []
  else
    let key := prayerKey type
    let time := formatCell p.time timeFormat false
    (if prayerTypes.idxOf type = highlight then
      [C (colBold ++ colYellow), key, C (colReset ++ colBold ++ colYellow), ascii "=", time,
        C colReset, ascii "\n"].flatten
    else [key, ascii "=", time, ascii "\n"].flatten) ++
      if p.time.dayOffset ≠ 0 then
        [key, ascii "_offset=", formatInt p.time.dayOffset, ascii "\n"].flatten
      else []

def printPlainPrayers (day : MuslimtifyDay) (highlight : ℤ) : CString :=
  prayerTypes.flatMap (printPlainPrayer useColors timeFormat highlight day)

def displayDayPlain (day : ShownDay) : CString :=
  ascii "date=" ++ dateText day.date ++ ascii "\n" ++
    printPlainPrayers useColors timeFormat day.toMuslimtifyDay day.next

/-- The days that are left to print. -/
def displayRangePlain : List MuslimtifyDay → CString
  | [] => []
  | day :: rest =>
      ascii "date=" ++ dateText day.date ++ ascii "\n" ++
        printPlainPrayers useColors timeFormat day (-1) ++
        (if rest.isEmpty then [] else ascii "\n") ++ displayRangePlain rest

def displayNextPlain (next : MuslimtifyNext) : CString :=
  match next.prayer, nextPrayerStrings timeFormat next with
  | some prayer, some (date, time, remaining) =>
      [ascii "date=", date, ascii "\n", prayerKey prayer, ascii "=", time, ascii "\n",
        ascii "remaining=", remaining, ascii "\n"].flatten
  | _, _ => ascii "No upcoming prayers enabled.\n"

end Printers

section Pairs
variable (useColors : Bool) (timeFormat : ℤ)

/-- The pairs about one prayer. -/
def prayerPairs (day : MuslimtifyDay) (type : PrayerType) : List (CString × CString) :=
  let p := day.prayers type
  if p.enabled then
    (prayerKey type, formatCell p.time timeFormat false) ::
      if p.time.dayOffset = 0 then []
      else [(prayerKey type ++ ascii "_offset", formatInt p.time.dayOffset)]
  else []

def dayPairs (day : MuslimtifyDay) : List (CString × CString) :=
  (ascii "date", dateText day.date) :: prayerTypes.flatMap (prayerPairs timeFormat day)

/-- A line for each pair. -/
def pairText (pairs : List (CString × CString)) : CString := pairLines 0x3d 0x0a pairs

theorem pairText_cons (p : CString × CString) (pairs : List (CString × CString)) :
    pairText (p :: pairs) = p.1 ++ 0x3d :: (p.2 ++ 0x0a :: pairText pairs) := by
  rw [pairText, pairLines, List.map_cons, unlines_cons, List.append_assoc]
  rfl

theorem pairText_append (pairs more : List (CString × CString)) :
    pairText (pairs ++ more) = pairText pairs ++ pairText more := by
  rw [pairText, pairLines, List.map_append, unlines_append]
  rfl

theorem visible_plainPrayer (highlight : ℤ) (day : MuslimtifyDay) (type : PrayerType)
    (t : CString) :
    visible (printPlainPrayer useColors timeFormat highlight day type ++ t) =
      pairText (prayerPairs timeFormat day type) ++ visible t := by
  have hkey := prayerKey_plain type
  have htime : PlainText (formatCell (day.prayers type).time timeFormat false) :=
    formatCell_plain timeFormat _ _
  have hoffset := formatInt_plain (day.prayers type).time.dayOffset
  have hline : ∀ t, visible ((if prayerTypes.idxOf type = highlight then
      [colour useColors (colBold ++ colYellow), prayerKey type,
        colour useColors (colReset ++ colBold ++ colYellow), ascii "=",
        formatCell (day.prayers type).time timeFormat false, colour useColors colReset,
        ascii "\n"].flatten
      else [prayerKey type, ascii "=", formatCell (day.prayers type).time timeFormat false,
        ascii "\n"].flatten) ++ t) =
      prayerKey type ++ 0x3d :: (formatCell (day.prayers type).time timeFormat false ++
        0x0a :: visible t) := by
    intro t
    split_ifs
    all_goals
      simp (disch := first | assumption | decide) only [List.flatten_cons, List.flatten_nil,
        List.append_assoc, List.nil_append, visible_append, visible_colour]
      rfl
  rw [printPlainPrayer, prayerPairs]
  cases (day.prayers type).enabled with
  | false => rfl
  | true =>
      dsimp only
      rw [if_neg (by decide), if_pos rfl, pairText_cons, List.append_assoc, hline]
      by_cases hday : (day.prayers type).time.dayOffset = 0
      · rw [if_neg (not_not.mpr hday), if_pos hday, List.append_assoc]
        exact congrArg (prayerKey type ++ 0x3d :: ·) (List.append_assoc _ [0x0a] (visible t)).symm
      · rw [if_pos hday, if_neg hday, pairText_cons]
        simp (disch := first | assumption | decide) only [List.flatten_cons, List.flatten_nil,
          List.append_assoc, List.nil_append, visible_append]
        simp only [List.append_assoc, List.cons_append]
        rfl

theorem visible_plainPrayers (day : MuslimtifyDay) (highlight : ℤ) (t : CString) :
    visible (printPlainPrayers useColors timeFormat day highlight ++ t) =
      pairText (prayerTypes.flatMap (prayerPairs timeFormat day)) ++ visible t := by
  rw [printPlainPrayers]
  induction prayerTypes with
  | nil => rfl
  | cons type types ih =>
      rw [List.flatMap_cons, List.append_assoc, visible_plainPrayer, ih, List.flatMap_cons,
        pairText_append, List.append_assoc]

/-- The date and the prayers of a day. -/
theorem visible_plainDay (day : MuslimtifyDay) (highlight : ℤ) (t : CString) :
    visible (ascii "date=" ++ dateText day.date ++ ascii "\n" ++
      printPlainPrayers useColors timeFormat day highlight ++ t) =
      pairText (dayPairs timeFormat day) ++ visible t := by
  have hdate := dateText_plain day.date
  have hlabel : PlainText (ascii "date=") := by decide
  rw [dayPairs, pairText_cons, List.append_assoc, List.append_assoc, List.append_assoc,
    visible_append hlabel, visible_append hdate]
  rw [show ascii "\n" ++ (printPlainPrayers useColors timeFormat day highlight ++ t) =
    0x0a :: (printPlainPrayers useColors timeFormat day highlight ++ t) from rfl,
    visible_newline, visible_plainPrayers]
  simp only [List.append_assoc, List.cons_append]
  rfl

theorem visible_displayDayPlain (day : ShownDay) :
    visible (displayDayPlain useColors timeFormat day) =
      pairText (dayPairs timeFormat day.toMuslimtifyDay) := by
  have h := visible_plainDay useColors timeFormat day.toMuslimtifyDay day.next []
  rwa [List.append_nil, visible_nil, List.append_nil] at h

end Pairs

section Reading
variable (timeFormat : ℤ)

/-- What a script knows of a prayer that is listed. -/
structure PrayerListed where
  minute : Option ℤ
  dayOffset : ℤ
  deriving DecidableEq, Repr

def readPrayerPairs (pairs : List (CString × CString)) (type : PrayerType) :
    Option PrayerListed :=
  (pairs.lookup (prayerKey type)).map fun time =>
    { minute := if time = ascii "--:--" then none else some (minuteShown time)
      dayOffset := ((pairs.lookup (prayerKey type ++ ascii "_offset")).map strtol).getD 0 }

/-- The day that the lines of one day tell. -/
def readDayLines (lines : List CString) : Option (CivilDate × List (Option PrayerListed)) :=
  let pairs := lines.map (readPair 0x3d)
  ((pairs.lookup (ascii "date")).bind scanDate).map fun date =>
    (date, prayerTypes.map (readPrayerPairs pairs))

/-- A day without what is not listed of it. -/
def listedDay (day : DayShown) : CivilDate × List (Option PrayerListed) :=
  (day.date, day.prayers.map fun p => if p.enabled then some ⟨p.minute, p.dayOffset⟩ else none)

theorem lookup_flatMap {ι κ β : Type} [BEq κ] [LawfulBEq κ] {f : ι → List (κ × β)} {k : κ} {i : ι}
    {is : List ι} (hi : i ∈ is) (h : ∀ j, j ≠ i → (f j).lookup k = none) :
    (is.flatMap f).lookup k = (f i).lookup k := by
  induction is with
  | nil => cases hi
  | cons j is ih =>
      rw [List.flatMap_cons, List.lookup_append]
      by_cases hj : j = i
      · subst hj
        by_cases hrest : j ∈ is
        · rw [ih hrest, Option.or_self]
        · have hnone : (is.flatMap f).lookup k = none := by
            refine List.lookup_eq_none_iff.mpr fun p hp => ?_
            obtain ⟨l, hl, hp⟩ := List.mem_flatMap.mp hp
            exact List.lookup_eq_none_iff.mp (h l fun heq => hrest (heq ▸ hl)) p hp
          rw [hnone, Option.or_none]
      · rw [h j hj, Option.none_or, ih ((List.mem_cons.mp hi).resolve_left (Ne.symm hj))]

theorem prayerKey_inj {a b : PrayerType} (h : prayerKey a = prayerKey b) : a = b := by
  revert h
  cases a <;> cases b <;> decide

theorem prayerKey_ne_offset (a b : PrayerType) :
    prayerKey a ≠ prayerKey b ++ ascii "_offset" := by
  cases a <;> cases b <;> decide

theorem prayerKey_ne_date (type : PrayerType) : prayerKey type ≠ ascii "date" := by
  cases type <;> decide

theorem prayerPairs_names (day : MuslimtifyDay) (type : PrayerType) :
    ∀ p ∈ prayerPairs timeFormat day type,
      p.1 = prayerKey type ∨ p.1 = prayerKey type ++ ascii "_offset" := by
  intro p hp
  rw [prayerPairs] at hp
  split_ifs at hp <;> simp only [List.mem_cons, List.not_mem_nil, or_false] at hp
  · exact Or.inl (congrArg Prod.fst hp)
  · exact hp.imp (congrArg Prod.fst) (congrArg Prod.fst)

/-- The pairs of another prayer have other names. -/
theorem prayerPairs_lookup_other (day : MuslimtifyDay) {type other : PrayerType}
    (h : other ≠ type) :
    (prayerPairs timeFormat day other).lookup (prayerKey type) = none ∧
      (prayerPairs timeFormat day other).lookup (prayerKey type ++ ascii "_offset") = none := by
  have hkey : prayerKey type ≠ prayerKey other := fun heq => h (prayerKey_inj heq).symm
  have hoffsets : prayerKey type ++ ascii "_offset" ≠ prayerKey other ++ ascii "_offset" :=
    fun heq => hkey (List.append_cancel_right heq)
  constructor
  all_goals
    refine List.lookup_eq_none_iff.mpr fun p hp => bne_iff_ne.mpr ?_
    rcases prayerPairs_names timeFormat day other p hp with hname | hname <;> rw [hname]
  · exact hkey
  · exact prayerKey_ne_offset type other
  · exact (prayerKey_ne_offset other type).symm
  · exact hoffsets

theorem lookup_dayPairs (day : MuslimtifyDay) (type : PrayerType) :
    (dayPairs timeFormat day).lookup (prayerKey type) =
        (prayerPairs timeFormat day type).lookup (prayerKey type) ∧
      (dayPairs timeFormat day).lookup (prayerKey type ++ ascii "_offset") =
        (prayerPairs timeFormat day type).lookup (prayerKey type ++ ascii "_offset") := by
  have hmem : type ∈ prayerTypes := by cases type <;> decide
  have hdate : ∀ type, (prayerKey type == ascii "date") = false := fun type =>
    beq_false_of_ne (prayerKey_ne_date type)
  have hdate' : ∀ type, (prayerKey type ++ ascii "_offset" == ascii "date") = false := by
    intro type
    cases type <;> decide
  rw [dayPairs, List.lookup_cons, List.lookup_cons, hdate, hdate']
  exact ⟨lookup_flatMap hmem fun _ h => (prayerPairs_lookup_other timeFormat day h).1,
    lookup_flatMap hmem fun _ h => (prayerPairs_lookup_other timeFormat day h).2⟩

theorem dayPairs_plain (day : MuslimtifyDay) :
    ∀ p ∈ dayPairs timeFormat day, 0x3d ∉ p.1 ∧ PlainText p.1 ∧ PlainText p.2 := by
  have hkey : ∀ type, 0x3d ∉ prayerKey type ∧ PlainText (prayerKey type) := by
    intro type
    cases type <;> decide
  have hoffset : ∀ type, 0x3d ∉ prayerKey type ++ ascii "_offset" ∧
      PlainText (prayerKey type ++ ascii "_offset") := by
    intro type
    cases type <;> decide
  have hdate : 0x3d ∉ ascii "date" ∧ PlainText (ascii "date") := by decide
  refine List.forall_mem_cons.mpr ⟨⟨hdate.1, hdate.2, dateText_plain _⟩, fun p hp => ?_⟩
  obtain ⟨type, -, hp⟩ := List.mem_flatMap.mp hp
  rw [prayerPairs] at hp
  split_ifs at hp <;> simp only [List.mem_cons, List.not_mem_nil, or_false] at hp
  · rw [hp]
    exact ⟨(hkey type).1, (hkey type).2, formatCell_plain timeFormat _ _⟩
  · rcases hp with rfl | rfl
    · exact ⟨(hkey type).1, (hkey type).2, formatCell_plain timeFormat _ _⟩
    · exact ⟨(hoffset type).1, (hoffset type).2, formatInt_plain _⟩

/-- The lines of a day. -/
def plainLines (day : MuslimtifyDay) : List CString :=
  (dayPairs timeFormat day).map fun p => p.1 ++ 0x3d :: p.2

theorem plainLines_plain (day : MuslimtifyDay) :
    ∀ line ∈ plainLines timeFormat day, line ≠ [] ∧ PlainText line := by
  refine List.forall_mem_map.mpr fun p hp => ?_
  obtain ⟨-, hname, hvalue⟩ := dayPairs_plain timeFormat day p hp
  exact ⟨by simp, hname.append (.cons (by decide) hvalue)⟩

theorem readPair_plainLines (day : MuslimtifyDay) :
    (plainLines timeFormat day).map (readPair 0x3d) = dayPairs timeFormat day := by
  rw [plainLines, List.map_map]
  exact (List.map_congr_left fun p hp =>
    readPair_line 0x3d (dayPairs_plain timeFormat day p hp).1 p.2).trans (List.map_id _)

/-- The pairs of a prayer tell what the day has of it, if it is enabled. -/
theorem readPrayerPairs_dayPairs {day : MuslimtifyDay} {type : PrayerType}
    (hp : PrayerInRange (day.prayers type)) :
    readPrayerPairs (dayPairs timeFormat day) type =
      if (day.prayers type).enabled then
        some ⟨(shownPrayer (day.prayers type)).minute, (day.prayers type).time.dayOffset⟩
      else none := by
  obtain ⟨hkey, hoffset⟩ := lookup_dayPairs timeFormat day type
  have hne : (prayerKey type ++ ascii "_offset" == prayerKey type) = false :=
    beq_false_of_ne (prayerKey_ne_offset type type).symm
  have hday : strtol (formatInt (day.prayers type).time.dayOffset) =
      (day.prayers type).time.dayOffset := by
    have h := hp.dayOffset
    refine strtol_text ?_
    simp only [longMin, longMax]
    omega
  rw [readPrayerPairs, hkey, hoffset, prayerPairs]
  cases (day.prayers type).enabled with
  | false => rfl
  | true =>
      rw [if_pos rfl, if_pos rfl, List.lookup_cons_self, Option.map_some, List.lookup_cons, hne]
      congr 2
      · exact formatCell_shown timeFormat hp.hour hp.minute
      · by_cases hzero : (day.prayers type).time.dayOffset = 0
        · rw [if_pos hzero, hzero]
          rfl
        · rw [if_neg hzero, List.lookup_cons_self, Option.map_some, Option.getD_some, hday]

theorem readDayLines_plainLines {day : MuslimtifyDay}
    (h : ∀ type, PrayerInRange (day.prayers type)) :
    readDayLines (plainLines timeFormat day) = some (listedDay (shownDay day)) := by
  have hdate : (dayPairs timeFormat day).lookup (ascii "date") = some (dateText day.date) :=
    List.lookup_cons_self
  rw [readDayLines, readPair_plainLines, hdate, Option.bind_some, scanDate_dateText, Option.map_some, listedDay, shownDay,
    List.map_map]
  congr 2
  exact List.map_congr_left fun type _ => readPrayerPairs_dayPairs timeFormat (h type)

end Reading

section Days
variable {H : Host} {cfg : Config} {now : Tm}

theorem completeLines_plain {lines : List CString} (h : ∀ line ∈ lines, PlainText line) :
    completeLines 0x0a (unlines 0x0a lines) = lines :=
  completeLines_unlines fun line hline => newline_of_plain (h line hline)

/-- The plain lines of a day, with colours or without, tell its date and its enabled prayers. -/
theorem day_plain_read (hc : cfg.InRange) {date : CivilDate} {day : ShownDay}
    (h : muslimtifyDayAt H cfg now date = .ok day) (useColors : Bool) (timeFormat : ℤ) :
    readDayLines (completeLines 0x0a (visible (displayDayPlain useColors timeFormat day))) =
      some (listedDay (shownDay day.toMuslimtifyDay)) := by
  obtain ⟨-, hrange⟩ := muslimtifyDayAt_inRange hc h
  have hplain := plainLines_plain timeFormat day.toMuslimtifyDay
  have htext : pairText (dayPairs timeFormat day.toMuslimtifyDay) =
      unlines 0x0a (plainLines timeFormat day.toMuslimtifyDay) := rfl
  rw [visible_displayDayPlain, htext, completeLines_plain fun line hline => (hplain line hline).2,
    readDayLines_plainLines timeFormat hrange]

theorem visible_displayRangePlain (useColors : Bool) (timeFormat : ℤ) (days : List MuslimtifyDay) :
    visible (displayRangePlain useColors timeFormat days) =
      unlines 0x0a ([[]].intercalate (days.map (plainLines timeFormat))) := by
  induction days with
  | nil => rfl
  | cons day rest ih =>
      have htext : pairText (dayPairs timeFormat day) =
          unlines 0x0a (plainLines timeFormat day) := rfl
      rw [displayRangePlain, List.append_assoc, visible_plainDay, htext]
      cases rest with
      | nil =>
          rw [List.map_singleton, List.intercalate_singleton]
          exact List.append_nil _
      | cons next rest =>
          rw [List.map_cons, List.map_cons, List.intercalate_cons_cons, unlines_append,
            unlines_append, ← List.map_cons, ← ih, List.append_assoc]
          rfl

theorem forall_mem_intercalate {ι : Type} {P : ι → Prop} {sep : List ι} {parts : List (List ι)}
    (h : ∀ part ∈ parts, ∀ x ∈ part, P x) (hsep : ∀ x ∈ sep, P x) :
    ∀ x ∈ sep.intercalate parts, P x := by
  induction parts with
  | nil => exact List.forall_mem_nil _
  | cons part rest ih =>
      obtain ⟨hpart, hrest⟩ := List.forall_mem_cons.mp h
      cases rest with
      | nil =>
          rw [List.intercalate_singleton]
          exact hpart
      | cons next rest =>
          rw [List.intercalate_cons_cons]
          exact List.forall_mem_append.mpr ⟨List.forall_mem_append.mpr ⟨hpart, hsep⟩, ih hrest⟩

/-- The blocks between the empty lines of a range are its days. -/
theorem range_plain_read (hc : cfg.InRange) {start end_ : CivilDate} {cap count : ℕ}
    (h : (muslimtifyRange H (some cfg) now start end_ cap count).error = .ok) (useColors : Bool)
    (timeFormat : ℤ) :
    let days := (muslimtifyRange H (some cfg) now start end_ cap count).out
    let lines := completeLines 0x0a
      (visible (displayRangePlain useColors timeFormat (days.map (·.toMuslimtifyDay))))
    (lines.splitOn []).map readDayLines =
      days.map fun day => some (listedDay (shownDay day.toMuslimtifyDay)) := by
  intro days lines
  have hrange : ∀ day ∈ days, ∀ type, PrayerInRange (day.prayers type) := by
    intro day hday
    obtain ⟨date, hdate⟩ := muslimtifyRange_each h day hday
    exact (muslimtifyDayAt_inRange hc hdate).2
  have hblock : ∀ block ∈ (days.map (·.toMuslimtifyDay)).map (plainLines timeFormat),
      ∀ line ∈ block, line ≠ [] ∧ PlainText line :=
    List.forall_mem_map.mpr fun day _ => plainLines_plain timeFormat day
  have hne : days ≠ [] := muslimtifyRange_ne_nil h
  have hlines : lines = [[]].intercalate
      ((days.map (·.toMuslimtifyDay)).map (plainLines timeFormat)) := by
    refine (congrArg _ (visible_displayRangePlain _ _ _)).trans (completeLines_plain ?_)
    exact forall_mem_intercalate (fun block hb line hline => (hblock block hb line hline).2)
      (List.forall_mem_singleton.mpr (by decide))
  rw [hlines, List.splitOn_intercalate [] (fun block hb hnil => (hblock block hb [] hnil).1 rfl)
    (by simpa using hne), List.map_map, List.map_map]
  exact List.map_congr_left fun day hday => readDayLines_plainLines timeFormat (hrange day hday)

theorem range_plain_read_north :
    let days := (muslimtifyRange (steadyHost juneTimes) (some farNorth) springEve ⟨2026, 2, 27⟩
      ⟨2026, 3, 1⟩ 366 0).out
    let lines := completeLines 0x0a
      (visible (displayRangePlain false 24 (days.map (·.toMuslimtifyDay))))
    (lines.splitOn []).map readDayLines =
      days.map fun day => some (listedDay (shownDay day.toMuslimtifyDay)) := by
  exact range_plain_read farNorth_inRange northRange_ok false 24

end Days

section Countdown
variable (timeFormat : ℤ) {H : Host} {cfg : Config} {now : Tm}

def readNextLines (lines : List CString) : Option NextShown := do
  let pairs := lines.map (readPair 0x3d)
  let date ← (pairs.lookup (ascii "date")).bind scanDate
  let prayer ← prayerTypes.find? fun type => (pairs.lookup (prayerKey type)).isSome
  let time ← pairs.lookup (prayerKey prayer)
  let minutesUntil ← (pairs.lookup (ascii "remaining")).bind scanMinutes
  return {
    date := date
    prayer := prayer
    minute := if time = ascii "--:--" then none else some (minuteShown time)
    minutesUntil := minutesUntil }

def nextPairs (next : MuslimtifyNext) (prayer : PrayerType) : List (CString × CString) :=
  [(ascii "date", dateText ⟨next.time.year, next.time.month, next.time.day⟩),
    (prayerKey prayer, formatCell next.time timeFormat false),
    (ascii "remaining", formatIntPad 2 (next.minutesUntil.tdiv 60) ++
      (ascii ":" ++ formatIntPad 2 (next.minutesUntil.tmod 60)))]

theorem displayNextPlain_text {next : MuslimtifyNext} {prayer : PrayerType}
    (h : next.prayer = some prayer) :
    displayNextPlain timeFormat next = pairText (nextPairs timeFormat next prayer) := by
  simp only [displayNextPlain, nextPrayerStrings, h, if_neg (Option.some_ne_none prayer),
    nextPairs, pairText_cons, List.flatten_cons, List.flatten_nil, List.append_assoc]
  rfl

/-- The plain lines of the upcoming prayer, read back; without one there is no pair. -/
theorem next_plain_read {next : MuslimtifyNext} (h : muslimtifyNextAt H cfg now = .ok next)
    (timeFormat : ℤ) :
    readNextLines (completeLines 0x0a (displayNextPlain timeFormat next)) = shownNext next := by
  obtain ⟨hh, hm⟩ := muslimtifyNextAt_inRange h
  cases hprayer : next.prayer with
  | none =>
      have hnone : displayNextPlain timeFormat next = ascii "No upcoming prayers enabled.\n" := by
        rw [displayNextPlain, hprayer]
      rw [hnone, shownNext, hprayer, Option.map_none]
      decide
  | some prayer =>
      have hkey := prayerKey_plain prayer
      have hsolid : 0x3d ∉ prayerKey prayer := by cases prayer <;> decide
      have hnames : ∀ p ∈ nextPairs timeFormat next prayer, 0x3d ∉ p.1 := by
        simp only [nextPairs, List.forall_mem_cons]
        exact ⟨by decide, hsolid, by decide, List.forall_mem_nil _⟩
      have hlines : ∀ p ∈ nextPairs timeFormat next prayer, 0x0a ∉ p.1 ∧ 0x0a ∉ p.2 := by
        simp only [nextPairs, List.forall_mem_cons]
        exact ⟨⟨by decide, newline_of_plain (dateText_plain _)⟩,
          ⟨newline_of_plain hkey, newline_of_plain (formatCell_plain timeFormat _ _)⟩,
          ⟨by decide, newline_of_plain (remaining_plain _)⟩, List.forall_mem_nil _⟩
      have hpairs := readPairs_pairLines hnames hlines (by decide)
      have hdate : (nextPairs timeFormat next prayer).lookup (ascii "date") =
          some (dateText ⟨next.time.year, next.time.month, next.time.day⟩) := List.lookup_cons_self
      have htime : (nextPairs timeFormat next prayer).lookup (prayerKey prayer) =
          some (formatCell next.time timeFormat false) := by
        rw [nextPairs, List.lookup_cons, beq_false_of_ne (prayerKey_ne_date prayer)]
        exact List.lookup_cons_self
      have hremaining : (nextPairs timeFormat next prayer).lookup (ascii "remaining") =
          some (formatIntPad 2 (next.minutesUntil.tdiv 60) ++
            (ascii ":" ++ formatIntPad 2 (next.minutesUntil.tmod 60))) := by
        cases prayer <;> rfl
      have hfind : (prayerTypes.find? fun type =>
          ((nextPairs timeFormat next prayer).lookup (prayerKey type)).isSome) = some prayer := by
        cases prayer <;> rfl
      rw [displayNextPlain_text timeFormat hprayer, readNextLines, pairText, hpairs]
      simp only [hdate, htime, hremaining, hfind, Option.bind_eq_bind, Option.bind_some,
        scanDate_dateText, scanMinutes_text, formatCell_shown timeFormat hh hm, shownNext, hprayer]
      rfl

end Countdown

end Muslimtify.DisplayPlain
