import Muslimtify.DisplayPlain
import Muslimtify.SettingsDisplay

/-!
# What the display prints of the settings as lines

The location and the notification settings as tables and as lines for a script.
The location's table is as wide as its longest value, so it is aligned whatever
the names are; the other one is of a fixed width and gives a count where a list
of reminders does not fit. The lines for a script give everything in full, and
tell what the JSON of the same settings tells.
-/
namespace Muslimtify.SettingsTables
open CText CDouble CivilDays JsonWriter JsonPrinting Settings ConfigFile ConfigRoundTrip Schedule Detection
  PublicTimes NextPrayer TriggerPartition Display DisplayTables DisplayPlain TextTables LineStream
  Handle SettingsView SettingsDisplay JsonReader

section Location

def locBorder (nw vw : ℕ) : CString :=
  ascii "+" ++ List.replicate (nw + 2) 0x2d ++ ascii "+" ++ List.replicate (vw + 2) 0x2d ++
    ascii "+" ++ ascii "\n"

def locationRows (loc : MuslimtifyLocation) : List (CString × CString) :=
  let refresh :=
    if loc.refreshInterval ≤ 0 then printed 24 (ascii "disabled")
    else printed 24 (formatInt loc.refreshInterval ++ ascii "s")
  [(ascii "coordinates", coordinates loc), (ascii "city", loc.city.text),
    (ascii "country", loc.country.text), (ascii "timezone", loc.timezone.text),
    (ascii "gmt", gmt loc), (ascii "refresh_interval", refresh),
    (ascii "gps", if loc.gps then ascii "enabled" else ascii "disabled")]

/-- The loop over the rows that widens a column. -/
def widest (texts : List CString) (start : ℕ) : ℕ :=
  texts.foldl (fun w s => if w < s.length then s.length else w) start

def printLocationRow (nw vw : ℕ) (name value : CString) : CString :=
  ascii "| " ++ column nw name ++ ascii " | " ++ column vw value ++ ascii " |\n"

def displayLocation (loc : MuslimtifyLocation) : CString :=
  let rows := locationRows loc
  let nw := widest (rows.map Prod.fst) (ascii "Name").length
  let vw := widest (rows.map Prod.snd) (ascii "Value").length
  locBorder nw vw ++ printLocationRow nw vw (ascii "Name") (ascii "Value") ++ locBorder nw vw ++
    rows.flatMap (fun r => printLocationRow nw vw r.1 r.2) ++ locBorder nw vw

def displayLocationHeadless (loc : MuslimtifyLocation) : CString :=
  [ascii "coordinates=", formatFixed 4 loc.latitude, ascii ",", formatFixed 4 loc.longitude,
    ascii "\n", ascii "city=", loc.city.text, ascii "\n", ascii "country=", loc.country.text,
    ascii "\n", ascii "timezone=", loc.timezone.text, ascii "\n", ascii "gmt=UTC",
    formatSigned 1 loc.utcOffset, ascii "\n", ascii "gps=", boolText loc.gps, ascii "\n",
    ascii "refresh_interval=", formatInt loc.refreshInterval, ascii "\n"].flatten

/-- The columns are as wide as their widest text. -/
theorem le_widest {texts : List CString} (start : ℕ) :
    start ≤ widest texts start ∧ ∀ s ∈ texts, s.length ≤ widest texts start := by
  induction texts generalizing start with
  | nil => exact ⟨le_rfl, List.forall_mem_nil _⟩
  | cons t texts ih =>
      obtain ⟨hstart, htexts⟩ := ih (if start < t.length then t.length else start)
      have hboth : start ≤ (if start < t.length then t.length else start) ∧
          t.length ≤ if start < t.length then t.length else start := by
        split_ifs <;> omega
      exact ⟨hboth.1.trans hstart, List.forall_mem_cons.mpr ⟨hboth.2.trans hstart, htexts⟩⟩

theorem locBorder_rule (nw vw : ℕ) (t : CString) :
    locBorder nw vw ++ t = rule 0x2b 0x2d [nw, vw] ++ 0x0a :: t := by
  rw [locBorder, rule]
  simp only [List.flatMap_cons, List.flatMap_nil, List.append_assoc, List.cons_append,
    List.append_nil]
  rfl

def locationCells (nw vw : ℕ) (r : CString × CString) : List (Cell UInt8) :=
  [⟨0x20, nw, r.1⟩, ⟨0x20, vw, r.2⟩]

theorem printLocationRow_row (nw vw : ℕ) (r : CString × CString) (t : CString) :
    printLocationRow nw vw r.1 r.2 ++ t = row 0x20 0x7c (locationCells nw vw r) ++ 0x0a :: t := by
  rw [printLocationRow, row]
  simp only [locationCells, List.flatMap_cons, List.flatMap_nil, Cell.printed, List.append_assoc,
    List.cons_append, List.nil_append]
  rfl

/-- The lines of a location's table with these columns. -/
def locationTable (nw vw : ℕ) (rows : List (CString × CString)) : List CString :=
  let edge := rule 0x2b 0x2d [nw, vw]
  [edge, row 0x20 0x7c (locationCells nw vw (ascii "Name", ascii "Value")), edge] ++
    (rows.map fun r => row 0x20 0x7c (locationCells nw vw r)) ++ [edge]

theorem displayLocation_lines (loc : MuslimtifyLocation) :
    displayLocation loc = unlines 0x0a (locationTable
      (widest ((locationRows loc).map Prod.fst) (ascii "Name").length)
      (widest ((locationRows loc).map Prod.snd) (ascii "Value").length) (locationRows loc)) := by
  have hrows : ∀ (nw vw : ℕ) (rows : List (CString × CString)) t,
      rows.flatMap (fun r => printLocationRow nw vw r.1 r.2) ++ t =
        unlines 0x0a (rows.map fun r => row 0x20 0x7c (locationCells nw vw r)) ++ t := by
    intro nw vw rows t
    induction rows with
    | nil => rfl
    | cons r rows ih =>
        rw [List.flatMap_cons, List.append_assoc, ih, printLocationRow_row, List.map_cons,
          unlines_cons]
        simp only [List.append_assoc, List.cons_append]
  rw [displayLocation]
  generalize widest ((locationRows loc).map Prod.fst) (ascii "Name").length = nw
  generalize widest ((locationRows loc).map Prod.snd) (ascii "Value").length = vw
  have hheader := printLocationRow_row nw vw (ascii "Name", ascii "Value")
  have hbottom : locBorder nw vw = rule 0x2b 0x2d [nw, vw] ++ [0x0a] := by
    have h := locBorder_rule nw vw []
    rwa [List.append_nil] at h
  dsimp only at hheader ⊢
  rw [List.append_assoc, List.append_assoc, List.append_assoc, locBorder_rule, hheader,
    locBorder_rule, hrows, hbottom, locationTable, unlines_append, unlines_append]
  simp only [unlines_cons, List.append_assoc, List.cons_append]
  rfl

/-- Names that stay on their line. -/
structure LineNames (loc : MuslimtifyLocation) : Prop where
  city : 0x0a ∉ loc.city.text
  country : 0x0a ∉ loc.country.text
  timezone : 0x0a ∉ loc.timezone.text

theorem refresh_plain (n : ℤ) :
    PlainText (if n ≤ 0 then printed 24 (ascii "disabled")
      else printed 24 (formatInt n ++ ascii "s")) := by
  have hsuffix : PlainText (ascii "s") := by decide
  split_ifs
  · exact (by decide : PlainText (printed 24 (ascii "disabled")))
  · exact fun b hb => ((formatInt_plain n).append hsuffix) b (List.mem_of_mem_take hb)

theorem locationRows_line {loc : MuslimtifyLocation} (h : LineNames loc) :
    ∀ r ∈ locationRows loc, 0x0a ∉ r.1 ∧ 0x0a ∉ r.2 := by
  have hgps : ∀ b : Bool, 0x0a ∉ if b then ascii "enabled" else ascii "disabled" := by
    intro b
    cases b <;> decide
  simp only [locationRows, List.forall_mem_cons]
  exact ⟨⟨by decide, newline_of_plain (coordinates_plain loc)⟩, ⟨by decide, h.city⟩,
    ⟨by decide, h.country⟩, ⟨by decide, h.timezone⟩,
    ⟨by decide, newline_of_plain (gmt_plain loc)⟩,
    ⟨by decide, newline_of_plain (refresh_plain loc.refreshInterval)⟩, ⟨by decide, hgps _⟩,
    List.forall_mem_nil _⟩

theorem locationRows_last (loc : MuslimtifyLocation) :
    ∀ r ∈ locationRows loc, r.1.getLast? ≠ some 0x20 := by
  have hnames : ∀ name ∈ (locationRows loc).map Prod.fst, name.getLast? ≠ some 0x20 :=
    (by decide : ∀ name ∈ ([ascii "coordinates", ascii "city", ascii "country", ascii "timezone",
      ascii "gmt", ascii "refresh_interval", ascii "gps"] : List CString),
      name.getLast? ≠ some 0x20)
  exact fun r hr => hnames _ (List.mem_map_of_mem hr)

theorem newline_row {cells : List (Cell UInt8)} (h : ∀ c ∈ cells, c.lead ≠ 0x0a ∧ 0x0a ∉ c.text) :
    0x0a ∉ row 0x20 0x7c cells := by
  have hpad : ∀ n, 0x0a ∉ List.replicate n (0x20 : UInt8) := fun n hb =>
    absurd (List.eq_of_mem_replicate hb) (by decide)
  intro hmem
  rcases List.mem_append.mp hmem with hmem | hmem
  · obtain ⟨c, hc, hb⟩ := List.mem_flatMap.mp hmem
    have hlead := (h c hc).1.symm
    simp only [Cell.printed, padRight, List.mem_cons, List.mem_append, hlead, (h c hc).2, hpad,
      List.not_mem_nil, or_false, false_or] at hb
    exact absurd hb (by decide)
  · exact absurd hmem (by decide)

/-- The table of a location has lines of one length whatever the names are, as long as each stays
on its line, and its rows give every name and value up to blanks behind it. -/
theorem location_table_aligned {loc : MuslimtifyLocation} (h : LineNames loc) :
    ∃ (widths : List ℕ) (top rows bottom : List CString),
      completeLines 0x0a (displayLocation loc) = top ++ rows ++ bottom ∧
      (∀ line ∈ top ++ rows ++ bottom, line.length = rowLength widths) ∧
      rows.map (readRow 0x20 widths) =
        (locationRows loc).map fun r => [r.1, trimRight 0x20 r.2] := by
  have hline := locationRows_line h
  obtain ⟨hname, hnames⟩ := @le_widest ((locationRows loc).map Prod.fst) (ascii "Name").length
  obtain ⟨hvalue, hvalues⟩ := @le_widest ((locationRows loc).map Prod.snd) (ascii "Value").length
  have hlines := displayLocation_lines loc
  generalize widest ((locationRows loc).map Prod.fst) (ascii "Name").length = nw at *
  generalize widest ((locationRows loc).map Prod.snd) (ascii "Value").length = vw at *
  have hcells : ∀ r : CString × CString, r.1.length ≤ nw → r.2.length ≤ vw →
      ∀ c ∈ locationCells nw vw r, c.text.length ≤ c.width := fun r h₁ h₂ =>
    List.forall_mem_cons.mpr ⟨h₁, List.forall_mem_cons.mpr ⟨h₂, List.forall_mem_nil _⟩⟩
  have hrow : ∀ r ∈ locationRows loc, ∀ c ∈ locationCells nw vw r, c.text.length ≤ c.width :=
    fun r hr => hcells r (hnames _ (List.mem_map_of_mem hr)) (hvalues _ (List.mem_map_of_mem hr))
  have hblank : (0x20 : UInt8) ≠ 0x0a := by decide
  have hbytes : ∀ r : CString × CString, 0x0a ∉ r.1 ∧ 0x0a ∉ r.2 →
      0x0a ∉ row 0x20 0x7c (locationCells nw vw r) := fun r hr => newline_row
    (List.forall_mem_cons.mpr ⟨⟨hblank, hr.1⟩, List.forall_mem_cons.mpr ⟨⟨hblank, hr.2⟩,
      List.forall_mem_nil _⟩⟩)
  have hedge : (rule 0x2b 0x2d [nw, vw] : CString).length = rowLength [nw, vw] ∧
      0x0a ∉ (rule 0x2b 0x2d [nw, vw] : CString) := by
    refine ⟨rule_length _ _ _, fun hb => ?_⟩
    rcases mem_rule hb with h | h <;> exact absurd h (by decide)
  have hshape : ∀ line ∈ locationTable nw vw (locationRows loc),
      line.length = rowLength [nw, vw] ∧ 0x0a ∉ line := by
    simp only [locationTable, List.forall_mem_append, List.forall_mem_cons, List.forall_mem_map]
    exact ⟨⟨⟨hedge, ⟨row_length 0x20 0x7c (hcells _ hname hvalue), hbytes _ (by decide)⟩, hedge,
      List.forall_mem_nil _⟩, fun r hr => ⟨row_length 0x20 0x7c (hrow r hr), hbytes r (hline r hr)⟩⟩,
      hedge, List.forall_mem_nil _⟩
  refine ⟨[nw, vw], _, _, _, ?_, fun line hl => (hshape line hl).1, ?_⟩
  · rw [hlines, completeLines_unlines fun line hl => (hshape line hl).2]
    rfl
  · rw [List.map_map]
    refine List.map_congr_left fun r hr => (readRow_trimmed 0x20 0x7c (hrow r hr)).trans ?_
    rw [locationCells, List.map_cons, trimRight_self 0x20 (locationRows_last loc r hr)]
    rfl

theorem lineNames_north :
    LineNames (muslimtifyGetLocation springHost farNorth ⟨2026, 6, 17⟩) := by
  constructor <;> decide

def locationPairs (loc : MuslimtifyLocation) : List (CString × CString) :=
  [(ascii "coordinates", formatFixed 4 loc.latitude ++ ascii "," ++ formatFixed 4 loc.longitude),
    (ascii "city", loc.city.text), (ascii "country", loc.country.text),
    (ascii "timezone", loc.timezone.text), (ascii "gmt", ascii "UTC" ++ formatSigned 1 loc.utcOffset),
    (ascii "gps", boolText loc.gps), (ascii "refresh_interval", formatInt loc.refreshInterval)]

theorem displayLocationHeadless_text (loc : MuslimtifyLocation) :
    displayLocationHeadless loc = pairText (locationPairs loc) := by
  simp only [displayLocationHeadless, locationPairs, pairText_cons, List.flatten_cons,
    List.flatten_nil, List.append_assoc]
  rfl

def readLocationLines (lines : List CString) : Option LocationShown := do
  let pairs := lines.map (readPair 0x3d)
  let coordinates ← pairs.lookup (ascii "coordinates")
  let city ← pairs.lookup (ascii "city")
  let country ← pairs.lookup (ascii "country")
  let timezone ← pairs.lookup (ascii "timezone")
  let gmt ← pairs.lookup (ascii "gmt")
  let gps ← pairs.lookup (ascii "gps")
  let refreshInterval ← pairs.lookup (ascii "refresh_interval")
  return {
    coordinates := coordinates
    city := city
    country := country
    timezone := timezone
    gmt := gmt
    gps := isTrue gps
    refreshInterval := strtol refreshInterval }

theorem formatSigned_plain (k : ℕ) (x : Double) : PlainText (formatSigned k x) := by
  unfold formatSigned
  split_ifs
  · exact formatFixed_plain k x
  · exact .cons (by decide) (formatFixed_plain k x)

theorem locationPairs_line {loc : MuslimtifyLocation} (h : LineNames loc) :
    (∀ p ∈ locationPairs loc, 0x3d ∉ p.1) ∧ ∀ p ∈ locationPairs loc, 0x0a ∉ p.1 ∧ 0x0a ∉ p.2 := by
  have hcoords : PlainText (formatFixed 4 loc.latitude ++ ascii "," ++ formatFixed 4 loc.longitude) :=
    ((formatFixed_plain 4 _).append (by decide)).append (formatFixed_plain 4 _)
  have hutc : PlainText (ascii "UTC") := by decide
  have hgps : ∀ b, 0x0a ∉ boolText b := by
    intro b
    cases b <;> decide
  simp only [locationPairs, List.forall_mem_cons]
  exact ⟨⟨by decide, by decide, by decide, by decide, by decide, by decide, by decide,
    List.forall_mem_nil _⟩, ⟨by decide, newline_of_plain hcoords⟩, ⟨by decide, h.city⟩,
    ⟨by decide, h.country⟩, ⟨by decide, h.timezone⟩,
    ⟨by decide, newline_of_plain (hutc.append (formatSigned_plain 1 _))⟩, ⟨by decide, hgps _⟩,
    ⟨by decide, newline_of_plain (formatInt_plain _)⟩, List.forall_mem_nil _⟩

/-- The lines of a location give its names back, whatever else is in them, and the coordinates to
four decimals, not cut off where the JSON has them cut off. -/
theorem location_headless_read {cfg : Config} (hc : cfg.InRange) (H : Host) (today : CivilDate)
    (h : LineNames (muslimtifyGetLocation H cfg today)) :
    ∃ shown : LocationShown,
      readLocationLines (completeLines 0x0a
        (displayLocationHeadless (muslimtifyGetLocation H cfg today))) = some shown ∧
      shown.city = cfg.city.text ∧ shown.country = cfg.country.text ∧
      shown.timezone = cfg.timezone.text ∧ shown.gps = cfg.useGps ∧
      shown.refreshInterval = cfg.refreshInterval ∧
      readCoordinates shown.coordinates =
        some (cfg.latitude.rounded 4, cfg.longitude.rounded 4) ∧
      printed 16 shown.gmt = gmt (muslimtifyGetLocation H cfg today) ∧
      (muslimtifyHasLocation cfg = true →
        shown.coordinates = coordinates (muslimtifyGetLocation H cfg today)) := by
  obtain ⟨hnames, hlines⟩ := locationPairs_line h
  have hcity : (muslimtifyGetLocation H cfg today).city = cfg.city := copyString_text _
  have hcountry : (muslimtifyGetLocation H cfg today).country = cfg.country := copyString_text _
  have htimezone : (muslimtifyGetLocation H cfg today).timezone = cfg.timezone := copyString_text _
  have hpairs := readPairs_pairLines hnames hlines (by decide)
  have hrefresh := strtol_text hc.refreshInterval
  generalize hloc : muslimtifyGetLocation H cfg today = loc at *
  have hread : readLocationLines (completeLines 0x0a (displayLocationHeadless loc)) = some
      { coordinates := formatFixed 4 loc.latitude ++ ascii "," ++ formatFixed 4 loc.longitude
        city := loc.city.text, country := loc.country.text, timezone := loc.timezone.text
        gmt := ascii "UTC" ++ formatSigned 1 loc.utcOffset, gps := isTrue (boolText loc.gps)
        refreshInterval := strtol (formatInt loc.refreshInterval) } := by
    rw [displayLocationHeadless_text, readLocationLines, pairText, hpairs]
    rfl
  subst hloc
  refine ⟨_, hread, congrArg CBuffer.text hcity, congrArg CBuffer.text hcountry,
    congrArg CBuffer.text htimezone, isTrue_boolText _, hrefresh, ?_, rfl, fun hset => ?_⟩
  · dsimp only
    rw [List.append_assoc]
    exact readCoordinates_pair _ _
  · simp only [muslimtifyHasLocation, Bool.and_eq_true] at hset
    dsimp only
    rw [List.append_assoc]
    exact (coordinates_full hset.1.2 hset.2).symm

theorem location_headless_read_north : ∃ shown : LocationShown,
    readLocationLines (completeLines 0x0a
      (displayLocationHeadless (muslimtifyGetLocation springHost farNorth ⟨2026, 6, 17⟩))) =
      some shown ∧ shown.city = farNorth.city.text := by
  obtain ⟨shown, hread, hcity, -⟩ :=
    location_headless_read farNorth_inRange springHost ⟨2026, 6, 17⟩ lineNames_north
  exact ⟨shown, hread, hcity⟩

end Location

section Reminders

/-- The minutes with commas as far as `cap` bytes take them, with the position behind the
last one that fits. -/
def joinReminders (cap : ℕ) : CString → Bool → List ℤ → CString × ℕ
  | out, _, [] => (out, out.length)
  | out, first, r :: rest =>
      let text := (if first then [] else ascii ",") ++ formatInt r
      if cap - out.length ≤ text.length then (printed cap (out ++ text), out.length)
      else joinReminders cap (out ++ text) false rest

def formatReminders (p : MuslimtifyPrayerSettings) (width cap : ℕ) : CString :=
  if p.reminders.items.isEmpty then printed cap (ascii "none")
  else
    let (out, pos) := joinReminders cap [] true p.reminders.items
    if width < pos then printed cap (formatInt p.reminders.items.length ++ ascii " reminders")
    else out

/-- The minutes with commas between them. -/
def minutesText (rs : List ℤ) : CString := [comma].intercalate (rs.map formatInt)

/-- The minutes behind the first. -/
def moreMinutes (rs : List ℤ) : CString := rs.flatMap fun r => ascii "," ++ formatInt r

theorem minutesText_cons (r : ℤ) (rs : List ℤ) :
    minutesText (r :: rs) = formatInt r ++ moreMinutes rs := by
  induction rs generalizing r with
  | nil => exact List.intercalate_singleton.trans (List.append_nil _).symm
  | cons s rs ih =>
      have hmore : moreMinutes (s :: rs) = ascii "," ++ formatInt s ++ moreMinutes rs := rfl
      rw [minutesText, List.map_cons, List.map_cons, List.intercalate_cons_cons, ← List.map_cons,
        ← minutesText, ih, hmore, List.append_assoc, List.append_assoc]
      rfl

theorem joinReminders_more {cap : ℕ} {rs : List ℤ} {out : CString}
    (h : out.length + (moreMinutes rs).length < cap) :
    joinReminders cap out false rs = (out ++ moreMinutes rs, (out ++ moreMinutes rs).length) := by
  induction rs generalizing out with
  | nil => rw [joinReminders, show moreMinutes [] = [] from rfl, List.append_nil]
  | cons r rs ih =>
      rw [moreMinutes, List.flatMap_cons, ← moreMinutes] at h ⊢
      rw [List.length_append] at h
      rw [joinReminders, if_neg Bool.false_ne_true, if_neg (by omega), ih, List.append_assoc]
      rw [List.length_append]
      omega

theorem joinReminders_text {cap : ℕ} {rs : List ℤ} (h : (minutesText rs).length < cap) :
    joinReminders cap [] true rs = (minutesText rs, (minutesText rs).length) := by
  cases rs with
  | nil => rfl
  | cons r rs =>
      rw [minutesText_cons, List.length_append] at h
      rw [joinReminders, if_pos rfl, List.nil_append, if_neg (by simp only [List.length_nil]; omega),
        List.nil_append, joinReminders_more h, minutesText_cons]

theorem minutesText_length {rs : List ℤ} (h : ∀ r ∈ rs, 1 ≤ r ∧ r ≤ 1440) :
    (minutesText rs).length ≤ 5 * rs.length := by
  have hmore : ∀ rs : List ℤ, (∀ r ∈ rs, 1 ≤ r ∧ r ≤ 1440) →
      (moreMinutes rs).length ≤ 5 * rs.length := by
    intro rs h
    induction rs with
    | nil => exact le_rfl
    | cons r rs ih =>
        obtain ⟨hr, hrs⟩ := List.forall_mem_cons.mp h
        have hlen := formatInt_short (k := 4) (by decide) (by omega : 0 ≤ r ∧ r < 10 ^ 4)
        have ih := ih hrs
        rw [moreMinutes, List.flatMap_cons, ← moreMinutes, List.length_append,
          List.length_append, List.length_cons, show (ascii ",").length = 1 from rfl]
        omega
  cases rs with
  | nil => exact le_rfl
  | cons r rs =>
      obtain ⟨hr, hrs⟩ := List.forall_mem_cons.mp h
      have hlen := formatInt_short (k := 4) (by decide) (by omega : 0 ≤ r ∧ r < 10 ^ 4)
      have hrest := hmore rs hrs
      rw [minutesText_cons, List.length_append, List.length_cons]
      omega

/-- The list in full where it fits, and otherwise its length. -/
theorem formatReminders_text {p : MuslimtifyPrayerSettings} (hne : p.reminders.items ≠ [])
    (h : ∀ r ∈ p.reminders.items, 1 ≤ r ∧ r ≤ 1440) (width : ℕ) :
    formatReminders p width 64 =
      if width < (minutesText p.reminders.items).length then
        formatInt p.reminders.items.length ++ ascii " reminders"
      else minutesText p.reminders.items := by
  have hcount := p.reminders.fits
  have hmax : maxReminders = 10 := rfl
  have hlen := minutesText_length h
  have hnumber := formatInt_short (r := p.reminders.items.length) (k := 2) (by decide) (by omega)
  have hempty : p.reminders.items.isEmpty = false := by simpa using hne
  rw [formatReminders, hempty, joinReminders_text (by omega), if_neg (by decide)]
  dsimp only
  rw [printed, List.take_of_length_le]
  rw [List.length_append, show (ascii " reminders").length = 10 from rfl]
  omega

theorem minutesText_plain (rs : List ℤ) : PlainText (minutesText rs) :=
  forall_mem_intercalate (List.forall_mem_map.mpr fun r _ => formatInt_plain r)
    (List.forall_mem_singleton.mpr (by decide))

def readMinutes (text : CString) : List ℤ :=
  if text = ascii "none" then [] else (text.splitOn comma).map strtol

theorem formatInt_bytes (z : ℤ) : ∀ b ∈ formatInt z, isDigit b = true ∨ b = 0x2d := by
  unfold formatInt
  split_ifs
  · exact List.forall_mem_cons.mpr ⟨Or.inr rfl, fun b hb => Or.inl (decimal_isDigit _ b hb)⟩
  · exact fun b hb => Or.inl (decimal_isDigit _ b hb)

/-- A list of minutes is read back, however long it is. -/
theorem readMinutes_text {p : MuslimtifyPrayerSettings}
    (h : ∀ r ∈ p.reminders.items, 1 ≤ r ∧ r ≤ 1440) :
    readMinutes (formatReminders p 64 64) = p.reminders.items := by
  by_cases hne : p.reminders.items = []
  · rw [formatReminders, hne]
    rfl
  · have hcount := p.reminders.fits
    have hmax : maxReminders = 10 := rfl
    have hlen := minutesText_length h
    rw [formatReminders_text hne h, if_neg (by omega), readMinutes]
    have hcomma : ∀ r ∈ p.reminders.items, comma ∉ formatInt r := fun r _ hb => by
      rcases formatInt_bytes r comma hb with hb | hb <;> exact absurd hb (by decide)
    have hword : minutesText p.reminders.items ≠ ascii "none" := by
      have hbytes : ∀ b ∈ minutesText p.reminders.items, b ≠ 0x6e :=
        forall_mem_intercalate (List.forall_mem_map.mpr fun r _ b hb heq => by
          rcases formatInt_bytes r b hb with hb | hb <;> exact absurd (heq ▸ hb) (by decide))
          (List.forall_mem_singleton.mpr (by decide))
      intro heq
      exact hbytes 0x6e (heq ▸ by decide) rfl
    rw [if_neg hword, minutesText, List.splitOn_intercalate comma
      (List.forall_mem_map.mpr hcomma) (by simpa using hne), List.map_map]
    refine (List.map_congr_left fun r hr => ?_).trans (List.map_id _)
    have hr := h r hr
    exact strtol_text (by simp only [longMin, longMax]; omega)

end Reminders

section Notification

def printSettingsRow (prayer enabled reminders adhan : CString) : CString :=
  [ascii "| ", column 7 prayer, ascii " | ", column 7 enabled, ascii " | ", column 13 reminders,
    ascii " | ", column 5 adhan, ascii " |\n"].flatten

def displayNotificationSettings (n : MuslimtifyNotification) : CString :=
  ascii "+---------+---------+---------------+-------+\n" ++
    printSettingsRow (ascii "Prayer") (ascii "Enabled") (ascii "Reminders") (ascii "Adhan") ++
    ascii "+---------+---------+---------------+-------+\n" ++
    prayerTypes.flatMap (fun type =>
      let p := n.prayers type
      printSettingsRow (prayerKey type) (if p.enabled then ascii "yes" else ascii "no")
        (formatReminders p 13 64) (if p.adhanEnabled then ascii "on" else ascii "off")) ++
    ascii "+---------+---------+---------------+-------+\n" ++
    [ascii "sound: ", muslimtifySoundModeKey n.soundMode, ascii "\n", ascii "urgency: ",
      muslimtifyUrgencyKey n.urgency, ascii "\n"].flatten

def displayNotificationSettingsHeadless (n : MuslimtifyNotification) : CString :=
  [ascii "sound=", muslimtifySoundModeKey n.soundMode, ascii "\n", ascii "urgency=",
    muslimtifyUrgencyKey n.urgency, ascii "\n"].flatten ++
    prayerTypes.flatMap fun type =>
      let p := n.prayers type
      let key := prayerKey type
      [key, ascii ".enabled=", boolText p.enabled, ascii "\n", key, ascii ".reminders=",
        formatReminders p 64 64, ascii "\n", key, ascii ".adhan=", boolText p.adhanEnabled,
        ascii "\n"].flatten

variable {cfg : Config}

def settingsPairs (n : MuslimtifyNotification) (type : PrayerType) : List (CString × CString) :=
  let p := n.prayers type
  [(prayerKey type ++ ascii ".enabled", boolText p.enabled),
    (prayerKey type ++ ascii ".reminders", formatReminders p 64 64),
    (prayerKey type ++ ascii ".adhan", boolText p.adhanEnabled)]

def notificationPairs (n : MuslimtifyNotification) : List (CString × CString) :=
  (ascii "sound", muslimtifySoundModeKey n.soundMode) ::
    (ascii "urgency", muslimtifyUrgencyKey n.urgency) :: prayerTypes.flatMap (settingsPairs n)

theorem displayNotificationSettingsHeadless_text (n : MuslimtifyNotification) :
    displayNotificationSettingsHeadless n = pairText (notificationPairs n) := by
  have hprayers : ∀ types : List PrayerType, (types.flatMap fun type =>
      let p := n.prayers type
      let key := prayerKey type
      [key, ascii ".enabled=", boolText p.enabled, ascii "\n", key, ascii ".reminders=",
        formatReminders p 64 64, ascii "\n", key, ascii ".adhan=", boolText p.adhanEnabled,
        ascii "\n"].flatten) = pairText (types.flatMap (settingsPairs n)) := by
    intro types
    induction types with
    | nil => rfl
    | cons type types ih =>
        rw [List.flatMap_cons, ih, List.flatMap_cons, pairText_append]
        simp only [settingsPairs, pairText_cons, show pairText [] = [] from rfl, List.flatten_cons,
          List.flatten_nil, List.append_assoc, List.nil_append, List.cons_append]
        rfl
  rw [displayNotificationSettingsHeadless, hprayers]
  simp only [notificationPairs, pairText_cons, List.flatten_cons, List.flatten_nil,
    List.append_assoc]
  rfl

def readSettingsPairs (pairs : List (CString × CString)) (type : PrayerType) :
    Option (Bool × List ℤ × Bool) := do
  let enabled ← pairs.lookup (prayerKey type ++ ascii ".enabled")
  let reminders ← pairs.lookup (prayerKey type ++ ascii ".reminders")
  let adhan ← pairs.lookup (prayerKey type ++ ascii ".adhan")
  return (isTrue enabled, readMinutes reminders, isTrue adhan)

/-- The sound, the urgency, and for each prayer its flags and its minutes. -/
def readNotificationLines (lines : List CString) :
    Option (CString × CString × List (Bool × List ℤ × Bool)) := do
  let pairs := lines.map (readPair 0x3d)
  let sound ← pairs.lookup (ascii "sound")
  let urgency ← pairs.lookup (ascii "urgency")
  let prayers ← prayerTypes.mapM (readSettingsPairs pairs)
  return (sound, urgency, prayers)

def suffixes : List CString := [ascii ".enabled", ascii ".reminders", ascii ".adhan"]

theorem prayerKey_suffix {a b : PrayerType} {s t : CString} (hs : s ∈ suffixes) (ht : t ∈ suffixes)
    (h : prayerKey a ++ s = prayerKey b ++ t) : a = b := by
  have hall : ∀ s ∈ suffixes, ∀ t ∈ suffixes, prayerKey a ++ s = prayerKey b ++ t → a = b := by
    cases a <;> cases b <;> decide
  exact hall s hs t ht h

theorem notificationPairs_lookup (n : MuslimtifyNotification) (type : PrayerType) {suffix : CString}
    (hs : suffix ∈ suffixes) :
    (notificationPairs n).lookup (prayerKey type ++ suffix) =
      (settingsPairs n type).lookup (prayerKey type ++ suffix) := by
  have hother : ∀ s ∈ suffixes, (prayerKey type ++ s == ascii "sound") = false ∧
      (prayerKey type ++ s == ascii "urgency") = false := by
    cases type <;> decide
  obtain ⟨hsound, hurgency⟩ := hother suffix hs
  rw [notificationPairs, List.lookup_cons, hsound, List.lookup_cons, hurgency]
  refine lookup_flatMap (by cases type <;> decide) fun other hne =>
    List.lookup_eq_none_iff.mpr fun p hp => bne_iff_ne.mpr fun heq => hne ?_
  simp only [settingsPairs, List.mem_cons, List.not_mem_nil, or_false] at hp
  rcases hp with rfl | rfl | rfl
  · exact (prayerKey_suffix hs (by decide) heq).symm
  · exact (prayerKey_suffix hs (by decide) heq).symm
  · exact (prayerKey_suffix hs (by decide) heq).symm

theorem formatReminders_plain {p : MuslimtifyPrayerSettings}
    (h : ∀ r ∈ p.reminders.items, 1 ≤ r ∧ r ≤ 1440) (width : ℕ) :
    PlainText (formatReminders p width 64) := by
  by_cases hne : p.reminders.items = []
  · have hnone : formatReminders p width 64 = printed 64 (ascii "none") := by
      rw [formatReminders, hne]
      rfl
    rw [hnone]
    decide
  · rw [formatReminders_text hne h]
    split_ifs
    · exact (formatInt_plain _).append (by decide)
    · exact minutesText_plain _

theorem soundKey_plain (value : ℤ) : PlainText (muslimtifySoundModeKey value) :=
  keyAtOrUnknown_plain (by decide) value

theorem urgencyKey_plain (value : ℤ) : PlainText (muslimtifyUrgencyKey value) :=
  keyAtOrUnknown_plain (by decide) value

theorem boolText_plain (b : Bool) : PlainText (boolText b) := by
  cases b <;> decide

theorem notificationPairs_plain {n : MuslimtifyNotification}
    (h : ∀ type, ∀ r ∈ (n.prayers type).reminders.items, 1 ≤ r ∧ r ≤ 1440) :
    ∀ p ∈ notificationPairs n, 0x3d ∉ p.1 ∧ PlainText p.1 ∧ PlainText p.2 := by
  have hnames : ∀ type, ∀ s ∈ suffixes, 0x3d ∉ prayerKey type ++ s ∧
      PlainText (prayerKey type ++ s) := by
    intro type
    cases type <;> decide
  have hsound : 0x3d ∉ ascii "sound" ∧ PlainText (ascii "sound") := by decide
  have hurgency : 0x3d ∉ ascii "urgency" ∧ PlainText (ascii "urgency") := by decide
  refine List.forall_mem_cons.mpr ⟨⟨hsound.1, hsound.2, soundKey_plain _⟩,
    List.forall_mem_cons.mpr ⟨⟨hurgency.1, hurgency.2, urgencyKey_plain _⟩, fun p hp => ?_⟩⟩
  obtain ⟨type, -, hp⟩ := List.mem_flatMap.mp hp
  have hname := hnames type
  simp only [suffixes, List.forall_mem_cons] at hname
  obtain ⟨h₁, h₂, h₃, -⟩ := hname
  simp only [settingsPairs, List.mem_cons, List.not_mem_nil, or_false] at hp
  rcases hp with rfl | rfl | rfl
  · exact ⟨h₁.1, h₁.2, boolText_plain _⟩
  · exact ⟨h₂.1, h₂.2, formatReminders_plain (h type) 64⟩
  · exact ⟨h₃.1, h₃.2, boolText_plain _⟩

/-- What is configured for a prayer's notifications. -/
def configured (cfg : Config) (type : PrayerType) : Bool × List ℤ × Bool :=
  let p := prayerGetConfig cfg type
  (p.enabled, p.reminders.items, p.adhanEnabled)

/-- The lines of the notification settings are read back as what is configured, with every
reminder of every prayer. -/
theorem notification_headless_read (hc : cfg.InRange) :
    readNotificationLines (completeLines 0x0a
      (displayNotificationSettingsHeadless (muslimtifyGetNotification cfg))) =
      some (cfg.notificationSound.text, urgencyShown cfg, prayerTypes.map (configured cfg)) := by
  have hreminders : ∀ type, ∀ r ∈ ((muslimtifyGetNotification cfg).prayers type).reminders.items,
      1 ≤ r ∧ r ≤ 1440 := by
    intro type
    rw [getNotification_reminders]
    exact (hc.prayers type).reminders
  have hplain := notificationPairs_plain hreminders
  have hpairs := readPairs_pairLines (fun p hp => (hplain p hp).1)
    (fun p hp => ⟨newline_of_plain (hplain p hp).2.1, newline_of_plain (hplain p hp).2.2⟩)
    (by decide : (0x0a : UInt8) ≠ 0x3d)
  have hprayer : ∀ type, readSettingsPairs (notificationPairs (muslimtifyGetNotification cfg)) type =
      some (configured cfg type) := by
    intro type
    have hname : ∀ s ∈ suffixes, ∀ t ∈ suffixes, s ≠ t →
        (prayerKey type ++ s == prayerKey type ++ t) = false := fun s _ t _ hne =>
      beq_false_of_ne fun heq => hne (List.append_cancel_left heq)
    have h₁ : (settingsPairs (muslimtifyGetNotification cfg) type).lookup
        (prayerKey type ++ ascii ".enabled") = some (boolText (prayerGetConfig cfg type).enabled) :=
      List.lookup_cons_self
    have h₂ : (settingsPairs (muslimtifyGetNotification cfg) type).lookup
        (prayerKey type ++ ascii ".reminders") = some (formatReminders
          ((muslimtifyGetNotification cfg).prayers type) 64 64) := by
      rw [settingsPairs, List.lookup_cons, hname _ (by decide) _ (by decide) (by decide)]
      exact List.lookup_cons_self
    have h₃ : (settingsPairs (muslimtifyGetNotification cfg) type).lookup
        (prayerKey type ++ ascii ".adhan") =
          some (boolText (prayerGetConfig cfg type).adhanEnabled) := by
      rw [settingsPairs, List.lookup_cons, hname _ (by decide) _ (by decide) (by decide),
        List.lookup_cons, hname _ (by decide) _ (by decide) (by decide)]
      exact List.lookup_cons_self
    rw [readSettingsPairs, notificationPairs_lookup _ _ (by decide), h₁,
      notificationPairs_lookup _ _ (by decide), h₂, notificationPairs_lookup _ _ (by decide), h₃]
    simp only [Option.bind_eq_bind, Option.bind_some, isTrue_boolText,
      readMinutes_text (hreminders type), getNotification_reminders]
    rfl
  have hsound : (notificationPairs (muslimtifyGetNotification cfg)).lookup (ascii "sound") =
      some cfg.notificationSound.text := by
    rw [notificationPairs, List.lookup_cons_self, getNotification_sound hc]
  have hurgency : (notificationPairs (muslimtifyGetNotification cfg)).lookup (ascii "urgency") =
      some (urgencyShown cfg) := by
    rw [notificationPairs, List.lookup_cons,
      show (ascii "urgency" == ascii "sound") = false by decide]
    dsimp only
    rw [List.lookup_cons_self, getNotification_urgency]
  rw [displayNotificationSettingsHeadless_text, readNotificationLines, pairText, hpairs]
  simp only [hsound, hurgency, prayerTypes, List.mapM_cons, List.mapM_nil, hprayer,
    Option.bind_eq_bind, Option.bind_some]
  rfl

theorem notification_headless_read_north :
    readNotificationLines (completeLines 0x0a
      (displayNotificationSettingsHeadless (muslimtifyGetNotification farNorth))) =
      some (farNorth.notificationSound.text, urgencyShown farNorth,
        prayerTypes.map (configured farNorth)) :=
  notification_headless_read farNorth_inRange

/-- What the table says of a prayer's reminders. -/
def remindersColumn (rs : List ℤ) : CString :=
  if rs = [] then ascii "none"
  else if 13 < (minutesText rs).length then formatInt rs.length ++ ascii " reminders"
  else minutesText rs

def notificationCells (cfg : Config) (type : PrayerType) : List CString :=
  let p := prayerGetConfig cfg type
  [prayerKey type, if p.enabled then ascii "yes" else ascii "no", remindersColumn p.reminders.items,
    if p.adhanEnabled then ascii "on" else ascii "off"]

theorem remindersColumn_eq {p : MuslimtifyPrayerSettings}
    (h : ∀ r ∈ p.reminders.items, 1 ≤ r ∧ r ≤ 1440) :
    formatReminders p 13 64 = remindersColumn p.reminders.items := by
  unfold remindersColumn
  by_cases hne : p.reminders.items = []
  · rw [if_pos hne, formatReminders, hne]
    rfl
  · rw [if_neg hne, formatReminders_text hne h]

theorem remindersColumn_fits {rs : FixedArray ℤ maxReminders} :
    FitsIn 0x20 13 (remindersColumn rs.items) := by
  have hcount := rs.fits
  have hmax : maxReminders = 10 := rfl
  have hnumber := formatInt_short (r := rs.items.length) (k := 2) (by decide) (by omega)
  have hmany : (ascii " reminders").getLast? ≠ some 0x20 := by decide
  unfold remindersColumn
  split_ifs with hempty hlong
  · exact ⟨by decide, by decide⟩
  · refine ⟨?_, last_append (by decide) hmany⟩
    rw [List.length_append, show (ascii " reminders").length = 10 from rfl]
    omega
  · refine ⟨Nat.not_lt.mp hlong, last_of_solid ?_⟩
    refine forall_mem_intercalate (List.forall_mem_map.mpr fun r _ b hb heq => ?_)
      (List.forall_mem_singleton.mpr (by decide))
    rcases formatInt_bytes r b hb with hb | hb <;> exact absurd (heq ▸ hb) (by decide)

def settingsCells (prayer enabled reminders adhan : CString) : List (Cell UInt8) :=
  [⟨0x20, 7, prayer⟩, ⟨0x20, 7, enabled⟩, ⟨0x20, 13, reminders⟩, ⟨0x20, 5, adhan⟩]

theorem printSettingsRow_row (prayer enabled reminders adhan t : CString) :
    printSettingsRow prayer enabled reminders adhan ++ t =
      row 0x20 0x7c (settingsCells prayer enabled reminders adhan) ++ 0x0a :: t := by
  simp only [printSettingsRow, settingsCells, row, List.flatMap_cons, List.flatMap_nil,
    Cell.printed, List.flatten_cons, List.flatten_nil, List.append_assoc, List.cons_append,
    List.nil_append]
  rfl

/-- The cells of a prayer's row. -/
def prayerCells (n : MuslimtifyNotification) (type : PrayerType) : List (Cell UInt8) :=
  settingsCells (prayerKey type) (if (n.prayers type).enabled then ascii "yes" else ascii "no")
    (formatReminders (n.prayers type) 13 64)
    (if (n.prayers type).adhanEnabled then ascii "on" else ascii "off")

def settingsHeader : CString :=
  row 0x20 0x7c (settingsCells (ascii "Prayer") (ascii "Enabled") (ascii "Reminders")
    (ascii "Adhan"))

def settingsEdge : CString := rule 0x2b 0x2d [7, 7, 13, 5]

/-- The lines of the settings' table before what stands below it. -/
def settingsTable (n : MuslimtifyNotification) : List CString :=
  [settingsEdge, settingsHeader, settingsEdge] ++
    (prayerTypes.map fun type => row 0x20 0x7c (prayerCells n type)) ++ [settingsEdge]

theorem displayNotificationSettings_lines (n : MuslimtifyNotification) :
    displayNotificationSettings n = unlines 0x0a (settingsTable n ++
      [ascii "sound: " ++ muslimtifySoundModeKey n.soundMode,
        ascii "urgency: " ++ muslimtifyUrgencyKey n.urgency]) := by
  have hedge : ascii "+---------+---------+---------------+-------+\n" =
      settingsEdge ++ [0x0a] := by decide
  have hrows : ∀ (types : List PrayerType) t, (types.flatMap fun type =>
      let p := n.prayers type
      printSettingsRow (prayerKey type) (if p.enabled then ascii "yes" else ascii "no")
        (formatReminders p 13 64) (if p.adhanEnabled then ascii "on" else ascii "off")) ++ t =
      unlines 0x0a (types.map fun type => row 0x20 0x7c (prayerCells n type)) ++ t := by
    intro types t
    induction types with
    | nil => rfl
    | cons type types ih =>
        dsimp only at ih ⊢
        rw [List.flatMap_cons, List.append_assoc, ih, printSettingsRow_row, List.map_cons,
          unlines_cons, ← prayerCells]
        simp only [List.append_assoc, List.cons_append]
  have hheader : ∀ t, printSettingsRow (ascii "Prayer") (ascii "Enabled") (ascii "Reminders")
      (ascii "Adhan") ++ t = settingsHeader ++ 0x0a :: t := printSettingsRow_row _ _ _ _
  rw [displayNotificationSettings, hedge, settingsTable]
  simp only [List.append_assoc, hheader, hrows, unlines_append, unlines_cons, List.cons_append,
    List.nil_append, List.flatten_cons, List.flatten_nil]
  rfl

theorem prayerCells_fit (hc : cfg.InRange) (type : PrayerType) :
    ∀ c ∈ prayerCells (muslimtifyGetNotification cfg) type, c.Fits 0x20 := by
  have hreminders : ∀ r ∈ ((muslimtifyGetNotification cfg).prayers type).reminders.items,
      1 ≤ r ∧ r ≤ 1440 := by
    rw [getNotification_reminders]
    exact (hc.prayers type).reminders
  have hkey : FitsIn 0x20 7 (prayerKey type) := by
    cases type <;> exact ⟨by decide, by decide⟩
  have henabled : ∀ b : Bool, FitsIn 0x20 7 (if b then ascii "yes" else ascii "no") := by
    intro b
    cases b <;> exact ⟨by decide, by decide⟩
  have hadhan : ∀ b : Bool, FitsIn 0x20 5 (if b then ascii "on" else ascii "off") := by
    intro b
    cases b <;> exact ⟨by decide, by decide⟩
  have hcolumn : FitsIn 0x20 13
      (formatReminders ((muslimtifyGetNotification cfg).prayers type) 13 64) := by
    rw [remindersColumn_eq hreminders]
    exact remindersColumn_fits
  simp only [prayerCells, settingsCells, List.forall_mem_cons]
  exact ⟨hkey, henabled _, hcolumn, hadhan _, List.forall_mem_nil _⟩

/-- The table of the notification settings has lines of one length, however many reminders there
are, and its rows give what is configured, with the length of a list that is too long. -/
theorem notification_table_aligned (hc : cfg.InRange) :
    ∃ top rows bottom : List CString,
      completeLines 0x0a (displayNotificationSettings (muslimtifyGetNotification cfg)) =
        top ++ rows ++ bottom ++ [ascii "sound: " ++ cfg.notificationSound.text,
          ascii "urgency: " ++ urgencyShown cfg] ∧
      (∀ line ∈ top ++ rows ++ bottom, line.length = 45) ∧
      rows.map (readRow 0x20 [7, 7, 13, 5]) = prayerTypes.map (notificationCells cfg) := by
  have hreminders : ∀ type, ∀ r ∈ ((muslimtifyGetNotification cfg).prayers type).reminders.items,
      1 ≤ r ∧ r ≤ 1440 := by
    intro type
    rw [getNotification_reminders]
    exact (hc.prayers type).reminders
  have hsound : PlainText (ascii "sound: ") := by decide
  have hurgency : PlainText (ascii "urgency: ") := by decide
  have hedge : settingsEdge.length = 45 ∧ PlainText settingsEdge := by decide
  have hheader : settingsHeader.length = 45 ∧ PlainText settingsHeader := by decide
  have hrow : ∀ type, (row 0x20 0x7c (prayerCells (muslimtifyGetNotification cfg) type)).length = 45 ∧
      PlainText (row 0x20 0x7c (prayerCells (muslimtifyGetNotification cfg) type)) := by
    intro type
    have hblank : isPlainText 0x20 = true := by decide
    have henabled : ∀ b : Bool, PlainText (if b then ascii "yes" else ascii "no") := by
      intro b
      cases b <;> decide
    have hadhan : ∀ b : Bool, PlainText (if b then ascii "on" else ascii "off") := by
      intro b
      cases b <;> decide
    refine ⟨row_length 0x20 0x7c fun c hcell => (prayerCells_fit hc type c hcell).length,
      row_plain ?_⟩
    simp only [prayerCells, settingsCells, List.forall_mem_cons]
    exact ⟨⟨hblank, prayerKey_plain type⟩, ⟨hblank, henabled _⟩,
      ⟨hblank, formatReminders_plain (hreminders type) 13⟩, ⟨hblank, hadhan _⟩,
      List.forall_mem_nil _⟩
  have hshape : ∀ line ∈ settingsTable (muslimtifyGetNotification cfg),
      line.length = 45 ∧ PlainText line := by
    simp only [settingsTable, List.forall_mem_append, List.forall_mem_cons, List.forall_mem_map]
    exact ⟨⟨⟨hedge, hheader, hedge, List.forall_mem_nil _⟩, fun type _ => hrow type⟩, hedge,
      List.forall_mem_nil _⟩
  refine ⟨_, _, _, ?_, fun line hline => (hshape line hline).1, ?_⟩
  · rw [displayNotificationSettings_lines, completeLines_plain, getNotification_sound hc,
      getNotification_urgency]
    · rfl
    · refine List.forall_mem_append.mpr ⟨fun line hline => (hshape line hline).2, ?_⟩
      exact List.forall_mem_cons.mpr ⟨hsound.append (soundKey_plain _),
        List.forall_mem_singleton.mpr (hurgency.append (urgencyKey_plain _))⟩
  · rw [List.map_map]
    refine List.map_congr_left fun type _ =>
      (readRow_row 0x20 0x7c (prayerCells_fit hc type)).trans ?_
    rw [notificationCells, ← getNotification_reminders cfg type, ← remindersColumn_eq (hreminders type)]
    rfl

theorem notification_table_aligned_north : ∃ rows : List CString,
    rows.map (readRow 0x20 [7, 7, 13, 5]) = prayerTypes.map (notificationCells farNorth) := by
  obtain ⟨-, rows, -, -, -, hrows⟩ := notification_table_aligned farNorth_inRange
  exact ⟨rows, hrows⟩

end Notification

end Muslimtify.SettingsTables
