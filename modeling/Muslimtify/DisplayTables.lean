import Muslimtify.Display
import Muslimtify.TextTables

/-!
# What the display prints as a table

The rows of the tables, with the colours of a terminal between their cells. What
a terminal shows of a table is a list of lines of one length, whatever the times,
the reminders and the settings are, and its cells are those of the day: the
display shortens a list of reminders that its column cannot take.
-/
namespace Muslimtify.DisplayTables
open CText CDouble CivilDays Calendar JsonPrinting Settings Schedule Detection PublicTimes DateRange
  NextPrayer Display TextTables LineStream TriggerPartition

section Colours

def colReset : CString := 0x1b :: ascii "[0m"
def colBold : CString := 0x1b :: ascii "[1m"
def colDim : CString := 0x1b :: ascii "[2m"
def colGreen : CString := 0x1b :: ascii "[32m"
def colYellow : CString := 0x1b :: ascii "[33m"

/-- The macro `C`. -/
def colour (useColors : Bool) (code : CString) : CString := if useColors then code else []

/-- What a terminal shows, from inside or outside of a code that it acts on. -/
def visibleFrom : Bool → CString → CString
  | _, [] => []
  | true, b :: s => visibleFrom (b ≠ 0x6d) s
  | false, b :: s => if b = 0x1b then visibleFrom true s else b :: visibleFrom false s

def visible (s : CString) : CString := visibleFrom false s

@[simp] theorem visible_nil : visible [] = [] := rfl

theorem visible_append {s : CString} (h : PlainText s) (t : CString) :
    visible (s ++ t) = s ++ visible t := by
  induction s with
  | nil => rfl
  | cons b s ih =>
      obtain ⟨hb, hs⟩ := List.forall_mem_cons.mp h
      have hne : b ≠ 0x1b := by
        rintro rfl
        exact absurd hb (by decide)
      rw [List.cons_append, visible, visibleFrom, if_neg hne, ← visible, ih hs, List.cons_append]

theorem visible_newline (t : CString) : visible (0x0a :: t) = 0x0a :: visible t := rfl

def colours : List CString :=
  [colReset, colBold, colDim, colGreen, colYellow, colBold ++ colYellow,
    colReset ++ colBold ++ colYellow]

theorem visible_colour (useColors : Bool) {code : CString} (h : code ∈ colours) (t : CString) :
    visible (colour useColors code ++ t) = visible t := by
  cases useColors with
  | false => rfl
  | true =>
      simp only [colours, List.mem_cons, List.not_mem_nil, or_false] at h
      rcases h with rfl | rfl | rfl | rfl | rfl | rfl | rfl <;> rfl

end Colours

section DayTable

def printHorizontalLine (pos : Char) : CString :=
  let box := match pos with
    | 't' => some (ascii "+", ascii "+", ascii "+", ascii "-")
    | 'm' => some (ascii "+", ascii "+", ascii "+", ascii "-")
    | 'b' => some (ascii "+", ascii "+", ascii "+", ascii "-")
    | _ => none
  match box with
  | none => []
  | some (left, mid, right, horiz) =>
      let dashes := fun n => (List.replicate n horiz).flatten
      left ++ dashes 12 ++ mid ++ dashes 12 ++ mid ++ dashes 10 ++ mid ++ dashes 10 ++ mid ++
        dashes 23 ++ right ++ ascii "\n"

def boxV : CString := ascii "|"

/-- The minutes as far as a buffer of `cap` bytes takes them. -/
def appendReminders (cap : ℕ) : CString → Bool → List ℤ → CString
  | buffer, _, [] => buffer
  | buffer, first, r :: rest =>
      let text := (if first then [] else ascii ", ") ++ formatInt r
      appendReminders cap (if text.length < cap - buffer.length then buffer ++ text else buffer)
        false rest

def remindersCell (p : MuslimtifyPrayer) : CString :=
  if p.enabled then
    if p.reminders.items.isEmpty then ascii "At prayer time"
    else
      let minutes := appendReminders 80 [] true p.reminders.items
      let reminders := minutes ++ (ascii " min before").take (80 - minutes.length - 1)
      if 21 < reminders.length then formatInt p.reminders.items.length ++ ascii " reminders"
      else reminders
  else ascii "-"

/-- The day the prayer falls on, if it has a time. -/
def dateCell (day : MuslimtifyDay) (t : MuslimtifyTime) : CString :=
  if t.valid then dateText ⟨t.year, t.month, t.day⟩ else dateText day.date

/-- `%-*s` -/
def column (width : ℕ) (s : CString) : CString := padRight 0x20 width s

variable (useColors : Bool) (timeFormat : ℤ)

def dayRow (day : ShownDay) (type : PrayerType) : CString :=
  let p := day.prayers type
  let name := column 10 (prayerGetName type)
  let time := column 8 (formatCell p.time timeFormat false)
  let date := column 10 (dateCell day.toMuslimtifyDay p.time)
  let reminders := column 21 (remindersCell p)
  let C := colour useColors
  if !p.enabled then
    [C colDim, boxV, ascii " ", date, ascii " ", boxV, ascii " ", name, ascii " ", boxV, ascii " ",
      time, ascii " ", boxV, ascii " Disabled ", boxV, ascii " ", column 21 (ascii "-"), ascii " ",
      boxV, C colReset, ascii "\n"].flatten
  else if prayerTypes.idxOf type = day.next then
    [boxV, ascii " ", date, ascii " ", boxV, C (colBold ++ colYellow),
      if useColors then ascii ">" else ascii " ", name, C colReset, ascii " ", boxV, ascii " ",
      C colYellow, time, C colReset, ascii " ", boxV, ascii " ", C colGreen, ascii "Enabled ",
      C colReset, ascii " ", boxV, ascii " ", reminders, ascii " ", boxV, ascii "\n"].flatten
  else
    [boxV, ascii " ", date, ascii " ", boxV, ascii " ", name, ascii " ", boxV, ascii " ", time,
      ascii " ", boxV, ascii " ", C colGreen, ascii "Enabled ", C colReset, ascii " ", boxV,
      ascii " ", reminders, ascii " ", boxV, ascii "\n"].flatten

def dayHeader : CString :=
  let C := colour useColors
  let cell := fun width name =>
    [ascii " ", C colBold, column width (ascii name), C colReset, ascii " ", boxV].flatten
  boxV ++ cell 10 "Date" ++ cell 10 "Prayer" ++ cell 8 "Time" ++ cell 8 "Status" ++
    cell 21 "Reminders" ++ ascii "\n"

def displayDayTable (day : ShownDay) : CString :=
  printHorizontalLine 't' ++ dayHeader useColors ++ printHorizontalLine 'm' ++
    prayerTypes.flatMap (dayRow useColors timeFormat day) ++ printHorizontalLine 'b' ++ ascii "\n"

end DayTable

section DayCells
variable (useColors : Bool) (timeFormat : ℤ)

/-- What a terminal shows of the cells of a row. -/
def dayCells (day : ShownDay) (type : PrayerType) : List (Cell UInt8) :=
  let p := day.prayers type
  let marked := useColors && p.enabled && prayerTypes.idxOf type = day.next
  [⟨0x20, 10, dateCell day.toMuslimtifyDay p.time⟩,
    ⟨if marked then 0x3e else 0x20, 10, prayerGetName type⟩,
    ⟨0x20, 8, formatCell p.time timeFormat false⟩,
    ⟨0x20, 8, if p.enabled then ascii "Enabled" else ascii "Disabled"⟩,
    ⟨0x20, 21, remindersCell p⟩]

theorem column_plain {width : ℕ} {s : CString} (h : PlainText s) : PlainText (column width s) :=
  h.append fun _ hb => List.eq_of_mem_replicate hb ▸ by decide

theorem prayerGetName_plain (type : PrayerType) : PlainText (prayerGetName type) := by
  cases type <;> decide

theorem dateCell_plain (day : MuslimtifyDay) (t : MuslimtifyTime) :
    PlainText (dateCell day t) := by
  unfold dateCell
  split_ifs
  · exact dateText_plain _
  · exact dateText_plain _

theorem appendReminders_plain {cap : ℕ} (rs : List ℤ) {buffer : CString} {first : Bool}
    (h : PlainText buffer) : PlainText (appendReminders cap buffer first rs) := by
  induction rs generalizing buffer first with
  | nil => exact h
  | cons r rest ih =>
      have hcomma : PlainText (if first then [] else ascii ", ") := by cases first <;> decide
      rw [appendReminders]
      generalize (if first then [] else ascii ", ") = comma at hcomma ⊢
      apply ih
      split_ifs
      · exact h.append (hcomma.append (formatInt_plain r))
      · exact h

theorem remindersCell_plain (p : MuslimtifyPrayer) : PlainText (remindersCell p) := by
  have hcount : PlainText (formatInt p.reminders.items.length ++ ascii " reminders") :=
    (formatInt_plain _).append (by decide)
  have hbefore : PlainText (ascii " min before") := by decide
  have hnone : PlainText [] := List.forall_mem_nil _
  have hlist : ∀ n, PlainText (appendReminders 80 [] true p.reminders.items ++
      (ascii " min before").take n) := fun n =>
    (appendReminders_plain _ hnone).append fun b hb => hbefore b (List.mem_of_mem_take hb)
  rw [remindersCell]
  dsimp only
  split_ifs
  · exact (by decide : PlainText (ascii "At prayer time"))
  · exact hcount
  · exact hlist _
  · exact (by decide : PlainText (ascii "-"))

theorem visible_dayRow (day : ShownDay) (type : PrayerType) (t : CString) :
    visible (dayRow useColors timeFormat day type ++ t) =
      row 0x20 0x7c (dayCells useColors timeFormat day type) ++ 0x0a :: visible t := by
  have hdate : PlainText (column 10 (dateCell day.toMuslimtifyDay (day.prayers type).time)) :=
    column_plain (dateCell_plain _ _)
  have hname : PlainText (column 10 (prayerGetName type)) :=
    column_plain (prayerGetName_plain type)
  have htime : PlainText (column 8 (formatCell (day.prayers type).time timeFormat false)) :=
    column_plain (formatCell_plain timeFormat _ _)
  have hreminders : PlainText (column 21 (remindersCell (day.prayers type))) :=
    column_plain (remindersCell_plain _)
  rw [dayRow, dayCells]
  -- the three formats of a row differ in their codes, in the mark and in the status
  cases henabled : (day.prayers type).enabled with
  | false =>
      have hcell : remindersCell (day.prayers type) = ascii "-" := by
        rw [remindersCell, henabled]
        rfl
      rw [if_pos (by rfl), hcell, Bool.and_false, Bool.false_and]
      simp (disch := first | assumption | decide) only [List.flatten_cons, List.flatten_nil,
        List.append_assoc, List.nil_append, visible_append, visible_colour]
      simp only [row, List.flatMap_cons, List.flatMap_nil, Cell.printed, List.append_assoc,
        List.cons_append, List.nil_append]
      rfl
  | true =>
      rw [if_neg (by simp)]
      by_cases hnext : prayerTypes.idxOf type = day.next
      · rw [if_pos hnext, decide_eq_true hnext]
        cases useColors
        all_goals
          simp (disch := first | assumption | decide) only [List.flatten_cons, List.flatten_nil,
            List.append_assoc, List.nil_append, visible_append, visible_colour]
          simp only [row, List.flatMap_cons, List.flatMap_nil, Cell.printed, List.append_assoc,
            List.cons_append, List.nil_append]
          rfl
      · rw [if_neg hnext, decide_eq_false hnext, Bool.and_false]
        simp (disch := first | assumption | decide) only [List.flatten_cons, List.flatten_nil,
          List.append_assoc, List.nil_append, visible_append, visible_colour]
        simp only [row, List.flatMap_cons, List.flatMap_nil, Cell.printed, List.append_assoc,
          List.cons_append, List.nil_append]
        rfl

/-- The rows that a terminal shows. -/
def dayLines (day : ShownDay) : List CString :=
  let edge := rule 0x2b 0x2d [10, 10, 8, 8, 21]
  let header := row 0x20 0x7c [⟨0x20, 10, ascii "Date"⟩, ⟨0x20, 10, ascii "Prayer"⟩,
    ⟨0x20, 8, ascii "Time"⟩, ⟨0x20, 8, ascii "Status"⟩, ⟨0x20, 21, ascii "Reminders"⟩]
  [edge, header, edge] ++
    (prayerTypes.map fun type => row 0x20 0x7c (dayCells useColors timeFormat day type)) ++ [edge]

theorem printHorizontalLine_rule {pos : Char} (h : pos = 't' ∨ pos = 'm' ∨ pos = 'b') :
    printHorizontalLine pos = rule 0x2b 0x2d [10, 10, 8, 8, 21] ++ [0x0a] := by
  rcases h with rfl | rfl | rfl <;> decide

theorem visible_displayDayTable (day : ShownDay) :
    visible (displayDayTable useColors timeFormat day) =
      unlines 0x0a (dayLines useColors timeFormat day) ++ [0x0a] := by
  have hedge : ∀ t, visible (rule 0x2b 0x2d [10, 10, 8, 8, 21] ++ t) =
      rule 0x2b 0x2d [10, 10, 8, 8, 21] ++ visible t := visible_append (by decide)
  have hheader : ∀ t, visible (dayHeader useColors ++ t) =
      row 0x20 0x7c [⟨0x20, 10, ascii "Date"⟩, ⟨0x20, 10, ascii "Prayer"⟩,
        ⟨0x20, 8, ascii "Time"⟩, ⟨0x20, 8, ascii "Status"⟩, ⟨0x20, 21, ascii "Reminders"⟩] ++
        0x0a :: visible t := by
    intro t
    rw [dayHeader]
    simp (disch := first | assumption | decide) only [List.flatten_cons, List.flatten_nil,
      List.append_assoc, List.nil_append, visible_append, visible_colour]
    rfl
  have hrows : ∀ (types : List PrayerType) t, visible (types.flatMap (dayRow useColors timeFormat day) ++ t) =
      unlines 0x0a (types.map fun type => row 0x20 0x7c (dayCells useColors timeFormat day type)) ++
        visible t := by
    intro types t
    induction types with
    | nil => rfl
    | cons type types ih =>
        rw [List.flatMap_cons, List.append_assoc, visible_dayRow, ih, List.map_cons, unlines_cons]
        simp only [List.append_assoc, List.cons_append]
  rw [displayDayTable, printHorizontalLine_rule (.inl rfl),
    printHorizontalLine_rule (.inr (.inl rfl)), printHorizontalLine_rule (.inr (.inr rfl)),
    dayLines]
  simp only [List.append_assoc, hedge, hheader, hrows, List.cons_append, List.nil_append,
    visible_newline, unlines_append, unlines_cons]
  rfl

end DayCells

section Widths

theorem last_of_solid {s : CString} (h : ∀ b ∈ s, b ≠ 0x20) : s.getLast? ≠ some 0x20 :=
  fun hlast => h 0x20 (List.mem_of_getLast? hlast) rfl

theorem formatIntPad_length {w : ℕ} {z : ℤ} (hw : 0 < w) (h : 0 ≤ z ∧ z < 10 ^ w) :
    (formatIntPad w z).length = w := by
  rw [formatIntPad, if_neg (by omega)]
  refine zeroPad_length (decimal_length_le hw ?_)
  zify
  rw [abs_of_nonneg h.1]
  exact h.2

theorem clockFormat_length (hour minute timeFormat : ℤ) :
    (clockFormat hour minute timeFormat).length = if timeFormat = 12 then 8 else 5 := by
  have hpad : ∀ z : ℤ, (formatIntPad 2 (toUnsigned z % 100)).length = 2 := fun z =>
    formatIntPad_length (by decide) (by omega)
  have hhalf : (if hour < 12 then ascii "AM" else ascii "PM").length = 2 := by
    split_ifs <;> rfl
  rw [clockFormat]
  by_cases h : timeFormat = 12
  · rw [if_neg (not_not.mpr h), if_pos h]
    simp only [List.length_append, List.length_cons, hpad, hhalf]
  · rw [if_pos h, if_neg h]
    simp only [List.length_append, List.length_cons, hpad]

theorem formatCell_length (t : MuslimtifyTime) (timeFormat : ℤ) (mark : Bool) :
    (formatCell t timeFormat mark).length ≤ (if timeFormat = 12 then 8 else 5) +
      if mark = true ∧ t.dayOffset ≠ 0 then 1 else 0 := by
  have htime : (muslimtifyFormatTime t timeFormat).length ≤ if timeFormat = 12 then 8 else 5 := by
    unfold muslimtifyFormatTime
    split_ifs with hvalid
    · exact (by decide : (ascii "--:--").length ≤ 8)
    · exact le_rfl
    · exact (clockFormat_length _ _ _).le.trans (by rw [if_pos ‹_›])
    · exact (clockFormat_length _ _ _).le.trans (by rw [if_neg ‹_›])
  have hmark : ∀ day : ℤ, (if 0 < day then ascii "+" else if day < 0 then ascii "-" else []).length =
      if day = 0 then 0 else 1 := by
    intro day
    rcases lt_trichotomy day 0 with h | rfl | h
    · rw [if_neg h.not_gt, if_pos h, if_neg h.ne]
      rfl
    · rfl
    · rw [if_pos h, if_neg h.ne']
      rfl
  rw [formatCell, List.length_append, hmark]
  refine Nat.add_le_add htime ?_
  cases mark with
  | false => exact Nat.zero_le _
  | true => by_cases hday : t.dayOffset = 0 <;> simp [hday]

theorem solid_formatIntPad (w : ℕ) (z : ℤ) : ∀ b ∈ formatIntPad w z, b ≠ 0x20 := by
  have hdigits : ∀ w, ∀ b ∈ zeroPad w (decimal z.natAbs), b ≠ 0x20 := by
    rintro w b hb rfl
    exact absurd (zeroPad_isDigit (decimal_isDigit _) _ hb) (by decide)
  unfold formatIntPad
  split_ifs
  · exact List.forall_mem_cons.mpr ⟨by decide, hdigits _⟩
  · exact hdigits _

theorem solid_dateText (date : CivilDate) : ∀ b ∈ dateText date, b ≠ 0x20 :=
  List.forall_mem_append.mpr ⟨solid_formatIntPad _ _, List.forall_mem_cons.mpr ⟨by decide,
    List.forall_mem_append.mpr ⟨solid_formatIntPad _ _, List.forall_mem_cons.mpr ⟨by decide,
      solid_formatIntPad _ _⟩⟩⟩⟩

/-- The years of four digits. -/
structure FourDigits (date : CivilDate) : Prop where
  year : 0 ≤ date.year ∧ date.year ≤ 9999
  month : 1 ≤ date.month ∧ date.month ≤ 12
  day : 1 ≤ date.day ∧ date.day ≤ 31

theorem FourDigits.length {date : CivilDate} (h : FourDigits date) :
    (dateText date).length = 10 := by
  obtain ⟨hy, hm, hd⟩ := h
  have hyear : (formatIntPad 4 date.year).length = 4 :=
    formatIntPad_length (by decide) (by omega)
  have hmonth : (formatIntPad 2 date.month).length = 2 :=
    formatIntPad_length (by decide) (by omega)
  have hday : (formatIntPad 2 date.day).length = 2 := formatIntPad_length (by decide) (by omega)
  rw [dateText]
  simp only [List.length_append, List.length_cons, hyear, hmonth, hday]

theorem last_append {s t : CString} (ht : t ≠ []) (h : t.getLast? ≠ some 0x20) :
    (s ++ t).getLast? ≠ some 0x20 := by
  rw [List.getLast?_append, List.getLast?_eq_getLast_of_ne_nil ht, Option.some_or]
  rwa [List.getLast?_eq_getLast_of_ne_nil ht] at h

theorem formatIntPad_ne_nil (w : ℕ) (z : ℤ) : formatIntPad w z ≠ [] := by
  unfold formatIntPad
  split_ifs
  · exact List.cons_ne_nil _ _
  · exact zeroPad_ne_nil (decimal_ne_nil _)

theorem last_formatCell (t : MuslimtifyTime) (timeFormat : ℤ) (mark : Bool) :
    (formatCell t timeFormat mark).getLast? ≠ some 0x20 := by
  have hpad : ∀ z, (formatIntPad 2 z).getLast? ≠ some 0x20 := fun z =>
    last_of_solid (solid_formatIntPad 2 z)
  have hne : ∀ z, formatIntPad 2 z ≠ [] := formatIntPad_ne_nil 2
  have hclock : ∀ hour minute, (clockFormat hour minute timeFormat).getLast? ≠ some 0x20 := by
    intro hour minute
    have hhalf : ∀ z half, (0x20 :: half : CString).getLast? ≠ some 0x20 →
        (0x3a :: (formatIntPad 2 z ++ 0x20 :: half)).getLast? ≠ some 0x20 := fun z half h =>
      last_append (s := 0x3a :: formatIntPad 2 z) (List.cons_ne_nil _ _) h
    rw [clockFormat]
    dsimp only
    split_ifs
    · exact last_append (List.cons_ne_nil _ _) (last_append (s := [0x3a]) (hne _) (hpad _))
    · exact last_append (List.cons_ne_nil _ _) (hhalf _ _ (by decide))
    · exact last_append (List.cons_ne_nil _ _) (hhalf _ _ (by decide))
    · exact last_append (List.cons_ne_nil _ _) (hhalf _ _ (by decide))
    · exact last_append (List.cons_ne_nil _ _) (hhalf _ _ (by decide))
  have htime : (muslimtifyFormatTime t timeFormat).getLast? ≠ some 0x20 := by
    unfold muslimtifyFormatTime
    split_ifs
    · decide
    · exact hclock _ _
  rw [formatCell]
  generalize (if mark then t.dayOffset else 0) = day
  split_ifs
  · exact last_append (by decide) (by decide)
  · exact last_append (by decide) (by decide)
  · rwa [List.append_nil]

end Widths

section Reminders

/-- What the column says of a prayer's reminders. -/
def remindersShown (p : MuslimtifyPrayer) : CString :=
  let minutes := printReminders p.reminders.items
  if !p.enabled then ascii "-"
  else if p.reminders.items = [] then ascii "At prayer time"
  else if minutes.length ≤ 10 then minutes ++ ascii " min before"
  else formatInt p.reminders.items.length ++ ascii " reminders"

/-- The minutes behind the first. -/
def moreReminders (rs : List ℤ) : CString := rs.flatMap fun r => ascii ", " ++ formatInt r

theorem printReminders_cons (r : ℤ) (rs : List ℤ) :
    printReminders (r :: rs) = formatInt r ++ moreReminders rs := by
  induction rs generalizing r with
  | nil => rfl
  | cons s rs ih =>
      have hmore : moreReminders (s :: rs) = (ascii ", " ++ formatInt s) ++ moreReminders rs := rfl
      rw [printReminders, ih, hmore, List.append_assoc]
      rfl

theorem appendReminders_more {cap : ℕ} {rs : List ℤ} {buffer : CString}
    (h : buffer.length + (moreReminders rs).length < cap) :
    appendReminders cap buffer false rs = buffer ++ moreReminders rs := by
  induction rs generalizing buffer with
  | nil => exact (List.append_nil buffer).symm
  | cons r rs ih =>
      have hmore : moreReminders (r :: rs) = (ascii ", " ++ formatInt r) ++ moreReminders rs := rfl
      rw [hmore, List.length_append] at h
      have hfits : (ascii ", " ++ formatInt r).length < cap - buffer.length := by omega
      rw [appendReminders, if_neg Bool.false_ne_true, if_pos hfits, ih, hmore, List.append_assoc]
      rw [List.length_append]
      omega

theorem appendReminders_text {cap : ℕ} {rs : List ℤ} (h : (printReminders rs).length < cap) :
    appendReminders cap [] true rs = printReminders rs := by
  cases rs with
  | nil => rfl
  | cons r rs =>
      rw [printReminders_cons, List.length_append] at h
      have hfits : ([] ++ formatInt r : CString).length < cap - ([] : CString).length := by
        simp only [List.nil_append, List.length_nil]
        omega
      rw [appendReminders, if_pos rfl, if_pos hfits, appendReminders_more, printReminders_cons]
      · rfl
      · simpa using h

theorem formatInt_short {r : ℤ} {k : ℕ} (hk : 0 < k) (h : 0 ≤ r ∧ r < 10 ^ k) :
    (formatInt r).length ≤ k := by
  rw [formatInt, if_neg (by omega)]
  refine decimal_length_le hk ?_
  zify
  rw [abs_of_nonneg h.1]
  exact h.2

theorem printReminders_length {rs : List ℤ} (h : ∀ r ∈ rs, 1 ≤ r ∧ r ≤ 1440) :
    (printReminders rs).length ≤ 6 * rs.length := by
  have hmore : ∀ rs : List ℤ, (∀ r ∈ rs, 1 ≤ r ∧ r ≤ 1440) →
      (moreReminders rs).length ≤ 6 * rs.length := by
    intro rs h
    induction rs with
    | nil => exact le_rfl
    | cons r rs ih =>
        obtain ⟨hr, hrs⟩ := List.forall_mem_cons.mp h
        have hlen := formatInt_short (k := 4) (by decide) (by omega : 0 ≤ r ∧ r < 10 ^ 4)
        have ih := ih hrs
        rw [moreReminders, List.flatMap_cons, ← moreReminders, List.length_append,
          List.length_append, List.length_cons, show (ascii ", ").length = 2 from rfl]
        omega
  cases rs with
  | nil => exact le_rfl
  | cons r rs =>
      obtain ⟨hr, hrs⟩ := List.forall_mem_cons.mp h
      have hlen := formatInt_short (k := 4) (by decide) (by omega : 0 ≤ r ∧ r < 10 ^ 4)
      have hrest := hmore rs hrs
      rw [printReminders_cons, List.length_append, List.length_cons]
      omega

variable {p : MuslimtifyPrayer}

theorem remindersCell_shown (hp : PrayerInRange p) : remindersCell p = remindersShown p := by
  have hcount := p.reminders.fits
  have hlen := printReminders_length hp.reminders
  have hmax : maxReminders = 10 := rfl
  have htext : appendReminders 80 [] true p.reminders.items = printReminders p.reminders.items :=
    appendReminders_text (by omega)
  have htake : (ascii " min before").take (80 - (printReminders p.reminders.items).length - 1) =
      ascii " min before" := List.take_of_length_le (by
    rw [show (ascii " min before").length = 11 from rfl]
    omega)
  rw [remindersCell, remindersShown]
  dsimp only
  rw [htext, htake, List.length_append, show (ascii " min before").length = 11 from rfl]
  cases p.enabled with
  | false => rfl
  | true =>
      cases hitems : p.reminders.items with
      | nil => rfl
      | cons r rs =>
          by_cases hshort : (printReminders (r :: rs)).length ≤ 10
          · simp [hshort]
          · simp [hshort]

theorem remindersShown_fits (p : MuslimtifyPrayer) :
    FitsIn 0x20 21 (remindersShown p) := by
  have hcount := p.reminders.fits
  have hmax : maxReminders = 10 := rfl
  have hbefore : (ascii " min before").getLast? ≠ some 0x20 := by decide
  have hmany : (ascii " reminders").getLast? ≠ some 0x20 := by decide
  have hnumber := formatInt_short (r := p.reminders.items.length) (k := 2) (by decide) (by omega)
  rw [remindersShown]
  split_ifs with henabled hempty hshort
  · exact ⟨by decide, by decide⟩
  · exact ⟨by decide, by decide⟩
  · refine ⟨?_, last_append (by decide) hbefore⟩
    rw [List.length_append]
    exact Nat.add_le_add_right hshort 11
  · refine ⟨?_, last_append (by decide) hmany⟩
    rw [List.length_append]
    exact Nat.add_le_add hnumber (by decide : 10 ≤ 19)

end Reminders

section Dates

def firstShown : CivilDate := ⟨0, 1, 1⟩

def lastShown : CivilDate := ⟨9999, 12, 31⟩

theorem gregorian_firstShown : Gregorian firstShown := ⟨by decide, by decide⟩

theorem gregorian_lastShown : Gregorian lastShown := ⟨by decide, by decide⟩

/-- The days from the year 0 to the year 9999. -/
theorem fourDigits_civil {z : ℤ} (hlow : dayNumber firstShown ≤ z)
    (hhigh : z ≤ dayNumber lastShown) : FourDigits (mtCivilFromDays z) := by
  obtain ⟨n, rfl⟩ : ∃ n : ℕ, z = dayNumber firstShown + n :=
    ⟨(z - dayNumber firstShown).toNat, by omega⟩
  rw [gregorian_firstShown.mtCivilFromDays_add n]
  have hu := gregorian_firstShown.iterate n
  have hyear := year_mono firstShown (Nat.zero_le n)
  have hnumber : dayNumber (nextDay^[n] firstShown) = dayNumber firstShown + n :=
    gregorian_firstShown.dayNumber_iterate n
  generalize nextDay^[n] firstShown = u at hu hyear hnumber ⊢
  refine ⟨⟨hyear, ?_⟩, hu.month, hu.day.1, hu.day_le⟩
  rw [← hnumber, hu.dayNumber_eq, gregorian_lastShown.dayNumber_eq] at hhigh
  by_contra hlate
  have hm := hu.month
  have hd := hu.day
  simp only [monthStart, marchYear, marchMonth, lastShown] at hhigh
  split_ifs at hhigh <;> omega

theorem shown_of_inCalendar {date : CivilDate} (h : InCalendar date) :
    dayNumber firstShown < dayNumber date ∧ dayNumber date ≤ dayNumber lastShown := by
  have hm := h.month
  have hd := h.day.1
  have hd' := h.day_le
  have hy := h.year
  rw [h.toGregorian.dayNumber_eq, gregorian_firstShown.dayNumber_eq,
    gregorian_lastShown.dayNumber_eq]
  simp only [monthStart, marchYear, marchMonth, firstShown, lastShown]
  split_ifs <;> omega

/-- A day before the last one has a day after it that is shown. -/
theorem before_lastShown {date : CivilDate} (h : InCalendar date) (hne : date ≠ lastShown) :
    dayNumber date < dayNumber lastShown := by
  refine lt_of_le_of_ne (shown_of_inCalendar h).2 fun heq => hne ?_
  rw [← h.toGregorian.mtCivilFromDays_dayNumber, heq,
    gregorian_lastShown.mtCivilFromDays_dayNumber]

end Dates

section Days
variable {H : Host} {cfg : Config} {now : Tm} {date : CivilDate} {day : ShownDay}

/-- A time falls on the day at its offset from the day it is a time of. -/
def OnDay (date : CivilDate) (t : MuslimtifyTime) : Prop :=
  if t.valid then (⟨t.year, t.month, t.day⟩ : CivilDate) =
    mtCivilFromDays (dayNumber date + t.dayOffset) else t.dayOffset = 0

/-- What a day that was asked for holds. -/
structure DayOf (cfg : Config) (date : CivilDate) (day : ShownDay) : Prop where
  calendar : InCalendar date
  date_eq : day.date = date
  prayers : ∀ type, PrayerInRange (day.prayers type)
  enabled : ∀ type, (day.prayers type).enabled = (prayerGetConfig cfg type).enabled
  onDay : ∀ type, OnDay date (day.prayers type).time

theorem timeFromHours_onDay (hours : Double) (date : CivilDate) (utcOffset : Double) :
    OnDay date (timeFromHours hours (mtDaysFromCivil date.year date.month date.day) utcOffset) := by
  cases hours with
  | fin q h => exact rfl
  | inf neg => exact rfl
  | nan => exact rfl

theorem muslimtifyDayAt_dayOf (hc : cfg.InRange) (h : muslimtifyDayAt H cfg now date = .ok day) :
    DayOf cfg date day := by
  obtain ⟨hdate, hrange⟩ := muslimtifyDayAt_inRange hc h
  unfold muslimtifyDayAt at h
  split at h
  · rename_i hcheck
    have hcal : InCalendar date :=
      (muslimtifyCheckRange_ok.mp (Prod.ext hcheck rfl)).1
    rw [muslimtifyDay, dateIsValid_iff.mpr hcal] at h
    split_ifs at h
    · cases h
    · cases h
    · obtain rfl := Except.ok.inj h
      exact ⟨hcal, hdate, hrange, fun _ => rfl, fun type => timeFromHours_onDay _ _ _⟩
  · cases h

/-- The column of the date, where a time that does not exist stands on the day itself. -/
theorem DayOf.dateCell (h : DayOf cfg date day) (type : PrayerType) :
    dateCell day.toMuslimtifyDay (day.prayers type).time =
      dateText (mtCivilFromDays (dayNumber date + (day.prayers type).time.dayOffset)) := by
  have hon := h.onDay type
  unfold OnDay at hon
  rw [DisplayTables.dateCell]
  split_ifs at hon ⊢ with hvalid
  · rw [hon]
  · rw [hon, add_zero, h.calendar.toGregorian.mtCivilFromDays_dayNumber, h.date_eq]

theorem DayOf.fourDigits (h : DayOf cfg date day) (hne : date ≠ lastShown) (type : PrayerType) :
    FourDigits (mtCivilFromDays (dayNumber date + (day.prayers type).time.dayOffset)) := by
  obtain ⟨hlow, hhigh⟩ := (h.prayers type).dayOffset
  have hfirst := (shown_of_inCalendar h.calendar).1
  have hlast := before_lastShown h.calendar hne
  exact fourDigits_civil (by omega) (by omega)

theorem DayOf.cells_fit (h : DayOf cfg date day) (hne : date ≠ lastShown) (useColors : Bool)
    (timeFormat : ℤ) (type : PrayerType) :
    ∀ c ∈ dayCells useColors timeFormat day type, c.Fits 0x20 := by
  have hdate : FitsIn 0x20 10 (DisplayTables.dateCell day.toMuslimtifyDay
      (day.prayers type).time) := by
    rw [h.dateCell type]
    exact ⟨(h.fourDigits hne type).length.le, last_of_solid (solid_dateText _)⟩
  have hname : FitsIn 0x20 10 (prayerGetName type) := by
    cases type <;> exact ⟨by decide, by decide⟩
  have htime : FitsIn 0x20 8 (formatCell (day.prayers type).time timeFormat false) := by
    refine ⟨(formatCell_length _ _ _).trans ?_, last_formatCell _ _ _⟩
    simp only [Bool.false_eq_true, false_and, if_false]
    split_ifs
    · exact le_rfl
    · exact (by decide : 5 + 0 ≤ 8)
  have hstatus : ∀ enabled : Bool,
      FitsIn 0x20 8 (if enabled then ascii "Enabled" else ascii "Disabled") := by
    intro enabled
    cases enabled <;> exact ⟨by decide, by decide⟩
  have hreminders : FitsIn 0x20 21 (remindersCell (day.prayers type)) := by
    rw [remindersCell_shown (h.prayers type)]
    exact remindersShown_fits _
  simp only [dayCells, List.forall_mem_cons]
  exact ⟨hdate, hname, htime, hstatus _, hreminders, List.forall_mem_nil _⟩

theorem row_plain {cells : List (Cell UInt8)}
    (h : ∀ c ∈ cells, isPlainText c.lead = true ∧ PlainText c.text) :
    PlainText (row 0x20 0x7c cells) := by
  have hcell : ∀ c ∈ cells, PlainText (c.printed 0x20 0x7c) := fun c hc =>
    .cons (by decide) (.cons (h c hc).1 ((column_plain (h c hc).2).append (by decide)))
  refine PlainText.append (fun b hb => ?_) (by decide)
  obtain ⟨c, hc, hb⟩ := List.mem_flatMap.mp hb
  exact hcell c hc b hb

theorem newline_of_plain {s : CString} (h : PlainText s) : 0x0a ∉ s :=
  fun hb => absurd (h _ hb) (by decide)

/-- The prayers' rows stand for their cells, between rows that do not depend on the day. -/
theorem dayLines_shape (h : DayOf cfg date day) (hne : date ≠ lastShown) (useColors : Bool)
    (timeFormat : ℤ) : ∀ line ∈ dayLines useColors timeFormat day,
      line.length = 73 ∧ PlainText line := by
  have hedge : (rule 0x2b 0x2d [10, 10, 8, 8, 21] : CString).length = 73 ∧
      PlainText (rule 0x2b 0x2d [10, 10, 8, 8, 21]) := by decide
  have hheader : (row 0x20 0x7c [⟨0x20, 10, ascii "Date"⟩, ⟨0x20, 10, ascii "Prayer"⟩,
      ⟨0x20, 8, ascii "Time"⟩, ⟨0x20, 8, ascii "Status"⟩, ⟨0x20, 21, ascii "Reminders"⟩]).length =
      73 ∧ PlainText (row 0x20 0x7c [⟨0x20, 10, ascii "Date"⟩, ⟨0x20, 10, ascii "Prayer"⟩,
      ⟨0x20, 8, ascii "Time"⟩, ⟨0x20, 8, ascii "Status"⟩, ⟨0x20, 21, ascii "Reminders"⟩]) := by
    decide
  have hrow : ∀ type, (row 0x20 0x7c (dayCells useColors timeFormat day type)).length = 73 ∧
      PlainText (row 0x20 0x7c (dayCells useColors timeFormat day type)) := by
    intro type
    have hstatus : ∀ enabled : Bool,
        PlainText (if enabled then ascii "Enabled" else ascii "Disabled") := by
      intro enabled
      cases enabled <;> decide
    have hmark : ∀ marked : Bool, isPlainText (if marked then 0x3e else 0x20) = true := by decide
    refine ⟨row_length 0x20 0x7c fun c hc => (h.cells_fit hne useColors timeFormat type c hc).length,
      row_plain ?_⟩
    simp only [dayCells, List.forall_mem_cons]
    exact ⟨⟨by decide, dateCell_plain _ _⟩, ⟨hmark _, prayerGetName_plain type⟩,
      ⟨by decide, formatCell_plain timeFormat _ _⟩, ⟨by decide, hstatus _⟩,
      ⟨by decide, remindersCell_plain _⟩, List.forall_mem_nil _⟩
  intro line hline
  simp only [dayLines, List.mem_append, List.mem_cons, List.not_mem_nil, or_false,
    List.mem_map] at hline
  rcases hline with ((rfl | rfl | rfl) | ⟨type, -, rfl⟩) | rfl
  · exact hedge
  · exact hheader
  · exact hedge
  · exact hrow type
  · exact hedge

/-- The texts of a prayer's row. -/
def shownCells (date : CivilDate) (timeFormat : ℤ) (type : PrayerType) (p : MuslimtifyPrayer) :
    List CString :=
  [dateText (mtCivilFromDays (dayNumber date + p.time.dayOffset)), prayerGetName type,
    formatCell p.time timeFormat false,
    if p.enabled then ascii "Enabled" else ascii "Disabled", remindersShown p]

/-- The table of a day as a terminal shows it, with colours or without them: lines of one
length, a row for each prayer with the day it falls on, and colours add the mark only. -/
theorem day_table_aligned (hc : cfg.InRange) (h : muslimtifyDayAt H cfg now date = .ok day)
    (hne : date ≠ lastShown) (useColors : Bool) (timeFormat : ℤ) :
    ∃ top rows bottom : List CString,
      completeLines 0x0a (visible (displayDayTable useColors timeFormat day)) =
        top ++ rows ++ bottom ++ [[]] ∧
      (∀ line ∈ top ++ rows ++ bottom, line.length = 73) ∧
      rows.map (readRow 0x20 [10, 10, 8, 8, 21]) =
        prayerTypes.map (fun type => shownCells date timeFormat type (day.prayers type)) ∧
      rows.map (readLeads [10, 10, 8, 8, 21]) = prayerTypes.map fun type =>
        [some 0x20, some (if useColors && (day.prayers type).enabled &&
          prayerTypes.idxOf type = day.next then 0x3e else 0x20), some 0x20, some 0x20,
          some 0x20] := by
  have hday := muslimtifyDayAt_dayOf hc h
  have hshape := dayLines_shape hday hne useColors timeFormat
  have hlines : completeLines 0x0a (visible (displayDayTable useColors timeFormat day)) =
      dayLines useColors timeFormat day ++ [[]] := by
    have hend : unlines (0x0a : UInt8) (dayLines useColors timeFormat day) ++ [0x0a] =
        unlines 0x0a (dayLines useColors timeFormat day ++ [[]]) := by
      rw [unlines_append]
      rfl
    rw [visible_displayDayTable, hend, completeLines_unlines]
    intro line hline
    rcases List.mem_append.mp hline with hline | hline
    · exact newline_of_plain (hshape line hline).2
    · rw [List.mem_singleton.mp hline]
      exact List.not_mem_nil
  refine ⟨_, _, _, hlines, fun line hline => (hshape line hline).1, ?_, ?_⟩
  · rw [List.map_map]
    refine List.map_congr_left fun type _ => ?_
    rw [Function.comp, show [10, 10, 8, 8, 21] = (dayCells useColors timeFormat day type).map
      Cell.width from rfl, readRow_row 0x20 0x7c (hday.cells_fit hne useColors timeFormat type),
      shownCells, ← hday.dateCell type, ← remindersCell_shown (hday.prayers type)]
    rfl
  · rw [List.map_map]
    refine List.map_congr_left fun type _ => ?_
    rw [Function.comp, show [10, 10, 8, 8, 21] = (dayCells useColors timeFormat day type).map
      Cell.width from rfl, readLeads_row 0x20 0x7c fun c hc =>
        (hday.cells_fit hne useColors timeFormat type c hc).length]
    rfl

theorem day_table_aligned_north :
    ∃ day : ShownDay,
      muslimtifyDayAt (steadyHost juneTimes) farNorth springEve ⟨2026, 6, 17⟩ = .ok day ∧
      ∃ rows : List CString, rows.map (readRow 0x20 [10, 10, 8, 8, 21]) =
        prayerTypes.map (fun type => shownCells ⟨2026, 6, 17⟩ 12 type (day.prayers type)) := by
  obtain ⟨day, hday⟩ := northDay_ok
  obtain ⟨-, rows, -, -, -, hrows, -⟩ :=
    day_table_aligned farNorth_inRange hday (by decide) true 12
  exact ⟨day, hday, rows, hrows⟩

end Days

section RangeTable

def rangeHrule (inner : ℕ) : CString := ascii "+" ++ List.replicate inner 0x2d ++ ascii "+\n"

def printDayMarkerLegend (anyNext anyPrev : Bool) : CString :=
  (if anyNext then ascii "  + falls after midnight, on the next day\n" else []) ++
    if anyPrev then ascii "  - falls before midnight, on the previous day\n" else []

variable (timeFormat : ℤ)

/-- The columns, `col` in the source. -/
def enabledPrayers (day : MuslimtifyDay) : List PrayerType :=
  prayerTypes.filter fun type => (day.prayers type).enabled

/-- Whether a cell of these columns will carry such a mark. -/
def anyOffset (days : List MuslimtifyDay) (col : List PrayerType) (marked : ℤ → Bool) : Bool :=
  days.any fun day => col.any fun type => marked (day.prayers type).time.dayOffset

def columnWidth (hasMarker : Bool) (type : PrayerType) : ℕ :=
  let clockW := if timeFormat = 12 then 8 else 5
  let minColW := if hasMarker then clockW + 1 else clockW
  let len := (prayerGetName type).length
  if minColW < len then len else minColW

def printRangeRow (col : List PrayerType) (colW : PrayerType → ℕ) (date : CString)
    (text : PrayerType → CString) : CString :=
  ascii "| " ++ date ++ ascii " " ++
    col.flatMap (fun type => ascii "| " ++ column (colW type) (text type) ++ ascii " ") ++
    ascii "|\n"

/-- The table with these columns, without its legend. -/
def printRangeTable (col : List PrayerType) (colW : PrayerType → ℕ) (days : List MuslimtifyDay) :
    CString :=
  let rowLen := col.foldl (fun len type => len + (colW type + 3)) (1 + (10 + 3))
  rangeHrule (rowLen - 2) ++ printRangeRow col colW (column 10 (ascii "Date")) prayerGetName ++
    rangeHrule (rowLen - 2) ++
    days.flatMap (fun day => printRangeRow col colW (dateText day.date)
      fun type => formatCell (day.prayers type).time timeFormat true) ++
    rangeHrule (rowLen - 2)

def displayRangeTable (days : List MuslimtifyDay) : CString :=
  match days with
  | [] => []
  | first :: _ =>
      let col := enabledPrayers first
      let anyNext := anyOffset days col (0 < ·)
      let anyPrev := anyOffset days col (· < 0)
      printRangeTable timeFormat col (columnWidth timeFormat (anyNext || anyPrev)) days ++
        printDayMarkerLegend anyNext anyPrev

end RangeTable

section RangeCells
variable (timeFormat : ℤ)

/-- The cells of a row with a date and the texts of the columns. -/
def rangeCells (colW : PrayerType → ℕ) (col : List PrayerType) (date : CString)
    (text : PrayerType → CString) : List (Cell UInt8) :=
  ⟨0x20, 10, date⟩ :: col.map fun type => ⟨0x20, colW type, text type⟩

theorem printRangeRow_row {col : List PrayerType} {colW : PrayerType → ℕ} {date : CString}
    {text : PrayerType → CString} (t : CString) :
    printRangeRow col colW (column 10 date) text ++ t =
      row 0x20 0x7c (rangeCells colW col date text) ++ 0x0a :: t := by
  have hcol : (col.map fun type => (⟨0x20, colW type, text type⟩ : Cell UInt8)).flatMap
      (Cell.printed 0x20 0x7c) =
      col.flatMap fun type => ascii "| " ++ column (colW type) (text type) ++ ascii " " := by
    rw [List.flatMap_map]
    rfl
  rw [printRangeRow, rangeCells, row, List.flatMap_cons, hcol, Cell.printed]
  simp only [List.append_assoc, List.cons_append]
  rfl

theorem columnWidth_name (hasMarker : Bool) (type : PrayerType) :
    (prayerGetName type).length ≤ columnWidth timeFormat hasMarker type := by
  unfold columnWidth
  dsimp only
  generalize (prayerGetName type).length = len
  generalize (if hasMarker = true then (if timeFormat = 12 then 8 else 5) + 1
    else if timeFormat = 12 then 8 else 5) = minColW
  split_ifs with h
  · exact le_rfl
  · exact Nat.not_lt.mp h

theorem columnWidth_clock (hasMarker : Bool) (type : PrayerType) :
    (if timeFormat = 12 then 8 else 5) + (if hasMarker then 1 else 0) ≤
      columnWidth timeFormat hasMarker type := by
  unfold columnWidth
  dsimp only
  generalize (prayerGetName type).length = len
  generalize (if timeFormat = 12 then 8 else 5) = clockW
  cases hasMarker with
  | false =>
      simp only [Bool.false_eq_true, if_false]
      split_ifs <;> omega
  | true =>
      simp only [if_true]
      split_ifs <;> omega

theorem anyOffset_of_mem {days : List MuslimtifyDay} {col : List PrayerType} {day : MuslimtifyDay}
    {type : PrayerType} (hday : day ∈ days) (htype : type ∈ col)
    (h : (day.prayers type).time.dayOffset ≠ 0) :
    (anyOffset days col (0 < ·) || anyOffset days col (· < 0)) = true := by
  rw [Bool.or_eq_true]
  rcases lt_or_gt_of_ne h with hprev | hnext
  · exact Or.inr (List.any_eq_true.mpr ⟨day, hday, List.any_eq_true.mpr
      ⟨type, htype, decide_eq_true hprev⟩⟩)
  · exact Or.inl (List.any_eq_true.mpr ⟨day, hday, List.any_eq_true.mpr
      ⟨type, htype, decide_eq_true hnext⟩⟩)

/-- A cell of the table fits its column, mark included. -/
theorem rangeCell_fits {days : List MuslimtifyDay} {col : List PrayerType} {day : MuslimtifyDay}
    {type : PrayerType} (hday : day ∈ days) (htype : type ∈ col) :
    FitsIn 0x20 (columnWidth timeFormat
        (anyOffset days col (0 < ·) || anyOffset days col (· < 0)) type)
      (formatCell (day.prayers type).time timeFormat true) := by
  refine ⟨(formatCell_length _ _ _).trans ((Nat.add_le_add_left ?_ _).trans
    (columnWidth_clock timeFormat _ type)), last_formatCell _ _ _⟩
  by_cases h : (day.prayers type).time.dayOffset = 0
  · simp [h]
  · rw [anyOffset_of_mem hday htype h]
    simp [h]

/-- `+-----+` -/
def edge (rowLen : ℕ) : CString := 0x2b :: (List.replicate (rowLen - 2) 0x2d ++ [0x2b])

theorem edge_length {rowLen : ℕ} (h : 2 ≤ rowLen) : (edge rowLen).length = rowLen := by
  rw [edge, List.length_cons, List.length_append, List.length_replicate]
  exact Nat.sub_add_cancel h

theorem rangeHrule_edge (rowLen : ℕ) (t : CString) :
    rangeHrule (rowLen - 2) ++ t = edge rowLen ++ 0x0a :: t := by
  rw [rangeHrule, edge]
  simp only [List.append_assoc, List.cons_append]
  rfl

theorem rowLen_eq (colW : PrayerType → ℕ) (col : List PrayerType) :
    col.foldl (fun len type => len + (colW type + 3)) (1 + (10 + 3)) =
      rowLength (10 :: col.map colW) := by
  have hsum : ∀ n, col.foldl (fun len type => len + (colW type + 3)) n =
      n + (col.map fun type => colW type + 3).sum := by
    intro n
    induction col generalizing n with
    | nil => rfl
    | cons type col ih => rw [List.foldl_cons, ih, List.map_cons, List.sum_cons, Nat.add_assoc]
  rw [hsum, rowLength, List.map_cons, List.sum_cons, List.map_map]
  simp only [Function.comp_def]
  omega

/-- The rows of the days. -/
def rangeRows (col : List PrayerType) (colW : PrayerType → ℕ) (days : List MuslimtifyDay) :
    List CString :=
  days.map fun day => row 0x20 0x7c (rangeCells colW col (dateText day.date)
    fun type => formatCell (day.prayers type).time timeFormat true)

theorem printRangeTable_lines {col : List PrayerType} {colW : PrayerType → ℕ}
    {days : List MuslimtifyDay} (hdates : ∀ day ∈ days, (dateText day.date).length = 10)
    (t : CString) :
    printRangeTable timeFormat col colW days ++ t =
      let edge := edge (rowLength (10 :: col.map colW))
      unlines 0x0a ([edge, row 0x20 0x7c (rangeCells colW col (ascii "Date") prayerGetName), edge] ++
        rangeRows timeFormat col colW days ++ [edge]) ++ t := by
  have hrows : ∀ ds : List MuslimtifyDay, (∀ day ∈ ds, (dateText day.date).length = 10) → ∀ t,
      ds.flatMap (fun day => printRangeRow col colW (dateText day.date)
        fun type => formatCell (day.prayers type).time timeFormat true) ++ t =
      unlines 0x0a (rangeRows timeFormat col colW ds) ++ t := by
    intro ds hds t
    induction ds with
    | nil => rfl
    | cons day ds ih =>
        obtain ⟨hday, hds⟩ := List.forall_mem_cons.mp hds
        have hdate : dateText day.date = column 10 (dateText day.date) := by
          rw [column, padRight, hday, Nat.sub_self, List.replicate_zero, List.append_nil]
        have hrow := @printRangeRow_row col colW (dateText day.date)
          (fun type => formatCell (day.prayers type).time timeFormat true)
        rw [← hdate] at hrow
        have hcons : rangeRows timeFormat col colW (day :: ds) =
            row 0x20 0x7c (rangeCells colW col (dateText day.date)
              fun type => formatCell (day.prayers type).time timeFormat true) ::
              rangeRows timeFormat col colW ds := rfl
        rw [List.flatMap_cons, List.append_assoc, ih hds, hrow, hcons, unlines_cons]
        simp only [List.append_assoc, List.cons_append]
  rw [printRangeTable]
  simp only [rowLen_eq, List.append_assoc, rangeHrule_edge, printRangeRow_row, hrows days hdates,
    unlines_append, unlines_cons, List.cons_append]
  rfl

/-- A table whose cells fit its columns has lines of one length, and its cells are read back. -/
theorem printRangeTable_aligned {col : List PrayerType} {colW : PrayerType → ℕ}
    {days : List MuslimtifyDay} (hdates : ∀ day ∈ days, (dateText day.date).length = 10)
    (hname : ∀ type ∈ col, FitsIn 0x20 (colW type) (prayerGetName type))
    (hcell : ∀ day ∈ days, ∀ type ∈ col,
      FitsIn 0x20 (colW type) (formatCell (day.prayers type).time timeFormat true))
    {legend : List CString} (hlegend : ∀ line ∈ legend, PlainText line) :
    ∃ top rows bottom : List CString,
      completeLines 0x0a (printRangeTable timeFormat col colW days ++ unlines 0x0a legend) =
        top ++ rows ++ bottom ++ legend ∧
      (∀ line ∈ top ++ rows ++ bottom, line.length = rowLength (10 :: col.map colW)) ∧
      rows.map (readRow 0x20 (10 :: col.map colW)) = days.map fun day =>
        dateText day.date :: col.map fun type =>
          formatCell (day.prayers type).time timeFormat true := by
  have hblank : isPlainText 0x20 = true := by decide
  have hwidths : ∀ date text, (rangeCells colW col date text).map Cell.width =
      10 :: col.map colW := by
    intro date text
    rw [rangeCells, List.map_cons, List.map_map]
    rfl
  have hfits : ∀ day ∈ days, ∀ c ∈ rangeCells colW col (dateText day.date)
      (fun type => formatCell (day.prayers type).time timeFormat true), c.Fits 0x20 :=
    fun day hday => List.forall_mem_cons.mpr
      ⟨⟨(hdates day hday).le, last_of_solid (solid_dateText _)⟩,
        List.forall_mem_map.mpr (hcell day hday)⟩
  have hheader : ∀ c ∈ rangeCells colW col (ascii "Date") prayerGetName, c.Fits 0x20 :=
    List.forall_mem_cons.mpr ⟨⟨by decide, by decide⟩, List.forall_mem_map.mpr hname⟩
  have hedge : (edge (rowLength (10 :: col.map colW))).length = rowLength (10 :: col.map colW) ∧
      PlainText (edge (rowLength (10 :: col.map colW))) := by
    refine ⟨edge_length ?_, .cons (by decide) (.append (fun b hb => ?_) (by decide))⟩
    · rw [rowLength, List.map_cons, List.sum_cons]
      omega
    · rw [List.eq_of_mem_replicate hb]
      decide
  have hshape : ∀ date text, (∀ c ∈ rangeCells colW col date text, c.Fits 0x20) →
      PlainText date → (∀ type, PlainText (text type)) →
      (row 0x20 0x7c (rangeCells colW col date text)).length = rowLength (10 :: col.map colW) ∧
        PlainText (row 0x20 0x7c (rangeCells colW col date text)) := by
    intro date text hfits hdate htext
    rw [← hwidths date text]
    exact ⟨row_length 0x20 0x7c fun c hc => (hfits c hc).length,
      row_plain (List.forall_mem_cons.mpr ⟨⟨hblank, hdate⟩,
        List.forall_mem_map.mpr fun type _ => ⟨hblank, htext type⟩⟩)⟩
  have hrow : ∀ line ∈ rangeRows timeFormat col colW days,
      line.length = rowLength (10 :: col.map colW) ∧ PlainText line :=
    List.forall_mem_map.mpr fun day hday => hshape _ _ (hfits day hday) (dateText_plain _)
      fun type => formatCell_plain timeFormat _ true
  have htop := hshape _ _ hheader (by decide) prayerGetName_plain
  have hlines := @printRangeTable_lines timeFormat col colW days hdates (unlines 0x0a legend)
  dsimp only at hlines
  generalize edge (rowLength (10 :: col.map colW)) = line at hedge hlines
  generalize row 0x20 0x7c (rangeCells colW col (ascii "Date") prayerGetName) = header at htop hlines
  have hall : ∀ l ∈ [line, header, line] ++ rangeRows timeFormat col colW days ++ [line],
      l.length = rowLength (10 :: col.map colW) ∧ PlainText l := by
    simp only [List.forall_mem_append, List.forall_mem_cons]
    exact ⟨⟨⟨hedge, htop, hedge, List.forall_mem_nil _⟩, hrow⟩, hedge, List.forall_mem_nil _⟩
  refine ⟨[line, header, line], rangeRows timeFormat col colW days, [line], ?_,
    fun l hl => (hall l hl).1, ?_⟩
  · rw [hlines, ← unlines_append, completeLines_unlines]
    exact List.forall_mem_append.mpr ⟨fun l hl => newline_of_plain (hall l hl).2,
      fun l hl => newline_of_plain (hlegend l hl)⟩
  · rw [rangeRows, List.map_map]
    refine List.map_congr_left fun day hday => ?_
    rw [Function.comp, ← hwidths (dateText day.date) fun type =>
      formatCell (day.prayers type).time timeFormat true, readRow_row 0x20 0x7c (hfits day hday),
      rangeCells, List.map_cons, List.map_map]
    rfl

end RangeCells

section Ranges
variable {H : Host} {cfg : Config} {now : Tm}

theorem dateText_length {date : CivilDate} (h : InCalendar date) :
    (dateText date).length = 10 := by
  have hy := h.year
  exact FourDigits.length ⟨⟨by omega, hy.2⟩, h.month, h.day.1, h.day_le⟩

theorem enabledPrayers_eq {date : CivilDate} {day : ShownDay} (h : DayOf cfg date day) :
    enabledPrayers day.toMuslimtifyDay =
      prayerTypes.filter fun type => (prayerGetConfig cfg type).enabled :=
  List.filter_congr fun type _ => h.enabled type

/-- A range that succeeds has a day. -/
theorem muslimtifyRange_ne_nil {start end_ : CivilDate} {cap count : ℕ}
    (h : (muslimtifyRange H (some cfg) now start end_ cap count).error = .ok) :
    (muslimtifyRange H (some cfg) now start end_ cap count).out ≠ [] := by
  obtain ⟨n, hn⟩ : ∃ n, Spans start end_ n := by
    obtain ⟨-, -, ⟨n, hn, -⟩, -⟩ := (range_exact H (some cfg) now start end_ cap count).1.mp h
    exact ⟨n, hn⟩
  have hcount := congrArg List.length
    ((range_exact H (some cfg) now start end_ cap count).2.1 h n hn).2
  rw [List.length_map, List.length_map, List.length_range] at hcount
  intro hnil
  rw [hnil] at hcount
  cases hcount

/-- The mark of a column asks for a time of the next day, or of the previous one. -/
theorem anyOffset_falls {days : List ShownDay} (hdays : ∀ day ∈ days, ∃ date, DayOf cfg date day)
    (col : List PrayerType) {marked : ℤ → Bool} {offset : ℤ}
    (hmarked : ∀ z : ℤ, -1 ≤ z ∧ z ≤ 1 → marked z = decide (z = offset)) :
    anyOffset (days.map (·.toMuslimtifyDay)) col marked =
      days.any fun day => col.any fun type => (day.prayers type).time.dayOffset = offset := by
  rw [anyOffset, List.any_map, Bool.eq_iff_iff, List.any_eq_true, List.any_eq_true]
  refine exists_congr fun day => and_congr_right fun hday => ?_
  obtain ⟨date, hday⟩ := hdays day hday
  rw [Function.comp, List.any_eq_true, List.any_eq_true]
  refine exists_congr fun type => and_congr_right fun _ => ?_
  rw [hmarked _ (hday.prayers type).dayOffset]

/-- The table of a range: lines of one length with a column for each enabled prayer and a row for
each day, whose cells mark a time of the day after or before, and a legend for these marks. -/
theorem range_table_aligned (hc : cfg.InRange) {start end_ : CivilDate} {cap count : ℕ}
    (h : (muslimtifyRange H (some cfg) now start end_ cap count).error = .ok) (timeFormat : ℤ) :
    let days := (muslimtifyRange H (some cfg) now start end_ cap count).out
    let types := prayerTypes.filter fun type => (prayerGetConfig cfg type).enabled
    let falls := fun offset : ℤ => days.any fun day =>
      types.any fun type => (day.prayers type).time.dayOffset = offset
    ∃ (widths : List ℕ) (top rows bottom : List CString),
      completeLines 0x0a (displayRangeTable timeFormat (days.map (·.toMuslimtifyDay))) =
        top ++ rows ++ bottom ++
          (if falls 1 then [ascii "  + falls after midnight, on the next day"] else []) ++
          (if falls (-1) then [ascii "  - falls before midnight, on the previous day"] else []) ∧
      (∀ line ∈ top ++ rows ++ bottom, line.length = rowLength widths) ∧
      rows.map (readRow 0x20 widths) = days.map fun day =>
        dateText day.date :: types.map fun type =>
          formatCell (day.prayers type).time timeFormat true := by
  intro days types falls
  have hdays : ∀ day ∈ days, ∃ date, DayOf cfg date day := fun day hday =>
    (muslimtifyRange_each h day hday).imp fun date hdate => muslimtifyDayAt_dayOf hc hdate
  have hdates : ∀ day ∈ days.map (·.toMuslimtifyDay), (dateText day.date).length = 10 := by
    refine List.forall_mem_map.mpr fun day hday => ?_
    obtain ⟨date, hday⟩ := hdays day hday
    rw [hday.date_eq]
    exact dateText_length hday.calendar
  have hnext : anyOffset (days.map (·.toMuslimtifyDay)) types (0 < ·) = falls 1 :=
    anyOffset_falls hdays types fun z hz => by
      rw [decide_eq_decide]
      omega
  have hprev : anyOffset (days.map (·.toMuslimtifyDay)) types (· < 0) = falls (-1) :=
    anyOffset_falls hdays types fun z hz => by
      rw [decide_eq_decide]
      omega
  let colW := columnWidth timeFormat (falls 1 || falls (-1))
  have htable : displayRangeTable timeFormat (days.map (·.toMuslimtifyDay)) =
      printRangeTable timeFormat types colW (days.map (·.toMuslimtifyDay)) ++
        printDayMarkerLegend (falls 1) (falls (-1)) := by
    cases hlist : days with
    | nil => exact absurd hlist (muslimtifyRange_ne_nil h)
    | cons first rest =>
        obtain ⟨date, hfirst⟩ := hdays first (hlist ▸ List.mem_cons_self)
        rw [hlist] at hnext hprev
        rw [List.map_cons] at hnext hprev ⊢
        rw [displayRangeTable, enabledPrayers_eq hfirst, hnext, hprev]
  have hlegend : printDayMarkerLegend (falls 1) (falls (-1)) = unlines 0x0a
      ((if falls 1 then [ascii "  + falls after midnight, on the next day"] else []) ++
        if falls (-1) then [ascii "  - falls before midnight, on the previous day"] else []) := by
    cases falls 1 <;> cases falls (-1) <;> decide
  have hcell : ∀ day ∈ days.map (·.toMuslimtifyDay), ∀ type ∈ types,
      FitsIn 0x20 (colW type) (formatCell (day.prayers type).time timeFormat true) := by
    intro day hday type htype
    have hfits := rangeCell_fits timeFormat hday htype
    rwa [hnext, hprev] at hfits
  have hname : ∀ type ∈ types, FitsIn 0x20 (colW type) (prayerGetName type) := fun type _ =>
    ⟨columnWidth_name timeFormat _ type, by cases type <;> decide⟩
  have hplain : ∀ next prev : Bool, ∀ line ∈
      (if next then [ascii "  + falls after midnight, on the next day"] else []) ++
        (if prev then [ascii "  - falls before midnight, on the previous day"] else []),
      PlainText line := by decide
  obtain ⟨top, rows, bottom, hlines, hlength, hcells⟩ :=
    printRangeTable_aligned timeFormat hdates hname hcell (hplain (falls 1) (falls (-1)))
  refine ⟨10 :: types.map colW, top, rows, bottom, ?_, hlength, ?_⟩
  · rw [htable, hlegend, hlines, List.append_assoc (top ++ rows ++ bottom)]
  · rw [hcells, List.map_map]
    rfl

theorem range_table_aligned_north :
    let days := (muslimtifyRange (steadyHost juneTimes) (some farNorth) springEve ⟨2026, 2, 27⟩
      ⟨2026, 3, 1⟩ 366 0).out
    let types := prayerTypes.filter fun type => (prayerGetConfig farNorth type).enabled
    ∃ (widths : List ℕ) (rows : List CString),
      rows.map (readRow 0x20 widths) = days.map fun day =>
        dateText day.date :: types.map fun type =>
          formatCell (day.prayers type).time 24 true := by
  obtain ⟨widths, -, rows, -, -, -, hrows⟩ := range_table_aligned farNorth_inRange northRange_ok 24
  exact ⟨widths, rows, hrows⟩

end Ranges

end Muslimtify.DisplayTables
