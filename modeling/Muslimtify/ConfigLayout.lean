import Muslimtify.ConfigFile
import Muslimtify.JsonLayout

/-!
# The layout of the configuration file does not matter

The schema of `config.json` lists what `config_load` looks up at each level.
Two documents of that schema that differ only in layout are read field by field
from the same values: scalars are handed out alike, the reminder loop skips
white space and commas and so sees only the numbers, and sections lead to
objects for which the same holds. So both load as one configuration.
-/
namespace Muslimtify.ConfigLayout
open CText JsonReader JsonDocument JsonGrammar JsonLookup JsonLayout Settings ConfigFile

section Schema

/-- The objects that the reader goes through. -/
inductive Level where
  | root | location | prayers | prayer | notification | calculation | display
  deriving DecidableEq, Repr

/-- What `config_load` looks up, and as what. -/
def schema : Schema Level
  | .root => [("location", .object .location), ("prayers", .object .prayers),
      ("notification", .object .notification), ("calculation", .object .calculation),
      ("display", .object .display)]
  | .location => [("latitude", .scalar), ("longitude", .scalar), ("timezone", .scalar),
      ("timezone_offset", .scalar), ("auto_detect", .scalar), ("use_gps", .scalar),
      ("city", .scalar), ("country", .scalar), ("updated_at", .scalar),
      ("refresh_interval", .scalar)]
  | .prayers => [("fajr", .object .prayer), ("dhuhr", .object .prayer), ("asr", .object .prayer),
      ("maghrib", .object .prayer), ("isha", .object .prayer)]
  | .prayer => [("enabled", .scalar), ("adhan", .scalar), ("adhan_enabled", .scalar),
      ("reminders", .naturals), ("offset", .scalar)]
  | .notification => [("timeout", .scalar), ("urgency", .scalar), ("sound", .scalar),
      ("sound_alarm", .scalar), ("sound_reminder", .scalar), ("icon", .scalar)]
  | .calculation => [("method", .scalar), ("madhab", .scalar), ("fajr_angle", .scalar),
      ("isha_angle", .scalar)]
  | .display => [("time_format", .scalar)]

theorem schema_printable : schema.Printable := by
  intro level
  cases level <;> exact List.forall_mem_iff_forall_getElem.mpr (by decide)

end Schema

section Reminders

/-- The reminders taken from the numbers of an array, until there is no room. -/
def takeReminders : List CString → FixedArray ℤ maxReminders → FixedArray ℤ maxReminders
  | [], reminders => reminders
  | text :: texts, reminders =>
      if reminders.items.length < maxReminders then
        takeReminders texts
          (if 0 < strtol text ∧ strtol text ≤ 1440 then reminders.push (strtol text)
            else reminders)
      else reminders

private theorem natural_digits {v : Json} (h : isNatural v = true) :
    ∃ ds : Digits, v.text = ds.bytes ∧ scalarText v = some ds.bytes := by
  cases v with
  | number n =>
      simp only [isNatural, Bool.and_eq_true, Bool.not_eq_true', Option.isNone_iff_eq_none] at h
      obtain ⟨⟨hm, hf⟩, he⟩ := h
      have htext : n.text = n.int.bytes := by simp [Number.text, hm, hf, he, fracText, expText]
      exact ⟨n.int, htext, congrArg some htext⟩
  | string s => cases h
  | literal l => cases h
  | array w es => cases h
  | object w ms => cases h

private theorem separator_no_digit : ∀ c : UInt8, isSeparator c = true → isDigit c = false :=
  forall_byte (by decide +kernel)

private theorem digit_no_separator : ∀ c : UInt8, isDigit c = true → isSeparator c = false :=
  forall_byte (by decide +kernel)

/-- A turn of the loop takes one number. -/
private theorem reminderLoop_step {w : CString} (hw : ∀ c ∈ w, isSeparator c = true)
    (ds : Digits) {s : CString} (hs : NoDigitHead s) (n : ℕ) (a : FixedArray ℤ maxReminders) :
    reminderLoop (n + 1) (w ++ (ds.bytes ++ s)) a =
      if a.items.length < maxReminders then
        reminderLoop n s
          (if 0 < strtol ds.bytes ∧ strtol ds.bytes ≤ 1440 then a.push (strtol ds.bytes) else a)
      else a := by
  obtain ⟨d, t, hdt⟩ := List.exists_cons_of_ne_nil ds.ne_nil
  have hd : isDigit d = true := ds.isDigit d (by simp [hdt])
  have hdrop : (w ++ (ds.bytes ++ s)).dropWhile isSeparator = d :: (t ++ s) := by
    rw [List.dropWhile_append_of_pos hw, hdt, List.cons_append,
      List.dropWhile_cons_of_neg (by simp [digit_no_separator d hd])]
  have hend : strtolEnd (d :: (t ++ s)) = (strtol ds.bytes, s) := by
    have h := strtolEnd_digits ds.ne_nil ds.isDigit hs
    rwa [hdt, List.cons_append, ← hdt] at h
  rw [reminderLoop, hdrop]
  simp only [hd, if_true, hend]

/-- What follows a number is separators and the text of the other elements. -/
private theorem more_split (es : Elements) {w : CString} (hw : ∀ c ∈ w, isSeparator c = true) :
    ∃ w' : CString, (∀ c ∈ w', isSeparator c = true) ∧ w ++ es.more = w' ++ es.text := by
  cases es with
  | nil => exact ⟨w, hw, rfl⟩
  | cons before v after rest =>
      refine ⟨w ++ [comma], ?_, ?_⟩
      · intro c hc
        rcases List.mem_append.mp hc with hc | hc
        · exact hw c hc
        · obtain rfl := List.mem_singleton.mp hc
          decide
      · simp [Elements.more, Elements.text]

private theorem noDigit_more {w : CString} (hw : ∀ c ∈ w, isSeparator c = true)
    (es : Elements) : NoDigitHead (w ++ (es.more ++ [arrayClose])) := by
  cases w with
  | cons c w => exact noDigitHead_cons (separator_no_digit c (hw c (by simp)))
  | nil =>
      cases es with
      | nil => exact noDigitHead_cons (by decide)
      | cons before v after rest => exact noDigitHead_cons (by decide)

private theorem blank_separators {w : CString} (hw : Blank w) : ∀ c ∈ w, isSeparator c = true :=
  fun c hc => by simp [isSeparator, hw c hc]

/-- Over the text of an array of numbers the loop takes the numbers in turn. -/
theorem reminderLoop_elements : ∀ (es : Elements), (∀ e ∈ es.list, isNatural e = true) →
    ∀ (w : CString) (n : ℕ) (a : FixedArray ℤ maxReminders), (∀ c ∈ w, isSeparator c = true) →
      (w ++ (es.text ++ [arrayClose])).length ≤ n →
        reminderLoop n (w ++ (es.text ++ [arrayClose])) a =
          takeReminders (es.list.filterMap scalarText) a
  | .nil, _, w, n, a, hw, hn => by
      cases n with
      | zero => simp at hn
      | succ n =>
          have hdrop : (w ++ [arrayClose]).dropWhile isSeparator = [arrayClose] := by
            rw [List.dropWhile_append_of_pos hw]
            decide
          have hdigit : ¬isDigit arrayClose = true := by decide
          simp only [Elements.text, List.nil_append, reminderLoop, hdrop, if_neg hdigit]
          exact ite_self a
  | .cons before v after rest, hnat, w, n, a, hw, hn => by
      cases n with
      | zero => simp at hn
      | succ n =>
          obtain ⟨ds, htext, hscalar⟩ := natural_digits (hnat v (by simp [Elements.list]))
          have hafter := blank_separators (ws_blank after)
          obtain ⟨w', hw', hsplit⟩ := more_split rest hafter
          have hlist : (Elements.cons before v after rest).list.filterMap scalarText =
              ds.bytes :: rest.list.filterMap scalarText := by
            simp [Elements.list, hscalar]
          have hfull : w ++ ((Elements.cons before v after rest).text ++ [arrayClose]) =
              (w ++ before.bytes) ++ (ds.bytes ++ (w' ++ (rest.text ++ [arrayClose]))) := by
            rw [Elements.text, htext, hsplit]
            simp
          have hlead : ∀ c ∈ w ++ before.bytes, isSeparator c = true := by
            intro c hc
            rcases List.mem_append.mp hc with hc | hc
            · exact hw c hc
            · exact blank_separators (ws_blank before) c hc
          have hhead : NoDigitHead (w' ++ (rest.text ++ [arrayClose])) := by
            rw [← List.append_assoc, ← hsplit, List.append_assoc]
            exact noDigit_more hafter rest
          have hlen := hn
          rw [hfull] at hlen ⊢
          rw [reminderLoop_step hlead ds hhead, hlist, takeReminders]
          have hpos : 0 < ds.bytes.length := List.length_pos_iff.mpr ds.ne_nil
          simp only [List.length_append] at hlen
          rw [reminderLoop_elements rest (fun e he => hnat e (by simp [Elements.list, he])) w' n _
            hw' (by simp only [List.length_append]; omega)]

theorem parseReminders_array (old : FixedArray ℤ maxReminders) (w : Ws) {es : Elements}
    (hes : ∀ e ∈ es.list, isNatural e = true) :
    parseReminders old (Json.array w es).text =
      takeReminders (es.list.filterMap scalarText) .empty :=
  reminderLoop_elements es hes w.bytes _ _ (blank_separators (ws_blank w)) (by simp)

end Reminders

section Sections

theorem field_congr {α : Type} {key : String} {s t : CString} {kind : Kind Level} {old : α}
    {read : CString → α}
    (h : SameRead schema kind (getValue (ascii key) s) (getValue (ascii key) t))
    (hread : ∀ a b, SameRead schema kind (some a) (some b) → read a = read b) :
    field key s old read = field key t old read := by
  unfold field
  generalize getValue (ascii key) s = a at h
  generalize getValue (ascii key) t = b at h
  cases h with
  | absent => rfl
  | scalar => rfl
  | naturals h₁ h₂ h₃ => exact hread _ _ (.naturals h₁ h₂ h₃)
  | object h => exact hread _ _ (.object h)

private theorem read_scalar {α : Type} (read : CString → α) (a b : CString)
    (h : SameRead schema .scalar (some a) (some b)) : read a = read b := by
  cases h
  rfl

section Fields
variable {level : Level} {ms ns : Members} (h : Twin schema level ms ns) (w w' : Ws)
include h

/-- A field that is read from the scalar it leads to. -/
theorem scalar_field {α : Type} (key : String) (old : α) (read : CString → α)
    (hk : kindOf schema (some level) key.toList = some .scalar) :
    field key (Json.object w ms).text old read = field key (Json.object w' ns).text old read :=
  field_congr (h.read schema_printable hk w w') (read_scalar read)

/-- A field that is read from the object it leads to. -/
theorem object_field {α : Type} {inside : Level} (key : String) (old : α) (read : CString → α)
    (hk : kindOf schema (some level) key.toList = some (.object inside))
    (hread : ∀ ms ns, Twin schema inside ms ns → ∀ w w' : Ws,
      read (Json.object w ms).text = read (Json.object w' ns).text) :
    field key (Json.object w ms).text old read = field key (Json.object w' ns).text old read := by
  apply field_congr (h.read schema_printable hk w w')
  intro a b hab
  cases hab with
  | object ht => exact hread _ _ ht _ _

end Fields

theorem parsePrayerConfig_twin {ms ns : Members} (h : Twin schema .prayer ms ns) (w w' : Ws)
    (pcfg : PrayerConfig) :
    parsePrayerConfig (Json.object w ms).text pcfg =
      parsePrayerConfig (Json.object w' ns).text pcfg := by
  have scalar {α : Type} := @scalar_field _ _ _ h w w' α
  have hreminders : field "reminders" (Json.object w ms).text pcfg.reminders
        (parseReminders pcfg.reminders) =
      field "reminders" (Json.object w' ns).text pcfg.reminders
        (parseReminders pcfg.reminders) := by
    have hk : kindOf schema (some .prayer) "reminders".toList = some .naturals := by decide
    apply field_congr (h.read schema_printable hk w w')
    intro a b hab
    cases hab with
    | naturals h₁ h₂ h₃ =>
        have hlist := congrArg (List.filterMap id) h₃
        simp only [List.filterMap_map] at hlist
        rw [parseReminders_array _ _ h₁, parseReminders_array _ _ h₂]
        exact congrArg (takeReminders · .empty) hlist
  simp only [parsePrayerConfig, hreminders]
  congr 1
  · exact scalar _ _ _ (by decide)
  · exact scalar _ _ _ (by decide)
  · exact scalar _ _ _ (by decide)
  · exact scalar _ _ _ (by decide)

theorem parseLocation_twin {ms ns : Members} (h : Twin schema .location ms ns) (w w' : Ws)
    (cfg : Config) :
    parseLocation (Json.object w ms).text cfg = parseLocation (Json.object w' ns).text cfg := by
  have scalar {α : Type} := @scalar_field _ _ _ h w w' α
  have hauto := scalar "auto_detect" cfg.autoDetect isTrue (by decide)
  have hgps := scalar "use_gps" cfg.useGps isTrue (by decide)
  have hrefresh := scalar "refresh_interval" cfg.refreshInterval strtol (by decide)
  simp only [parseLocation, hauto, hgps, hrefresh]
  congr 1
  · exact scalar _ _ _ (by decide)
  · exact scalar _ _ _ (by decide)
  · exact scalar _ _ _ (by decide)
  · exact scalar _ _ _ (by decide)
  · exact scalar _ _ _ (by decide)
  · exact scalar _ _ _ (by decide)
  · exact scalar _ _ _ (by decide)

theorem parsePrayers_twin {ms ns : Members} (h : Twin schema .prayers ms ns) (w w' : Ws)
    (cfg : Config) :
    parsePrayers (Json.object w ms).text cfg = parsePrayers (Json.object w' ns).text cfg := by
  have prayer (key : String) (old : PrayerConfig)
      (hk : kindOf schema (some .prayers) key.toList = some (.object .prayer)) :=
    object_field h w w' key old (fun s => parsePrayerConfig s old) hk
      fun _ _ ht v v' => parsePrayerConfig_twin ht v v' old
  unfold parsePrayers
  congr 1
  · exact prayer _ _ (by decide)
  · exact prayer _ _ (by decide)
  · exact prayer _ _ (by decide)
  · exact prayer _ _ (by decide)
  · exact prayer _ _ (by decide)

theorem parseNotification_twin {ms ns : Members} (h : Twin schema .notification ms ns)
    (w w' : Ws) (cfg : Config) :
    parseNotification (Json.object w ms).text cfg =
      parseNotification (Json.object w' ns).text cfg := by
  have scalar {α : Type} := @scalar_field _ _ _ h w w' α
  unfold parseNotification
  congr 1
  · exact scalar _ _ _ (by decide)
  · exact scalar _ _ _ (by decide)
  · exact scalar _ _ _ (by decide)
  · exact scalar _ _ _ (by decide)
  · exact scalar _ _ _ (by decide)
  · exact scalar _ _ _ (by decide)

theorem parseCalculation_twin {ms ns : Members} (h : Twin schema .calculation ms ns)
    (w w' : Ws) (cfg : Config) :
    parseCalculation (Json.object w ms).text cfg =
      parseCalculation (Json.object w' ns).text cfg := by
  have scalar {α : Type} := @scalar_field _ _ _ h w w' α
  unfold parseCalculation
  congr 1
  · exact scalar _ _ _ (by decide)
  · exact scalar _ _ _ (by decide)
  · exact scalar _ _ _ (by decide)
  · exact scalar _ _ _ (by decide)

theorem parseDisplay_twin {ms ns : Members} (h : Twin schema .display ms ns) (w w' : Ws)
    (cfg : Config) :
    parseDisplay (Json.object w ms).text cfg = parseDisplay (Json.object w' ns).text cfg := by
  unfold parseDisplay
  congr 1
  exact scalar_field h w w' _ _ _ (by decide)

end Sections

section Documents

/-- White space around the root object is skipped. -/
theorem getValue_root (d : Document) (hd : d.depth ≤ 100) {key : String} (hk : PrintableKey key) :
    getValue (ascii key) d.text = getValue (ascii key) d.root.text := by
  rw [getValue_text d hd hk]
  exact (getValue_object_text hd hk).symm

theorem isDocument_text (d : Document) (hd : d.depth ≤ 100) : isDocument d.text = true := by
  have hnested : Nested 99 (d.inner.bytes ++ d.members.text) :=
    ((ws_blank d.inner).nested 99).append (members_nested _ (Nat.le_of_succ_le_succ hd)).1
  have hmatch := findMatchingBracket_nested (Or.inl ⟨rfl, rfl⟩ : IsPair objectOpen objectClose)
    hnested (by decide) d.tail.bytes
  have hskip : skipWhitespace d.text =
      objectOpen :: ((d.inner.bytes ++ d.members.text) ++ objectClose :: d.tail.bytes) := by
    rw [Document.text, skipWhitespace_append (ws_blank d.lead)]
    simp only [Document.root, Json.text, List.cons_append, List.append_assoc, List.nil_append]
    exact skipWhitespace_of_head (by decide) _
  have htail : skipWhitespace d.tail.bytes = [] := by
    have h := skipWhitespace_append (ws_blank d.tail) []
    rwa [List.append_nil] at h
  simp only [isDocument, hskip, hmatch, htail]
  rfl

theorem configLoad_text {d : Document} (hd : d.depth ≤ 100)
    (hsize : d.text.length ≤ maxConfigFileBytes) :
    configLoad (some d.text) true = some (parseConfig d.text) := by
  have hread : readFile maxConfigFileBytes d.text = some d.text := by
    rw [readFile, if_neg (Nat.not_lt.mpr hsize), terminated_eq (document_nulFree d)]
  simp [configLoad, hread, isDocument_text d hd]

theorem parseSection_twin {d e : Document} (hd : d.depth ≤ 100) (he : e.depth ≤ 100)
    (h : Twin schema .root d.members e.members) {key : String} {level : Level}
    (hk : kindOf schema (some .root) key.toList = some (.object level))
    {parse : CString → Config → Config}
    (hparse : ∀ ms ns, Twin schema level ms ns → ∀ w w' : Ws, ∀ cfg,
      parse (Json.object w ms).text cfg = parse (Json.object w' ns).text cfg) (cfg : Config) :
    parseSection key parse d.text cfg = parseSection key parse e.text cfg := by
  have hne : kindOf schema (some .root) key.toList ≠ none := by simp [hk]
  have hprint : PrintableKey key := schema_printable.key hne
  unfold parseSection field
  rw [getValue_root d hd hprint, getValue_root e he hprint]
  exact object_field h d.inner e.inner key cfg (fun s => parse s cfg) hk
    fun _ _ ht w w' => hparse _ _ ht w w' cfg

theorem parseConfig_twin {d e : Document} (hd : d.depth ≤ 100) (he : e.depth ≤ 100)
    (h : Twin schema .root d.members e.members) : parseConfig d.text = parseConfig e.text := by
  unfold parseConfig
  rw [parseSection_twin hd he h (by decide) fun _ _ => parseLocation_twin,
    parseSection_twin hd he h (by decide) fun _ _ => parsePrayers_twin,
    parseSection_twin hd he h (by decide) fun _ _ => parseNotification_twin,
    parseSection_twin hd he h (by decide) fun _ _ => parseCalculation_twin,
    parseSection_twin hd he h (by decide) fun _ _ => parseDisplay_twin]

/-- Two documents that differ only in layout load as one configuration. -/
theorem configLoad_layout {d e : Document} (hd : d.depth ≤ 100) (he : e.depth ≤ 100)
    (hds : d.text.length ≤ maxConfigFileBytes) (hes : e.text.length ≤ maxConfigFileBytes)
    (hdt : typed schema .root d.members = true) (het : typed schema .root e.members = true)
    (h : SameMembers schema (some .root) d.members.list e.members.list) :
    ∃ cfg, configLoad (some d.text) true = some cfg ∧ configLoad (some e.text) true = some cfg := by
  have htwin : Twin schema .root d.members e.members :=
    ⟨⟨hd, he⟩, ⟨hdt, het⟩, h.along_shape schema_printable⟩
  refine ⟨parseConfig d.text, configLoad_text hd hds, ?_⟩
  rw [parseConfig_twin hd he htwin]
  exact configLoad_text he hes

/-- A location on one line. -/
def compactDocument : Document where
  lead := .none
  inner := .none
  members := .cons .none (.ofString "location") .none .none
    (.object .none
      (.cons .none (.ofString "latitude") .none .none (.number (.ofNat 5)) .none <|
        .cons .none (.ofString "city") .none .none (.string (.ofString "A")) .none .nil))
    .none .nil
  tail := .none

private theorem space_isWs : ∀ c ∈ [(0x20 : UInt8)], c = 0x20 ∨ c = 0x09 ∨ c = 0x0a ∨ c = 0x0d :=
  List.forall_mem_singleton.mpr (Or.inl rfl)

/-- The same location, its fields exchanged, a name and a string escaped, and a
member added that names the section inside its value. -/
def spacedDocument : Document where
  lead := .none
  inner := ⟨[0x20], space_isWs⟩
  members :=
    .cons .none (.ofString "x") .none .none
      (.object .none
        (.cons .none (.ofString "location") .none .none (.literal .null) .none .nil))
      .none <|
    .cons ⟨[0x20], space_isWs⟩ (.ofUnit 0x6c :: Chars.ofString "ocation") .none .none
      (.object .none
        (.cons .none (.ofString "city") .none .none (.string [.ofUnit 0x41]) .none <|
          .cons .none (.ofString "latitude") .none .none (.number (.ofNat 5)) .none .nil))
      .none .nil
  tail := ⟨[0x20], space_isWs⟩

theorem configLoad_layout_spaced :
    ∃ cfg, configLoad (some compactDocument.text) true = some cfg ∧
      configLoad (some spacedDocument.text) true = some cfg := by
  apply configLoad_layout
  · decide
  · decide
  · decide
  · decide
  · decide
  · decide
  · have hfields : ∀ ℓ, SameMembers schema ℓ
        [(.ofString "latitude", .number (.ofNat 5)), (.ofString "city", .string (.ofString "A"))]
        [(.ofString "city", .string [.ofUnit 0x41]), (.ofString "latitude", .number (.ofNat 5))] :=
      fun ℓ => .trans (.swap (by decide))
        (.cons rfl (.string (by decide)) (.cons rfl (.number _) .nil))
    exact .trans (.cons (by decide) (.object (hfields _)) .nil) (.add (by decide))

end Documents

end Muslimtify.ConfigLayout
