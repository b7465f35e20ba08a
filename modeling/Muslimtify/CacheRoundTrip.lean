import Muslimtify.CacheFile
import Muslimtify.ConfigRoundTrip
import Muslimtify.TriggerPartition

/-!
# What is saved is loaded

A cache in range is read back from the file written for it, with every prayer
time rounded to four decimals and nothing else changed. A loaded cache is in
range, whatever file it came from, and saving it again loses nothing more.
-/
namespace Muslimtify.CacheRoundTrip
open CText CDouble JsonReader JsonDocument JsonWriter Settings ConfigFile Schedule TriggerCache
open ConfigRoundTrip CacheFile TriggerPartition

section Objects

private theorem scanObject_string {raw : CString} (hr : Raw raw) (s : CString) (d : ℤ) :
    scanObject (raw ++ quote :: s) d true =
      (scanObject s d false).map fun p => (raw ++ quote :: p.1, p.2) := by
  induction hr with
  | nil =>
      rw [List.nil_append, scanObject.eq_def]
      simp [show quote ≠ backslash by decide]
  | plain hq hb _ ih =>
      rw [List.cons_append, scanObject.eq_def]
      simp [hq, hb, ih, Function.comp_def]
  | escape _ ih =>
      rw [List.cons_append, List.cons_append, scanObject.eq_def]
      simp [ih, Function.comp_def]

/-- The brace scan steps over a nested text. Square brackets are no more to it
than any other byte. -/
theorem scanObject_nested {n : ℕ} {s : CString} (hs : Nested n s) (t : CString) {d : ℤ}
    (hd : 1 ≤ d) :
    scanObject (s ++ t) d false = (scanObject t d false).map fun p => (s ++ p.1, p.2) := by
  induction hs generalizing t d with
  | nil => simp
  | plain hc _ ih =>
      simp only [isPlain, Bool.and_eq_true, decide_eq_true_eq] at hc
      simp [scanObject, hc, ih t hd, Function.comp_def]
  | string hr _ ih =>
      simp only [List.cons_append, List.append_assoc]
      rw [scanObject]
      simp [scanObject_string hr, ih t hd, Function.comp_def]
  | @object n v s _ _ ihv ihs =>
      have hq : objectOpen ≠ quote ∧ objectClose ≠ quote ∧ objectClose ≠ objectOpen := by decide
      simp only [List.cons_append, List.append_assoc]
      rw [scanObject, if_neg hq.1, if_pos rfl, ihv _ (by omega), scanObject, if_neg hq.2.1,
        if_neg hq.2.2, if_pos rfl, if_neg (by omega), Int.add_sub_cancel, ihs t hd]
      simp [Function.comp_def]
  | @array n v s _ _ ihv ihs =>
      have ho : arrayOpen ≠ quote ∧ arrayOpen ≠ objectOpen ∧ arrayOpen ≠ objectClose := by decide
      have hc : arrayClose ≠ quote ∧ arrayClose ≠ objectOpen ∧ arrayClose ≠ objectClose := by decide
      simp only [List.cons_append, List.append_assoc]
      rw [scanObject, if_neg ho.1, if_neg ho.2.1, if_neg ho.2.2, ihv _ hd, scanObject,
        if_neg hc.1, if_neg hc.2.1, if_neg hc.2.2, ihs t hd]
      simp [Function.comp_def]

/-- A block of braces around a nested text is one object. -/
theorem scanObject_block {n : ℕ} {v : CString} (hv : Nested n v) (t : CString) :
    scanObject (objectOpen :: (v ++ objectClose :: t)) 0 false =
      some (objectOpen :: (v ++ [objectClose]), t) := by
  have hq : objectOpen ≠ quote ∧ objectClose ≠ quote ∧ objectClose ≠ objectOpen := by decide
  have hclose : scanObject (objectClose :: t) 1 false = some ([objectClose], t) := by
    rw [scanObject, if_neg hq.2.1, if_neg hq.2.2, if_pos rfl, if_pos (by omega)]
  rw [scanObject, if_neg hq.1, if_pos rfl, scanObject_nested hv _ (by omega), zero_add, hclose]
  rfl

end Objects

section Triggers

/-- The ranges the loader enforces on a trigger. -/
structure InRange (t : CacheTrigger) : Prop where
  minute : 0 ≤ t.minute ∧ t.minute < 1440
  minutesBefore : 0 ≤ t.minutesBefore ∧ t.minutesBefore ≤ 1440

/-- A trigger as it comes back from the file. -/
def storedTrigger (t : CacheTrigger) : CacheTrigger :=
  { t with prayerTime := t.prayerTime.rounded 4 }

theorem storedTrigger_idem (t : CacheTrigger) :
    storedTrigger (storedTrigger t) = storedTrigger t := by
  simp [storedTrigger, Double.rounded_idem]

theorem InRange.stored {t : CacheTrigger} (h : InRange t) : InRange (storedTrigger t) :=
  ⟨h.minute, h.minutesBefore⟩

private theorem sameLine_valid {key : String} (hk : PlainKey key) {n : ℕ} {v : Value}
    (hv : v.Valid n) : (sameLine key v).Valid n :=
  ⟨blank_space, hk.raw, blank_nil, blank_space, hv, blank_nil⟩

theorem triggerMembers_valid (t : CacheTrigger) (n : ℕ) : ∀ m ∈ triggerMembers t, m.Valid n := by
  have hkey : PlainKey "prayer" := by decide
  intro m hm
  simp only [triggerMembers, List.mem_cons, List.not_mem_nil, or_false] at hm
  rcases hm with rfl | rfl | rfl | rfl | rfl | rfl
  · exact ⟨blank_nil, hkey.raw, blank_nil, blank_space, stringValue_valid _ _, blank_nil⟩
  · exact sameLine_valid (by decide) (intValue_valid _ _)
  · exact sameLine_valid (by decide) (intValue_valid _ _)
  · exact sameLine_valid (by decide) (fixedValue_valid _ _ _)
  · exact sameLine_valid (by decide) (boolValue_valid _ _)
  · exact sameLine_valid (by decide) (stringValue_valid _ _)

theorem parseTrigger_text {t : CacheTrigger} (ht : InRange t) :
    parseTrigger (objectText (triggerMembers t)) = some (storedTrigger t) := by
  have hget : ∀ key, getValue key (objectText (triggerMembers t)) =
      lookup key (triggerMembers t) := by
    intro key
    simpa using getValue_object (triggerMembers_valid t 98) key blank_nil blank_nil
  have h₁ : lookup (ascii "prayer") (triggerMembers t) =
      some (stringValue t.prayer.text).result := rfl
  have h₂ : lookup (ascii "minute") (triggerMembers t) = some (formatInt t.minute) := rfl
  have h₃ : lookup (ascii "minutes_before") (triggerMembers t) =
      some (formatInt t.minutesBefore) := rfl
  have h₄ : lookup (ascii "prayer_time") (triggerMembers t) =
      some (formatFixed 4 t.prayerTime) := rfl
  have h₅ : lookup (ascii "adhan_enabled") (triggerMembers t) =
      some (boolText t.adhanEnabled) := rfl
  have h₆ : lookup (ascii "adhan") (triggerMembers t) =
      some (stringValue t.adhan.text).result := rfl
  have hm := ht.minute
  have hb := ht.minutesBefore
  have hminute : strtol (formatInt t.minute) = t.minute :=
    strtol_text (by simp only [longMin, longMax]; omega)
  have hbefore : strtol (formatInt t.minutesBefore) = t.minutesBefore :=
    strtol_text (by simp only [longMin, longMax]; omega)
  simp only [parseTrigger, hget, h₁, h₂, h₃, h₄, h₅, h₆, Option.bind_eq_bind, Option.bind_some,
    stringValue_result, hminute, hbefore]
  rw [if_neg (by omega)]
  simp [storedTrigger, isTrue_boolText, strtod_format]

end Triggers

section Lines
variable {acc : FixedArray CacheTrigger maxTriggers}

/-- How the loop goes on behind an object. -/
def afterObject (n : ℕ) (tail : CString) (acc : FixedArray CacheTrigger maxTriggers) :
    Option (FixedArray CacheTrigger maxTriggers) :=
  match tail.dropWhile isBlank with
  | [] => none
  | d :: ds =>
      if d = comma then triggerLoop n ds acc
      else if d = arrayClose then triggerLoop n (d :: ds) acc
      else none

/-- One turn of the loop, from the bytes before an object. -/
theorem triggerLoop_object {w v : CString} (hw : ∀ c ∈ w, c ≠ objectOpen)
    (hstart : w.head? ≠ some arrayClose) {k : ℕ} (hv : Nested k v) (n : ℕ) (tail : CString)
    (hroom : acc.items.length < maxTriggers) :
    triggerLoop (n + 1) (w ++ objectOpen :: (v ++ objectClose :: tail)) acc =
      (parseTrigger (objectOpen :: (v ++ [objectClose]))).bind fun t =>
        afterObject n tail (acc.push t) := by
  have hskip : (w ++ objectOpen :: (v ++ objectClose :: tail)).dropWhile
      (fun c => c ≠ objectOpen) = objectOpen :: (v ++ objectClose :: tail) := by
    rw [List.dropWhile_append_of_pos fun c hc => by simpa using hw c hc]
    simp
  have hgo : ¬(w ++ objectOpen :: (v ++ objectClose :: tail) = [] ∨
      (w ++ objectOpen :: (v ++ objectClose :: tail)).head? = some arrayClose ∨
        maxTriggers ≤ acc.items.length) := by
    rintro (h | h | h)
    · simp at h
    · cases w with
      | nil => exact absurd (Option.some.inj h) (by decide)
      | cons c w => exact hstart h
    · omega
  rw [triggerLoop, if_neg hgo, hskip]
  simp only [scanObject_block hv]
  cases parseTrigger (objectOpen :: (v ++ [objectClose])) with
  | none => rfl
  | some t => rfl

theorem push_room {t : CacheTrigger} (hroom : acc.items.length < maxTriggers) :
    (acc.push t).items = acc.items ++ [t] := by
  have : 0 < maxTriggers - acc.items.length := by omega
  rw [FixedArray.push_items, List.take_of_length_le (by simp; omega)]

/-- The loop reads every line that was written. -/
theorem triggerLoop_lines (acc : FixedArray CacheTrigger maxTriggers) {ts : List CacheTrigger}
    (hts : ∀ t ∈ ts, InRange t) {n : ℕ} (hn : ts.length < n)
    (hroom : acc.items.length + ts.length ≤ maxTriggers) :
    triggerLoop n (0x0a :: (triggerLines ts ++ [0x20, 0x20, arrayClose])) acc =
      some (acc.pushAll (ts.map storedTrigger)) := by
  have hlead : ∀ c ∈ (0x0a :: List.replicate 4 0x20 : CString), c ≠ objectOpen := by
    intro c hc
    simp only [List.mem_cons, List.mem_replicate] at hc
    rcases hc with rfl | ⟨-, rfl⟩ <;> decide
  induction ts generalizing n acc with
  | nil =>
      obtain ⟨m, rfl⟩ := Nat.exists_eq_succ_of_ne_zero (Nat.ne_of_gt hn)
      have hdrop : (0x0a :: (triggerLines [] ++ [0x20, 0x20, arrayClose]) : CString).dropWhile
          (fun c => c ≠ objectOpen) = [] := by decide
      rw [triggerLoop, hdrop]
      split_ifs <;> rfl
  | cons t ts ih =>
      obtain ⟨m, rfl⟩ := Nat.exists_eq_succ_of_ne_zero (Nat.ne_of_gt (Nat.zero_lt_of_lt hn))
      simp only [List.length_cons] at hn hroom
      have ht := parseTrigger_text (hts t (by simp))
      have hpush : (acc.push (storedTrigger t)).items.length = acc.items.length + 1 := by
        rw [push_room (by omega), List.length_append, List.length_singleton]
      have hturn : ∀ tail, triggerLoop (m + 1)
          (0x0a :: (List.replicate 4 0x20 ++ (objectText (triggerMembers t) ++ tail))) acc =
            afterObject m tail (acc.push (storedTrigger t)) := by
        intro tail
        have hobject := @triggerLoop_object acc _ _ hlead (by decide) _
          (nested_members (triggerMembers_valid t 0)) m tail (by omega)
        have hparse := ht
        rw [objectText] at hparse
        simpa [objectText, hparse] using hobject
      cases ts with
      | nil =>
          simp only [triggerLines, List.append_assoc, List.cons_append, List.nil_append, hturn]
          have hclose : ([0x0a, 0x20, 0x20, arrayClose] : CString).dropWhile isBlank =
              [arrayClose] := by decide
          obtain ⟨k, rfl⟩ := Nat.exists_eq_succ_of_ne_zero (show m ≠ 0 by omega)
          simp [afterObject, hclose, show arrayClose ≠ comma by decide, triggerLoop,
            FixedArray.pushAll]
      | cons u us =>
          simp only [triggerLines, List.append_assoc, List.cons_append, hturn]
          have hnext := @ih (acc.push (storedTrigger t)) (fun v hv => hts v (by simp [hv])) m
            (by simp only [List.length_cons] at hn ⊢; omega) (by omega)
          have hcomma : isBlank comma = false := by decide
          simp only [afterObject, List.dropWhile_cons, hcomma, Bool.false_eq_true, if_false,
            if_true, hnext]
          rfl

end Lines

section Texts

theorem triggerLines_nested (ts : List CacheTrigger) : Nested 2 (triggerLines ts) := by
  have hspaces : Nested 2 (List.replicate 4 0x20) := nested_of_plain (List.all_eq_true.mp (by decide)) 2
  have hobject : ∀ (t : CacheTrigger) {s : CString}, Nested 2 s →
      Nested 2 (objectText (triggerMembers t) ++ s) := by
    intro t s hs
    simp only [objectText, List.cons_append, List.append_assoc, List.nil_append]
    exact .object (nested_members (triggerMembers_valid t 0)) hs
  induction ts with
  | nil => exact .nil
  | cons t ts ih =>
      cases ts with
      | nil => exact hspaces.append (hobject t (.plain (by decide) .nil))
      | cons u us =>
          exact hspaces.append (hobject t (.plain (by decide) (.plain (by decide) ih)))

theorem cacheMembers_valid (cache : PrayerCache) : ∀ m ∈ cacheMembers cache, m.Valid 98 := by
  have hbody : Nested 2 (0x0a :: (triggerLines cache.triggers.items ++ [0x20, 0x20])) :=
    .plain (by decide) ((triggerLines_nested _).append
      (nested_of_plain (List.all_eq_true.mp (by decide)) 2))
  intro m hm
  simp only [cacheMembers, List.mem_cons, List.not_mem_nil, or_false] at hm
  rcases hm with rfl | rfl | rfl
  · exact line_valid (by decide) (intValue_valid _ _) _
  · exact line_valid (by decide) (stringValue_valid _ _) _
  · exact lastLine_valid (by decide) (Value.Valid.mono (v := .array _) hbody (by decide)) _

theorem triggerLines_count (ts : List CacheTrigger) : ts.length ≤ (triggerLines ts).length := by
  induction ts with
  | nil => exact Nat.zero_le _
  | cons t ts ih =>
      cases ts with
      | nil => simp [triggerLines]
      | cons u us =>
          simp only [triggerLines, List.length_append, List.length_cons] at ih ⊢
          omega

/-- A cache whose triggers are all in range. -/
def CacheInRange (cache : PrayerCache) : Prop := ∀ t ∈ cache.triggers.items, InRange t

/-- A cache as it comes back from the file. -/
def storedCache (cache : PrayerCache) : PrayerCache :=
  { cache with triggers := cache.triggers.map storedTrigger }

theorem parseCache_text {cache : PrayerCache} (hc : CacheInRange cache) :
    parseCache (cacheText cache) = some (storedCache cache) := by
  have hget : ∀ key, getValue key (cacheText cache) = lookup key (cacheMembers cache) := by
    intro key
    have htail : Blank [0x0a] := fun c h => by
      rw [List.mem_singleton.mp h]
      rfl
    simpa [cacheText] using getValue_object (cacheMembers_valid cache) key blank_nil htail
  have h₁ : lookup (ascii "version") (cacheMembers cache) = some (formatInt 2) := rfl
  have h₂ : lookup (ascii "date") (cacheMembers cache) =
      some (stringValue cache.date.text).result := rfl
  have h₃ : lookup (ascii "triggers") (cacheMembers cache) =
      some (arrayOpen :: (0x0a :: (triggerLines cache.triggers.items ++ [0x20, 0x20]) ++
        [arrayClose])) := rfl
  have hversion : strtol (formatInt 2) = cacheFormatVersion := strtol_text (by decide)
  have hcount := triggerLines_count cache.triggers.items
  have hloop := triggerLoop_lines .empty hc
    (n := (0x0a :: (triggerLines cache.triggers.items ++ [0x20, 0x20]) ++ [arrayClose]).length + 1)
    (by simp only [List.length_append, List.length_cons]; omega)
    (by simpa using cache.triggers.fits)
  have hall : (FixedArray.empty : FixedArray CacheTrigger maxTriggers).pushAll
      (cache.triggers.items.map storedTrigger) = cache.triggers.map storedTrigger := by
    ext1
    rw [FixedArray.pushAll_empty, FixedArray.map_items, List.take_of_length_le]
    simpa using cache.triggers.fits
  have hp : 0x0a :: (triggerLines cache.triggers.items ++ [0x20, 0x20]) ++ [arrayClose] =
      0x0a :: (triggerLines cache.triggers.items ++ [0x20, 0x20, arrayClose]) := by simp
  simp only [parseCache, hget, h₁, h₂, h₃, Option.bind_eq_bind, Option.bind_some, hversion,
    ne_eq, not_true_eq_false, if_false]
  rw [hp] at hloop ⊢
  simp only [hloop, Option.bind_some, hall, stringValue_result, copyString_text]
  rfl

end Texts

section Sizes

private theorem sameLine_length (key : String) (v : Value) :
    (sameLine key v).text.length = (ascii key).length + v.text.length + 5 := by
  simp only [sameLine, Member.text, List.length_append, List.length_cons, List.length_nil]
  omega

theorem triggerMembers_length {t : CacheTrigger} (ht : InRange t) :
    (objectText (triggerMembers t)).length ≤ 3900 := by
  have hm := ht.minute
  have hb := ht.minutesBefore
  have h₁ := stringValue_length t.prayer
  have h₂ := intValue_length (z := t.minute) (by simp only [longMin, longMax]; omega)
  have h₃ := intValue_length (z := t.minutesBefore) (by simp only [longMin, longMax]; omega)
  have h₄ := fixedValue_length (k := 4) (by decide) t.prayerTime
  have h₅ := boolValue_length t.adhanEnabled
  have h₆ := stringValue_length t.adhan
  have k₁ : (ascii "prayer").length = 6 := rfl
  have k₂ : (ascii "minute").length = 6 := rfl
  have k₃ : (ascii "minutes_before").length = 14 := rfl
  have k₄ : (ascii "prayer_time").length = 11 := rfl
  have k₅ : (ascii "adhan_enabled").length = 13 := rfl
  have k₆ : (ascii "adhan").length = 5 := rfl
  have hfirst : (Member.text { key := ascii "prayer", value := stringValue t.prayer.text }).length =
      (ascii "prayer").length + (stringValue t.prayer.text).text.length + 4 := by
    simp only [Member.text, List.length_append, List.length_cons, List.length_nil]
    omega
  simp only [objectText, triggerMembers, membersText, List.length_cons, List.length_append,
    List.length_nil, sameLine_length, hfirst]
  omega

theorem triggerLines_length {ts : List CacheTrigger} (h : ∀ t ∈ ts, InRange t) :
    (triggerLines ts).length ≤ 4000 * ts.length := by
  induction ts with
  | nil => rfl
  | cons t ts ih =>
      have ht := triggerMembers_length (h t (by simp))
      have hts := ih fun u hu => h u (by simp [hu])
      cases ts with
      | nil =>
          simp only [triggerLines, List.length_append, List.length_cons, List.length_replicate,
            List.length_nil]
          omega
      | cons u us =>
          simp only [triggerLines, List.length_append, List.length_cons,
            List.length_replicate] at hts ⊢
          omega

theorem cacheText_length {cache : PrayerCache} (hc : CacheInRange cache) :
    (cacheText cache).length ≤ maxCacheFileBytes := by
  have hlines := triggerLines_length hc
  have hfits := cache.triggers.fits
  have hversion := intValue_length (z := cacheFormatVersion) (by decide)
  have hdate := stringValue_length cache.date
  have k₁ : (ascii "version").length = 7 := rfl
  have k₂ : (ascii "date").length = 4 := rfl
  have k₃ : (ascii "triggers").length = 8 := rfl
  have hmax : maxTriggers = 64 := rfl
  have harray : ∀ body, (Value.array body).text.length = body.length + 2 := fun body => by
    simp [Value.text]
  simp only [cacheText, objectText, cacheMembers, membersText, List.length_cons,
    List.length_append, List.length_nil, line_length, lastLine_length, harray,
    maxCacheFileBytes]
  omega

private theorem sameLine_nulFree {key : String} (hk : PlainKey key) {v : Value}
    (hv : NulFree v.text) : NulFree (sameLine key v).text := by
  simp only [sameLine, Member.text, nulFree_append, nulFree_cons]
  exact ⟨⟨by decide, nulFree_nil⟩, by decide, hk.nulFree, by decide, nulFree_nil, by decide,
    ⟨by decide, nulFree_nil⟩, hv, nulFree_nil⟩

theorem triggerMembers_nulFree (t : CacheTrigger) : NulFree (objectText (triggerMembers t)) := by
  refine objectValue_nulFree fun m hm => ?_
  have hkey : PlainKey "prayer" := by decide
  simp only [triggerMembers, List.mem_cons, List.not_mem_nil, or_false] at hm
  rcases hm with rfl | rfl | rfl | rfl | rfl | rfl
  · simp only [Member.text, nulFree_append, nulFree_cons]
    exact ⟨nulFree_nil, by decide, hkey.nulFree, by decide, nulFree_nil, by decide,
      ⟨by decide, nulFree_nil⟩, stringValue_nulFree _, nulFree_nil⟩
  · exact sameLine_nulFree (by decide) (intValue_nulFree _)
  · exact sameLine_nulFree (by decide) (intValue_nulFree _)
  · exact sameLine_nulFree (by decide) (fixedValue_nulFree _ _)
  · exact sameLine_nulFree (by decide) (boolValue_nulFree _)
  · exact sameLine_nulFree (by decide) (stringValue_nulFree _)

theorem triggerLines_nulFree (ts : List CacheTrigger) : NulFree (triggerLines ts) := by
  have hspaces : NulFree (List.replicate 4 0x20) := by decide
  induction ts with
  | nil => exact nulFree_nil
  | cons t ts ih =>
      cases ts with
      | nil =>
          simp only [triggerLines, nulFree_append, nulFree_cons]
          exact ⟨hspaces, triggerMembers_nulFree t, by decide, nulFree_nil⟩
      | cons u us =>
          simp only [triggerLines, nulFree_append, nulFree_cons] at ih ⊢
          exact ⟨hspaces, triggerMembers_nulFree t, by decide, by decide, ih⟩

theorem cacheText_nulFree (cache : PrayerCache) : NulFree (cacheText cache) := by
  have hmembers : NulFree (objectText (cacheMembers cache)) := by
    refine objectValue_nulFree fun m hm => ?_
    simp only [cacheMembers, List.mem_cons, List.not_mem_nil, or_false] at hm
    rcases hm with rfl | rfl | rfl
    · exact line_nulFree (by decide) (intValue_nulFree _) _
    · exact line_nulFree (by decide) (stringValue_nulFree _) _
    · refine lastLine_nulFree (by decide) ?_ _
      simp only [Value.text, nulFree_cons, nulFree_append]
      exact ⟨by decide, ⟨by decide, triggerLines_nulFree _, by decide, by decide, nulFree_nil⟩,
        by decide, nulFree_nil⟩
  simp only [cacheText, nulFree_append, nulFree_cons]
  exact ⟨hmembers, by decide, nulFree_nil⟩

end Sizes

/-- What is written for a cache in range loads, with the prayer times rounded to
four decimals. -/
theorem cacheLoad_cacheText {cache : PrayerCache} (hc : CacheInRange cache) :
    cacheLoad (some (cacheText cache)) true = some (storedCache cache) := by
  have hread : readFile maxCacheFileBytes (cacheText cache) = some (cacheText cache) := by
    rw [readFile, if_neg (Nat.not_lt.mpr (cacheText_length hc)),
      terminated_eq (cacheText_nulFree cache)]
  simp [cacheLoad, hread, parseCache_text hc]

section RoundTrip

/-- `u` is `t` with its prayer time rounded to four decimals. -/
structure Rounds (t u : CacheTrigger) : Prop where
  prayer : u.prayer = t.prayer
  adhan : u.adhan = t.adhan
  minute : u.minute = t.minute
  minutesBefore : u.minutesBefore = t.minutesBefore
  adhanEnabled : u.adhanEnabled = t.adhanEnabled
  prayerTime : ∃ q, t.prayerTime.finite? = some q ∧ u.prayerTime.finite? = some (roundTo 4 q)

theorem rounds_stored {t : CacheTrigger} (h : t.prayerTime.isfinite = true) :
    Rounds t (storedTrigger t) where
  prayer := rfl
  adhan := rfl
  minute := rfl
  minutesBefore := rfl
  adhanEnabled := rfl
  prayerTime := by
    cases hx : t.prayerTime with
    | fin q hq => exact ⟨q, rfl, by rw [storedTrigger, hx]; rfl⟩
    | inf s => simp [hx, Double.finite?] at h
    | nan => simp [hx, Double.finite?] at h

/-- A saved cache loads with its date, and its triggers in their order. -/
theorem cache_round_trip (cache : PrayerCache)
    (hfields : ∀ t ∈ cache.triggers.items, (0 ≤ t.minute ∧ t.minute ≤ 1439) ∧
      (0 ≤ t.minutesBefore ∧ t.minutesBefore ≤ 1440) ∧ t.prayerTime.isfinite = true) :
    ∃ loaded, cacheLoad (some (cacheText cache)) true = some loaded ∧
      loaded.date = cache.date ∧
      List.Forall₂ Rounds cache.triggers.items loaded.triggers.items := by
  have hc : CacheInRange cache := by
    intro t ht
    obtain ⟨hminute, hbefore, -⟩ := hfields t ht
    constructor
    · omega
    · exact hbefore
  refine ⟨storedCache cache, cacheLoad_cacheText hc, rfl, ?_⟩
  rw [storedCache, FixedArray.map_items, List.forall₂_map_right_iff, List.forall₂_same]
  intro t ht
  exact rounds_stored (hfields t ht).2.2

/-- A sound file whose path holds quotes, braces, brackets, a backslash, a
control byte and a byte past ASCII. -/
def hostileTrigger : CacheTrigger where
  prayer := copyString 16 (ascii "Fajr")
  adhan := copyString 512 (ascii "/a\"]\x7d,\x7b[\\" ++ [0x01, 0xff])
  minute := 1439
  minutesBefore := 1440
  prayerTime := .ofRat (239999 / 10000)
  adhanEnabled := true

theorem cache_round_trip_hostile :
    ∃ loaded, cacheLoad (some (cacheText ⟨copyString 16 (ascii "2026-06-17"),
        FixedArray.empty.push hostileTrigger⟩)) true = some loaded ∧
      loaded.date = copyString 16 (ascii "2026-06-17") ∧
      List.Forall₂ Rounds [hostileTrigger] loaded.triggers.items := by
  apply cache_round_trip ⟨copyString 16 (ascii "2026-06-17"), FixedArray.empty.push hostileTrigger⟩
  decide +kernel

end RoundTrip

section Loaded

theorem parseTrigger_inRange {obj : CString} {t : CacheTrigger} (h : parseTrigger obj = some t) :
    InRange t := by
  simp only [parseTrigger, Option.bind_eq_bind, Option.bind_eq_some_iff] at h
  obtain ⟨_, -, _, -, _, -, _, -, _, -, _, -, h⟩ := h
  split_ifs at h with hr
  obtain rfl := Option.some.inj h
  constructor <;> dsimp only <;> omega

theorem triggerLoop_inRange (n : ℕ) (p : CString) {acc out : FixedArray CacheTrigger maxTriggers}
    (hacc : ∀ t ∈ acc.items, InRange t) (h : triggerLoop n p acc = some out) :
    ∀ t ∈ out.items, InRange t := by
  have hpush : ∀ {acc : FixedArray CacheTrigger maxTriggers} {u : CacheTrigger},
      (∀ t ∈ acc.items, InRange t) → InRange u → ∀ t ∈ (acc.push u).items, InRange t := by
    intro acc u hacc hu t ht
    rw [FixedArray.push_items] at ht
    rcases List.mem_append.mp ht with ht | ht
    · exact hacc t ht
    · rwa [List.mem_singleton.mp (List.mem_of_mem_take ht)]
  fun_induction triggerLoop n p acc with
  | case1 p acc => exact Option.some.inj h ▸ hacc
  | case2 n p acc => exact Option.some.inj h ▸ hacc
  | case3 n p acc => exact Option.some.inj h ▸ hacc
  | case4 n p acc => exact Option.some.inj h ▸ hacc
  | case5 => cases h
  | case6 => cases h
  | case7 n p acc _ c cs _ obj rest _ t ht ds _ ih =>
      exact ih (hpush hacc (parseTrigger_inRange ht)) h
  | case8 n p acc _ c cs _ obj rest _ t ht d ds _ ih =>
      exact ih (hpush hacc (parseTrigger_inRange ht)) h
  | case9 => cases h

/-- What is parsed has its triggers from an array. -/
theorem parseCache_triggers {content : CString} {cache : PrayerCache}
    (h : parseCache content = some cache) :
    ∃ p, getValue (ascii "triggers") content = some (arrayOpen :: p) ∧
      triggerLoop (p.length + 1) p .empty = some cache.triggers := by
  simp only [parseCache, Option.bind_eq_bind, Option.bind_eq_some_iff] at h
  obtain ⟨_, -, h⟩ := h
  split_ifs at h
  simp only [Option.bind_eq_some_iff] at h
  obtain ⟨_, -, triggers, htriggers, h⟩ := h
  cases triggers with
  | nil => cases h
  | cons c p =>
      simp only at h
      split_ifs at h with hc
      simp only [Option.bind_eq_some_iff] at h
      obtain ⟨out, hout, h⟩ := h
      obtain rfl := Option.some.inj h
      exact ⟨p, (not_not.mp hc) ▸ htriggers, hout⟩

/-- What is loaded was parsed from the file up to its first zero byte. -/
theorem cacheLoad_parsed {file : Option CString} {opens : Bool} {cache : PrayerCache}
    (h : cacheLoad file opens = some cache) :
    ∃ bytes, file = some bytes ∧ parseCache (terminated bytes) = some cache := by
  simp only [cacheLoad, Option.bind_eq_bind, Option.bind_eq_some_iff] at h
  obtain ⟨bytes, hfile, h⟩ := h
  split_ifs at h
  obtain ⟨content, hread, h⟩ := Option.bind_eq_some_iff.mp h
  rw [readFile] at hread
  split_ifs at hread
  obtain rfl := Option.some.inj hread
  exact ⟨bytes, hfile, h⟩

/-- Whatever the file holds, a loaded cache is in range. -/
theorem cacheLoad_inRange {file : Option CString} {opens : Bool} {cache : PrayerCache}
    (h : cacheLoad file opens = some cache) : CacheInRange cache := by
  obtain ⟨bytes, -, h⟩ := cacheLoad_parsed h
  obtain ⟨p, -, hloop⟩ := parseCache_triggers h
  exact triggerLoop_inRange _ _ (by simp) hloop

end Loaded

section Built
variable {H : Host} {cfg : Config}

/-- The triggers of any build are in range when the configuration is. -/
theorem builtTriggers_inRange (hcfg : cfg.InRange) {d cm : ℤ} {t : CacheTrigger}
    (ht : t ∈ builtTriggers H cfg d cm) : InRange t := by
  obtain ⟨o, r, hr, hon, h⟩ := mem_builtTriggers ht
  have hbefore := (Occurrence.isTrigger_iff.mp (h id)).2.1
  simp only [onDay, Bool.and_eq_true, decide_eq_true_eq] at hon
  refine ⟨hon.1, ?_⟩
  rw [hbefore]
  rcases hr with rfl | hr
  · decide
  · have := (hcfg.prayers o.prayer).reminders r hr
    omega

end Built

end Muslimtify.CacheRoundTrip
