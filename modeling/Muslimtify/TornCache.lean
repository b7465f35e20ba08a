import Muslimtify.CacheRoundTrip

/-!
# A torn cache file

The scanners of the reader do not look ahead: what one of them finds in the
front of a text it finds in the whole text, as long as it has not run into the
end. A front of a cache file that loads has a closed array of triggers, so the
version and the date before it are whole and all three values are those of the
full file.
-/
namespace Muslimtify.TornCache
open CText CDouble JsonReader JsonDocument JsonWriter ConfigFile Schedule TriggerCache CacheFile
open CacheRoundTrip

section Fronts
variable {key s u : CString} {d : ℤ}

theorem scanString_append {raw rest : CString} (h : scanString s = some (raw, rest))
    (t : CString) : scanString (s ++ t) = some (raw, rest ++ t) := by
  fun_induction scanString s generalizing raw rest with
  | case1 => cases h
  | case2 => cases h
  | case3 e es ih =>
      obtain ⟨p, hp, he⟩ := Option.map_eq_some_iff.mp h
      obtain ⟨rfl, rfl⟩ := Prod.mk.inj he
      rw [List.cons_append, List.cons_append, scanString.eq_def]
      simp [ih hp]
  | case4 cs hb =>
      obtain ⟨rfl, rfl⟩ := Prod.mk.inj (Option.some.inj h)
      rw [List.cons_append, scanString.eq_def]
      simp [hb]
  | case5 c cs hb hq ih =>
      obtain ⟨p, hp, he⟩ := Option.map_eq_some_iff.mp h
      obtain ⟨rfl, rfl⟩ := Prod.mk.inj he
      rw [List.cons_append, scanString.eq_def]
      simp [hb, hq, ih hp]

theorem skipWhitespace_front (h : skipWhitespace s ≠ []) (t : CString) :
    skipWhitespace (s ++ t) = skipWhitespace s ++ t := by
  rw [skipWhitespace, List.dropWhile_append, if_neg (by simpa [skipWhitespace] using h)]
  rfl

/-- Where the scan finds a key in the front of a text, and text behind its
colon, it finds it in the whole text. -/
theorem scan_front (t : CString) (hu : u ≠ []) (n : ℕ) : ∀ {s : CString} {d : ℤ},
    s.length ≤ n → scan key s d = some u → scan key (s ++ t) d = some (u ++ t) := by
  induction n with
  | zero =>
      intro s d hn h
      obtain rfl := List.length_eq_zero_iff.mp (Nat.le_zero.mp hn)
      cases h
  | succ n ih =>
      intro s d hn h
      cases s with
      | nil => cases h
      | cons c s =>
          rw [List.length_cons] at hn
          rw [List.cons_append]
          by_cases hq : c = quote
          · subst hq
            cases hs : scanString s with
            | none => simp [scan, findKeyLoop, hs] at h
            | some p =>
                obtain ⟨raw, rest⟩ := p
                have hlen : rest.length < s.length := scanString_length hs
                rw [scan_token hs] at h
                rw [scan_token (scanString_append hs t)]
                by_cases hrest : skipWhitespace rest = []
                · -- nothing but white space behind the string
                  have hblank : Blank rest := List.dropWhile_eq_nil_iff.mp hrest
                  rw [hrest, if_neg (by simp), ← List.append_nil rest, scan_blank hblank] at h
                  cases h
                · rw [skipWhitespace_front hrest, List.head?_append_of_ne_nil _ hrest,
                    List.tail_append_of_ne_nil hrest]
                  split_ifs at h ⊢ with hkey
                  · obtain rfl := Option.some.inj h
                    rw [skipWhitespace_front hu]
                  · exact ih (by omega) h
          · simp only [scan, List.length_cons, findKeyLoop, if_neg hq] at h ⊢
            split_ifs at h ⊢
            all_goals exact ih (by omega) h

theorem matchLoop_front {op cl : UInt8} {inString escaped : Bool} {p : CString × CString}
    (h : matchLoop op cl s d inString escaped = some p) (t : CString) :
    matchLoop op cl (s ++ t) d inString escaped = some (p.1, p.2 ++ t) := by
  induction s generalizing d inString escaped p with
  | nil => cases h
  | cons c s ih =>
      have hgo : ∀ {d : ℤ} {inString escaped : Bool},
          (matchLoop op cl s d inString escaped).map (fun q => (c :: q.1, q.2)) = some p →
            (matchLoop op cl (s ++ t) d inString escaped).map (fun q => (c :: q.1, q.2)) =
              some (p.1, p.2 ++ t) := by
        intro d inString escaped hp
        obtain ⟨q, hq, rfl⟩ := Option.map_eq_some_iff.mp hp
        rw [ih hq]
        rfl
      rw [matchLoop] at h
      rw [List.cons_append, matchLoop]
      split_ifs at h ⊢
      all_goals first
        | exact hgo h
        | exact (Option.some.inj h) ▸ rfl

/-- A block that the front of a text closes is handed out of the whole text. -/
theorem getValue_front {c : UInt8} (hc : c = objectOpen ∨ c = arrayOpen) {v : CString}
    (hfind : jsonFindKey key s = some (c :: u)) (h : getValue key s = some v) (t : CString) :
    getValue key (s ++ t) = some v := by
  have hfind' : jsonFindKey key (s ++ t) = some (c :: u ++ t) :=
    scan_front t (by simp) s.length le_rfl hfind
  have hplain : isspace c = false ∧ c ≠ quote := by rcases hc with rfl | rfl <;> decide
  rw [getValue, hfind, Option.bind_some, jsonExtractValue,
    skipWhitespace_of_head hplain.1] at h
  rw [getValue, hfind', Option.bind_some, jsonExtractValue, List.cons_append,
    skipWhitespace_of_head hplain.1]
  simp only [if_neg hplain.2, if_pos hc, findMatchingBracket, if_true, Option.map_map] at h ⊢
  obtain ⟨p, hp, rfl⟩ := Option.map_eq_some_iff.mp h
  rw [matchLoop_front hp]
  rfl

end Fronts

section Members
variable {key : CString} {ms : List Member}

/-- Members with the comma behind each of them. -/
def withCommas (ms : List Member) : CString := ms.flatMap fun m => m.text ++ [comma]

theorem withCommas_cons (m : Member) (ms : List Member) (s : CString) :
    withCommas (m :: ms) ++ s = m.text ++ comma :: (withCommas ms ++ s) := by
  simp [withCommas]

/-- A member with its comma is read whatever follows. -/
theorem getValue_withCommas (h : ∀ m ∈ ms, m.Valid 98) {v : CString}
    (hv : lookup key ms = some v) (s : CString) :
    getValue key (objectOpen :: (withCommas ms ++ s)) = some v := by
  rw [getValue, jsonFindKey_scan, scan_object]
  induction ms with
  | nil => cases hv
  | cons m ms ih =>
      rw [withCommas_cons, Member.scan_member (h m (by simp)) (by decide)]
      by_cases hk : jsonSliceEquals m.key key = true
      · rw [if_pos hk]
        simpa [lookup, hk] using hv
      · have hv : lookup key ms = some v := by simpa [lookup, hk] using hv
        rw [if_neg hk, scan_plain (by decide)]
        exact ih (fun k hm => h k (by simp [hm])) hv

theorem scan_withCommas (h : ∀ m ∈ ms, m.Valid 98)
    (hk : ∀ m ∈ ms, jsonSliceEquals m.key key = false) (s : CString) :
    scan key (withCommas ms ++ s) 1 = scan key s 1 := by
  induction ms with
  | nil => rfl
  | cons m ms ih =>
      rw [withCommas_cons, Member.scan_other (h m (by simp)) (hk m (by simp)) (by decide),
        scan_plain (by decide)]
      exact ih (fun k hm => h k (by simp [hm])) fun k hm => hk k (by simp [hm])

end Members

section Cache
variable {cache : PrayerCache}

def firstMembers (cache : PrayerCache) : List Member :=
  [line 2 "version" (intValue cacheFormatVersion),
    line 2 "date" (stringValue cache.date.text)]

def triggersMember (cache : PrayerCache) : Member :=
  lastLine 2 "triggers" (.array (0x0a :: (triggerLines cache.triggers.items ++ [0x20, 0x20])))

theorem firstMembers_valid (cache : PrayerCache) : ∀ m ∈ firstMembers cache, m.Valid 98 :=
  fun m hm => cacheMembers_valid cache m (by
    simp only [firstMembers, cacheMembers, List.mem_cons] at hm ⊢
    tauto)

theorem cacheText_split (cache : PrayerCache) :
    cacheText cache = objectOpen :: (withCommas (firstMembers cache) ++
      ((triggersMember cache).text ++ [objectClose, 0x0a])) := by
  simp [cacheText, objectText, cacheMembers, membersText, withCommas, firstMembers,
    triggersMember]

/-- Where the file holds its array of triggers. -/
theorem find_triggers (cache : PrayerCache) :
    jsonFindKey (ascii "triggers") (cacheText cache) =
      some ((triggersMember cache).value.text ++
        ((triggersMember cache).after ++ [objectClose, 0x0a])) := by
  have hm : (triggersMember cache).Valid 98 :=
    cacheMembers_valid cache _ (by simp [triggersMember, cacheMembers])
  have hkeys : ∀ m ∈ firstMembers cache, jsonSliceEquals m.key (ascii "triggers") = false := by
    intro m hm
    simp only [firstMembers, List.mem_cons, List.not_mem_nil, or_false] at hm
    rcases hm with rfl | rfl
    · exact (by decide : jsonSliceEquals (ascii "version") (ascii "triggers") = false)
    · exact (by decide : jsonSliceEquals (ascii "date") (ascii "triggers") = false)
  have hself : jsonSliceEquals (triggersMember cache).key (ascii "triggers") = true :=
    (by decide : jsonSliceEquals (ascii "triggers") (ascii "triggers") = true)
  rw [jsonFindKey_scan, cacheText_split, scan_object,
    scan_withCommas (firstMembers_valid cache) hkeys, Member.scan_found hm hself]

/-- The loader looks at three values of the text and at nothing else. -/
theorem parseCache_congr {s s' : CString}
    (h : ∀ key ∈ ["version", "date", "triggers"], getValue (ascii key) s = getValue (ascii key) s') :
    parseCache s = parseCache s' := by
  simp only [parseCache, h "version" (by simp), h "date" (by simp), h "triggers" (by simp)]

/-- A front of the file that loads holds the three values of the whole file. -/
theorem parseCache_front {s t : CString} (hst : s ++ t = cacheText cache)
    {loaded : PrayerCache} (h : parseCache s = some loaded) :
    parseCache (cacheText cache) = some loaded := by
  obtain ⟨p, hp, -⟩ := parseCache_triggers h
  obtain ⟨u, hfind, hu⟩ := Option.bind_eq_some_iff.mp hp
  have hne : u ≠ [] := by
    rintro rfl
    cases hu
  -- the array stands at the same place in the front and in the whole file
  have hwhole := scan_front t hne s.length le_rfl hfind
  have hplace : u ++ t = (triggersMember cache).value.text ++
      ((triggersMember cache).after ++ [objectClose, 0x0a]) := by
    have := find_triggers cache
    rw [← hst] at this
    exact Option.some.inj (hwhole.symm.trans this)
  obtain ⟨u', rfl⟩ : ∃ u', u = arrayOpen :: u' := by
    obtain ⟨c, u', rfl⟩ := List.exists_cons_of_ne_nil hne
    exact ⟨u', congrArg (· :: u') (List.cons.inj hplace).1⟩
  -- so the members before the array are whole
  obtain ⟨r, hs⟩ : ∃ r, s = objectOpen :: (withCommas (firstMembers cache) ++ r) := by
    obtain ⟨w, hw⟩ : ∃ w, (triggersMember cache).text =
        w ++ ((triggersMember cache).value.text ++ (triggersMember cache).after) := by
      refine ⟨newline 2 ++ quote :: (ascii "triggers" ++ [quote, colon, 0x20]), ?_⟩
      simp [triggersMember, lastLine, line, Member.text]
    refine ⟨w ++ arrayOpen :: u', (List.append_left_inj t).mp ?_⟩
    rw [hst, cacheText_split, hw]
    simp only [List.append_assoc, List.cons_append] at hplace ⊢
    rw [hplace]
  have hfirst : ∀ key v, lookup (ascii key) (firstMembers cache) = some v →
      getValue (ascii key) s = getValue (ascii key) (cacheText cache) := by
    intro key v hv
    rw [hs, cacheText_split, getValue_withCommas (firstMembers_valid cache) hv,
      getValue_withCommas (firstMembers_valid cache) hv]
  rw [← h]
  refine (parseCache_congr fun key hkey => ?_).symm
  simp only [List.mem_cons, List.not_mem_nil, or_false] at hkey
  rcases hkey with rfl | rfl | rfl
  · exact hfirst "version" _ rfl
  · exact hfirst "date" _ rfl
  · rw [hp, ← hst, getValue_front (Or.inr rfl) hfind hp]

/-- A cut cache file does not load, or it loads as the whole file does. -/
theorem torn_cache {cache : PrayerCache} (hc : CacheInRange cache) (n : ℕ) :
    cacheLoad (some ((cacheText cache).take n)) true = none ∨
      cacheLoad (some ((cacheText cache).take n)) true = cacheLoad (some (cacheText cache)) true := by
  have hload : ∀ k, cacheLoad (some ((cacheText cache).take k)) true =
      parseCache ((cacheText cache).take k) := by
    intro k
    have hlen : ((cacheText cache).take k).length ≤ maxCacheFileBytes :=
      (List.length_take_le' _ _).trans (cacheText_length hc)
    have hfree : NulFree ((cacheText cache).take k) :=
      fun c hm => cacheText_nulFree cache c (List.mem_of_mem_take hm)
    have hread : readFile maxCacheFileBytes ((cacheText cache).take k) =
        some ((cacheText cache).take k) := by
      rw [readFile, if_neg (Nat.not_lt.mpr hlen), terminated_eq hfree]
    simp [cacheLoad, hread]
  have hwhole := hload (cacheText cache).length
  rw [List.take_length] at hwhole
  rw [hload, hwhole]
  cases h : parseCache ((cacheText cache).take n) with
  | none => exact Or.inl rfl
  | some loaded => exact Or.inr (parseCache_front (List.take_append_drop n _) h).symm

def hostileCache : PrayerCache where
  date := copyString 16 (ascii "2026-06-17")
  triggers := FixedArray.empty.push hostileTrigger

/-- A cut behind the backslash of an escape. -/
theorem torn_cache_hostile :
    cacheLoad (some ((cacheText hostileCache).take 181)) true = none ∨
      cacheLoad (some ((cacheText hostileCache).take 181)) true =
        cacheLoad (some (cacheText hostileCache)) true := by
  have hrange : CacheInRange hostileCache := by
    intro t ht
    obtain rfl : t = hostileTrigger := List.mem_singleton.mp ht
    exact ⟨by decide, by decide⟩
  exact torn_cache hrange 181

end Cache

end Muslimtify.TornCache
