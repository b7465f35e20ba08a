import Muslimtify.Brackets
import Muslimtify.CacheRoundTrip

/-!
# What the trigger scan lets pass

The loader wants a trigger list that is whole: objects with all six keys, a
comma between two of them, blanks, the closing bracket. It checks what stands
behind an object and what is in it, but it comes to an object by searching for
the next brace, and it stops without an error where it finds no brace, where an
object does not end and where the list is full. A list it takes is whole exactly
when an object stands at every place where the scan looks for one.
-/
namespace Muslimtify.TriggerScan
open CText CDouble JsonReader JsonDocument Brackets ConfigFile Schedule TriggerCache CacheFile
open CacheRoundTrip

section Lists

/-- The blanks that may stand between objects. -/
def Blanks (w : CString) : Prop := ∀ c ∈ w, isBlank c = true

def IsObject (obj : CString) : Prop :=
  ∃ v, Matched v ∧ obj = objectOpen :: (v ++ [objectClose])

def triggerKeys : List String :=
  ["prayer", "minute", "minutes_before", "prayer_time", "adhan_enabled", "adhan"]

/-- The object is a trigger object, read as `t`. -/
structure TriggerObject (obj : CString) (t : CacheTrigger) : Prop where
  object : IsObject obj
  keys : ∀ key ∈ triggerKeys, (getValue (ascii key) obj).isSome = true
  reads : parseTrigger obj = some t

/-- Trigger objects with one comma between two of them, up to the bracket that
closes the array. -/
inductive Rows : CString → List CacheTrigger → Prop
  | last {w obj w' : CString} {t : CacheTrigger} : Blanks w → TriggerObject obj t → Blanks w' →
      Rows (w ++ (obj ++ (w' ++ [arrayClose]))) [t]
  | more {w obj w' s : CString} {t : CacheTrigger} {ts : List CacheTrigger} : Blanks w →
      TriggerObject obj t → Blanks w' → Rows s ts →
      Rows (w ++ (obj ++ (w' ++ comma :: s))) (t :: ts)

/-- Nothing but blanks up to the closing bracket. -/
def Empty (p : CString) : Prop := ∃ w, Blanks w ∧ p = w ++ [arrayClose]

/-- The value of `triggers` is an array of trigger objects, and these are
`triggers` in their order. -/
def WholeTriggers (content : CString) (triggers : List CacheTrigger) : Prop :=
  (∃ u, jsonFindKey (ascii "triggers") content = some (arrayOpen :: u)) ∧
    ∃ p, getValue (ascii "triggers") content = some (arrayOpen :: p) ∧
      (Empty p ∧ triggers = [] ∨ Rows p triggers)

end Lists

section Places

/-- The places where an object is looked for, with the number of objects before:
the front of the list, and behind the comma that follows an object. -/
inductive Expects (p : CString) : ℕ → CString → Prop
  | first : Expects p 0 p
  | next {k : ℕ} {w obj w' s : CString} : Blanks w → IsObject obj → Blanks w' →
      Expects p k (w ++ (obj ++ (w' ++ comma :: s))) → Expects p (k + 1) s

/-- An object stands at every such place, and there is room for it. A list
without objects is blank. -/
def InOrder (p : CString) : Prop :=
  ∀ k q, Expects p k q → k = 0 ∧ Empty q ∨
    k < maxTriggers ∧ ∃ w obj s, Blanks w ∧ IsObject obj ∧ q = w ++ (obj ++ s)

/-- The value of `triggers` is no string, and its objects are in order. -/
def ObjectsInOrder (content : CString) : Prop :=
  (∃ u, jsonFindKey (ascii "triggers") content = some (arrayOpen :: u)) ∧
    ∀ p, getValue (ascii "triggers") content = some (arrayOpen :: p) → InOrder p

end Places

section Splits
variable {w w' obj obj' s s' : CString} {c c' : UInt8}

theorem isPlain_of_isBlank : ∀ c : UInt8, isBlank c = true → isPlain c = true :=
  forall_byte (by decide +kernel)

theorem blanks_drop (hw : Blanks w) (hc : isBlank c = false) (s : CString) :
    (w ++ c :: s).dropWhile isBlank = c :: s := by
  rw [List.dropWhile_append_of_pos hw]
  simp [hc]

theorem blanks_no_brace (hw : Blanks w) : ∀ c ∈ w, c ≠ objectOpen := by
  rintro c hc rfl
  exact absurd (hw _ hc) (by decide)

theorem blanks_start (hw : Blanks w) : w.head? ≠ some arrayClose := by
  intro h
  exact absurd (hw _ (List.mem_of_mem_head? h)) (by decide)

theorem object_drop (hw : Blanks w) (hobj : IsObject obj) (s : CString) :
    (w ++ (obj ++ s)).dropWhile (fun c => c ≠ objectOpen) = obj ++ s := by
  obtain ⟨v, -, rfl⟩ := hobj
  rw [List.dropWhile_append_of_pos fun c hc => by simpa using blanks_no_brace hw c hc]
  simp

theorem scanObject_isObject (hobj : IsObject obj) (s : CString) :
    scanObject (obj ++ s) 0 false = some (obj, s) := by
  obtain ⟨v, ⟨n, hv⟩, rfl⟩ := hobj
  simpa using scanObject_block hv s

/-- What stands before the first brace, and the object it opens, are determined
by the text. -/
theorem object_unique (hw : Blanks w) (hw' : Blanks w') (hobj : IsObject obj)
    (hobj' : IsObject obj') (h : w ++ (obj ++ s) = w' ++ (obj' ++ s')) : obj = obj' ∧ s = s' := by
  have hdrop := congrArg (List.dropWhile fun c => c ≠ objectOpen) h
  rw [object_drop hw hobj, object_drop hw' hobj'] at hdrop
  have hscan := congrArg (fun t => scanObject t 0 false) hdrop
  simp only [scanObject_isObject hobj, scanObject_isObject hobj'] at hscan
  exact Prod.mk.inj (Option.some.inj hscan)

theorem separator_unique (hw : Blanks w) (hw' : Blanks w') (hc : isBlank c = false)
    (hc' : isBlank c' = false) (h : w ++ c :: s = w' ++ c' :: s') : c = c' ∧ s = s' := by
  have hdrop := congrArg (List.dropWhile isBlank) h
  rw [blanks_drop hw hc, blanks_drop hw' hc'] at hdrop
  exact List.cons.inj hdrop

theorem not_empty (hw : Blanks w) (hobj : IsObject obj) : ¬Empty (w ++ (obj ++ s)) := by
  rintro ⟨w', hw', h⟩
  have hdrop := congrArg (List.dropWhile fun c => c ≠ objectOpen) h
  obtain ⟨v, -, rfl⟩ := id hobj
  rw [object_drop hw hobj, List.dropWhile_append_of_pos fun c hc => by
    simpa using blanks_no_brace hw' c hc] at hdrop
  exact absurd hdrop (by simp [show arrayClose ≠ objectOpen by decide])

end Splits

section Scan
variable {p q w obj : CString}

/-- A loaded list in a whole array: an object stands where one is looked for. -/
theorem expects_rows {triggers : List CacheTrigger} (h : Empty p ∧ triggers = [] ∨ Rows p triggers)
    {k : ℕ} (hq : Expects p k q) : ∃ front ts, triggers = front ++ ts ∧ front.length = k ∧
      (k = 0 ∧ Empty q ∨ Rows q ts) := by
  induction hq with
  | first => exact ⟨[], triggers, rfl, rfl, h.imp (fun h => ⟨rfl, h.1⟩) id⟩
  | next hw hobj hw' _ ih =>
      obtain ⟨front, ts, rfl, hlen, ⟨-, hempty⟩ | hrows⟩ := ih
      · exact absurd hempty (not_empty hw hobj)
      generalize hr : _ ++ (_ ++ (_ ++ comma :: _)) = r at hrows
      cases hrows with
      | last hw₁ ht hw₂ =>
          obtain ⟨-, hs⟩ := object_unique hw hw₁ hobj ht.object hr
          obtain ⟨hc, -⟩ := separator_unique hw' hw₂ (by decide) (by decide) hs
          exact absurd hc (by decide)
      | @more _ _ _ _ t ts hw₁ ht hw₂ hrest =>
          obtain ⟨-, hs⟩ := object_unique hw hw₁ hobj ht.object hr
          obtain ⟨-, rfl⟩ := separator_unique hw' hw₂ (by decide) (by decide) hs
          exact ⟨front ++ [t], ts, by simp, by simp [hlen], Or.inr hrest⟩

theorem inOrder_of_rows {triggers : List CacheTrigger}
    (h : Empty p ∧ triggers = [] ∨ Rows p triggers) (hroom : triggers.length ≤ maxTriggers) :
    InOrder p := by
  intro k q hq
  obtain ⟨front, ts, rfl, rfl, hempty | hrows⟩ := expects_rows h hq
  · exact Or.inl hempty
  rw [List.length_append] at hroom
  refine Or.inr ?_
  cases hrows with
  | last hw ht hw' =>
      rw [List.length_singleton] at hroom
      exact ⟨by omega, _, _, _, hw, ht.object, rfl⟩
  | more hw ht hw' _ =>
      rw [List.length_cons] at hroom
      exact ⟨by omega, _, _, _, hw, ht.object, rfl⟩

/-- The text runs up to the bracket that closes the array, and no further. -/
def Closed (q : CString) : Prop :=
  ∃ r, matchLoop arrayOpen arrayClose (q ++ r) 1 false false = some (q, r)

theorem Closed.behind {a : CString} (ha : Matched a) (h : Closed (a ++ q)) : Closed q := by
  have hpair : IsPair arrayOpen arrayClose := Or.inr ⟨rfl, rfl⟩
  obtain ⟨r, h⟩ := h
  rw [List.append_assoc] at h
  by_cases hdepth : Within arrayOpen 99 a
  · rw [matchLoop_within hpair hdepth _ le_rfl (by decide)] at h
    obtain ⟨x, hx, he⟩ := Option.map_eq_some_iff.mp h
    obtain ⟨h₁, h₂⟩ := Prod.mk.inj he
    rw [List.append_cancel_left_eq] at h₁
    exact ⟨r, by rw [hx, ← h₁, ← h₂]⟩
  · rw [matchLoop_too_deep hpair ha _ le_rfl (by decide) hdepth] at h
    cases h

theorem Closed.last (h : Closed (arrayClose :: q)) : q = [] := by
  obtain ⟨r, h⟩ := h
  have hclose : matchLoop arrayOpen arrayClose (arrayClose :: (q ++ r)) 1 false false =
      some ([arrayClose], q ++ r) := by
    simp [matchLoop, show arrayClose ≠ quote by decide, show arrayClose ≠ arrayOpen by decide]
  rw [List.cons_append, hclose] at h
  exact (List.cons.inj (Prod.mk.inj (Option.some.inj h)).1).2.symm

theorem blanks_matched (hw : Blanks w) : Matched w :=
  ⟨0, nested_of_plain (fun c hc => isPlain_of_isBlank c (hw c hc)) 0⟩

theorem object_matched (hobj : IsObject obj) : Matched obj := by
  obtain ⟨v, hv, rfl⟩ := hobj
  exact .block (Or.inl ⟨rfl, rfl⟩) hv .nil

theorem parseTrigger_keys {t : CacheTrigger} (h : parseTrigger obj = some t) :
    ∀ key ∈ triggerKeys, (getValue (ascii key) obj).isSome = true := by
  simp only [parseTrigger, Option.bind_eq_bind, Option.bind_eq_some_iff] at h
  obtain ⟨_, h₁, _, h₂, _, h₃, _, h₄, _, h₅, _, h₆, -⟩ := h
  simp [triggerKeys, h₁, h₂, h₃, h₄, h₅, h₆]

theorem blanks_split {s t : CString} (h : s.dropWhile isBlank = t) :
    ∃ w, Blanks w ∧ s = w ++ t :=
  ⟨s.takeWhile isBlank, fun _ hc => List.mem_takeWhile_imp hc,
    by rw [← h, List.takeWhile_append_dropWhile]⟩

theorem triggerLoop_empty (hp : Empty p) (n : ℕ) (acc : FixedArray CacheTrigger maxTriggers) :
    triggerLoop n p acc = some acc := by
  obtain ⟨w, hw, rfl⟩ := hp
  cases n with
  | zero => rfl
  | succ n =>
      have hdrop : (w ++ [arrayClose]).dropWhile (fun c => c ≠ objectOpen) = [] := by
        rw [List.dropWhile_append_of_pos fun c hc => by simpa using blanks_no_brace hw c hc]
        rfl
      rw [triggerLoop, hdrop]
      split_ifs <;> rfl

/-- Where the objects are in order the scan reads a whole list. -/
theorem triggerLoop_rows (hp : InOrder p) (n : ℕ) : ∀ {k : ℕ} {q : CString}
    {acc out : FixedArray CacheTrigger maxTriggers}, q.length < n → Expects p k q →
      acc.items.length = k → Closed q → triggerLoop n q acc = some out →
      ∃ ts, out.items = acc.items ++ ts ∧ (k = 0 ∧ Empty q ∧ ts = [] ∨ Rows q ts) := by
  induction n with
  | zero =>
      intro k q acc out hn
      omega
  | succ n ih =>
      intro k q acc out hn hq hk hclosed h
      rcases hp k q hq with ⟨rfl, hempty⟩ | ⟨hroom, w, obj, s, hw, hobj, rfl⟩
      · rw [triggerLoop_empty hempty] at h
        obtain rfl := Option.some.inj h
        exact ⟨[], (List.append_nil _).symm, Or.inl ⟨rfl, hempty, rfl⟩⟩
      obtain ⟨v, ⟨m, hv⟩, hobj'⟩ := id hobj
      have htext : w ++ (obj ++ s) = w ++ objectOpen :: (v ++ objectClose :: s) := by
        simp [hobj']
      rw [htext, triggerLoop_object (blanks_no_brace hw) (blanks_start hw) hv n s (by omega),
        ← hobj'] at h
      obtain ⟨t, ht, h⟩ := Option.bind_eq_some_iff.mp h
      have hpush := push_room (t := t) (show acc.items.length < maxTriggers by omega)
      have hobject : TriggerObject obj t := ⟨hobj, parseTrigger_keys ht, ht⟩
      have hbehind : Closed s :=
        .behind (object_matched hobj) (.behind (blanks_matched hw) hclosed)
      cases hdrop : s.dropWhile isBlank with
      | nil =>
        simp only [afterObject, hdrop] at h
        cases h
      | cons d ds =>
        simp only [afterObject, hdrop] at h
        obtain ⟨w', hw', hs⟩ := blanks_split hdrop
        rw [hs] at hn hq hbehind ⊢
        have hlast : Closed (d :: ds) := .behind (blanks_matched hw') hbehind
        split_ifs at h with hcomma hclose
        · subst hcomma
          have hnext : Expects p (k + 1) ds := .next hw hobj hw' hq
          have hrest : Closed ds := .behind (a := [comma]) (.plain (by decide) .nil) hlast
          obtain ⟨ts, hout, ⟨h₀, -⟩ | hrows⟩ := ih (by simp at hn; omega) hnext
            (by rw [hpush, List.length_append, hk]; rfl) hrest h
          · omega
          · refine ⟨t :: ts, ?_, Or.inr (.more hw hobject hw' hrows)⟩
            rw [hout, hpush, List.append_assoc]
            rfl
        · subst hclose
          obtain rfl := hlast.last
          have hend : Empty [arrayClose] := ⟨[], List.forall_mem_nil _, rfl⟩
          rw [triggerLoop_empty hend] at h
          obtain rfl := Option.some.inj h
          exact ⟨[t], hpush, Or.inr (.last hw hobject hw')⟩

end Scan

section Load

/-- The value of an array ends where its bracket closes. -/
theorem closed_value {content u p : CString}
    (hfind : jsonFindKey (ascii "triggers") content = some (arrayOpen :: u))
    (h : getValue (ascii "triggers") content = some (arrayOpen :: p)) : Closed p := by
  rw [getValue, hfind, Option.bind_some, jsonExtractValue,
    skipWhitespace_of_head (by decide)] at h
  simp only [show arrayOpen ≠ quote by decide, or_true, if_true, if_false, findMatchingBracket,
    show arrayOpen ≠ objectOpen by decide, Option.map_map] at h
  obtain ⟨x, hx, he⟩ := Option.map_eq_some_iff.mp h
  obtain rfl : x.1 = p := (List.cons.inj he).2
  refine ⟨x.2, ?_⟩
  rw [← matchLoop_split hx, hx]

/-- A trigger list that loads is whole exactly when its objects are in order. -/
theorem wholeTriggers_iff {file : CString} {opens : Bool} {cache : PrayerCache}
    (h : cacheLoad (some file) opens = some cache) :
    WholeTriggers (terminated file) cache.triggers.items ↔ ObjectsInOrder (terminated file) := by
  obtain ⟨bytes, hfile, h⟩ := cacheLoad_parsed h
  obtain rfl := Option.some.inj hfile
  obtain ⟨p, hvalue, hloop⟩ := parseCache_triggers h
  constructor
  · rintro ⟨harray, p', hp', hrows⟩
    refine ⟨harray, fun q hq => ?_⟩
    obtain rfl : p' = q := (List.cons.inj (Option.some.inj (hp'.symm.trans hq))).2
    exact inOrder_of_rows hrows cache.triggers.fits
  · rintro ⟨⟨u, hfind⟩, horder⟩
    obtain ⟨ts, hout, hrows⟩ := triggerLoop_rows (horder p hvalue) (p.length + 1)
      (Nat.lt_succ_self _) .first rfl (closed_value hfind hvalue) hloop
    rw [FixedArray.empty_items, List.nil_append] at hout
    rw [hout]
    exact ⟨⟨u, hfind⟩, p, hvalue, hrows.imp And.right id⟩

/-- The braces of its only trigger do not match, and four of its keys are missing. -/
def shortFile : CString :=
  ascii ("\x7b\"version\": 2, \"date\": \"2026-06-17\", " ++
    "\"triggers\": [\x7b\"prayer\": \"Fajr\", \"minute\": 266]\x7d")

private theorem shortFile_loads :
    cacheLoad (some shortFile) true = some ⟨copyString 16 (ascii "2026-06-17"), .empty⟩ := by
  decide +kernel

theorem wholeTriggers_iff_short :
    WholeTriggers (terminated shortFile) [] ↔ ObjectsInOrder (terminated shortFile) :=
  wholeTriggers_iff shortFile_loads

/-- The file loads as a day without triggers, and its list is not whole. -/
theorem short_list_loads :
    cacheLoad (some shortFile) true = some ⟨copyString 16 (ascii "2026-06-17"), .empty⟩ ∧
      ¬WholeTriggers (terminated shortFile) [] := by
  refine ⟨shortFile_loads, ?_⟩
  rintro ⟨-, p, hp, ⟨⟨w, hw, rfl⟩, -⟩ | hrows⟩
  · have hvalue : getValue (ascii "triggers") (terminated shortFile) =
        some (arrayOpen :: objectOpen :: ascii "\"prayer\": \"Fajr\", \"minute\": 266]") := by
      decide +kernel
    rw [hvalue] at hp
    have hlist := (List.cons.inj (Option.some.inj hp)).2
    cases w with
    | nil => exact absurd (List.cons.inj hlist).1 (by decide)
    | cons c w =>
        obtain rfl := (List.cons.inj hlist).1
        exact absurd (hw objectOpen (by simp)) (by decide)
  · cases hrows

end Load

end Muslimtify.TriggerScan
