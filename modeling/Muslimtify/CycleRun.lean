import Muslimtify.CacheRoundTrip
import Muslimtify.DaemonCycle

/-!
# What a cycle does by itself

The announcing loop works through an array by index and takes out what it has
dealt with. Seen from outside it announces the triggers that are due, in their
order, and leaves those still ahead. A cycle that nobody interferes with is then
described by the list it works with, by what it announces, which is either all
that is due or nothing, and by what it leaves in the files, whichever of its
operations fail.

A list that goes through the cache file comes back with its prayer times
rounded, so lists on the disk are compared as they would come back.
-/
namespace Muslimtify.CycleRun
open CText CDouble CivilDays Settings ConfigFile ConfigRoundTrip Schedule TriggerCache CacheFile
open CacheRoundTrip Detection Program DaemonCycle

section Loops

def isAhead (m : ℤ) (t : CacheTrigger) : Bool :=
  triggerCatchupAction t.minute t.minutesBefore m = .keep

/-- The trigger is announced in minute `m`. -/
def isDue (m : ℤ) (t : CacheTrigger) : Bool :=
  triggerCatchupAction t.minute t.minutesBefore m = .fire

def keepAhead (m : ℤ) (cache : PrayerCache) : PrayerCache :=
  { cache with triggers := cache.triggers.keep (isAhead m) }

def due (m : ℤ) (cache : PrayerCache) : List CacheTrigger := (cache.triggers.keep (isDue m)).items

theorem isAhead_iff {m : ℤ} {t : CacheTrigger} : isAhead m t = true ↔ m < t.minute := by
  simp only [isAhead, triggerCatchupAction]
  split_ifs <;> simp <;> omega

theorem isDue_iff {m : ℤ} {t : CacheTrigger} :
    isDue m t = true ↔ t.minute ≤ m ∧ m ≤ t.minute + catchupMaxMin ∧
      (0 < t.minutesBefore → m < t.minute + t.minutesBefore) := by
  simp only [isDue, triggerCatchupAction]
  split_ifs <;> simp <;> omega

variable (cfg : Config) (m : ℤ)

def announceAll : List CacheTrigger → CycleProgram Unit
  | [] => return ()
  | t :: ts => do
      notify t (announcement cfg m t)
      announceAll ts

/-- The variables of the loop when it has gone through all triggers. -/
def settled (f : Firing) : Firing where
  cache := keepAhead m f.cache
  notified := f.notified || !(due m f.cache).isEmpty
  dirty := f.dirty || f.cache.triggers.items.any fun t => !isAhead m t
  notifications := f.notifications + (due m f.cache).length

/-- The loop without its index. -/
def announcing (f : Firing) : CycleProgram (Option Firing) := do
  let started ← if f.notified || (due m f.cache).isEmpty then pure true else notifyInit
  if started then
    announceAll cfg m (due m f.cache)
    return some (settled m f)
  else return none

variable {m}

theorem not_isDue_of_isAhead {t : CacheTrigger} (h : isAhead m t = true) : isDue m t = false := by
  simp only [isAhead, decide_eq_true_eq] at h
  simp [isDue, h]

theorem due_of_ahead {cache : PrayerCache} (h : ∀ t ∈ cache.triggers.items, isAhead m t = true) :
    due m cache = [] :=
  List.filter_eq_nil_iff.mpr fun t ht => by simp [not_isDue_of_isAhead (h t ht)]

theorem keepAhead_of_ahead {cache : PrayerCache}
    (h : ∀ t ∈ cache.triggers.items, isAhead m t = true) : keepAhead m cache = cache := by
  rw [keepAhead, FixedArray.keep_self h]

/-- With every trigger ahead the variables stay. -/
theorem settled_of_ahead {f : Firing} (h : ∀ t ∈ f.cache.triggers.items, isAhead m t = true) :
    settled m f = f := by
  have hany : (f.cache.triggers.items.any fun t => !isAhead m t) = false :=
    List.any_eq_false.mpr fun t ht => by simp [h t ht]
  simp [settled, due_of_ahead h, keepAhead_of_ahead h, hany]

/-- With every trigger ahead there is nothing to do. -/
theorem announcing_idle {f : Firing} (h : ∀ t ∈ f.cache.triggers.items, isAhead m t = true) :
    announcing cfg m f = done (some f) := by
  simp [announcing, settled_of_ahead h, due_of_ahead h, announceAll]

section Removing
variable {f : Firing} {i : ℕ} {t : CacheTrigger}

theorem keepAhead_remove {cache : PrayerCache} (h : cache.triggers.items[i]? = some t)
    (ht : isAhead m t = false) : keepAhead m (cacheRemoveTrigger cache i) = keepAhead m cache := by
  rw [keepAhead, keepAhead, cacheRemoveTrigger, FixedArray.keep_remove h ht]

theorem any_not_ahead (h : f.cache.triggers.items[i]? = some t) (ht : isAhead m t = false) :
    (f.cache.triggers.items.any fun t => !isAhead m t) = true :=
  List.any_eq_true.mpr ⟨t, List.mem_of_getElem? h, by simp [ht]⟩

theorem due_drop (h : f.cache.triggers.items[i]? = some t)
    (ht : triggerCatchupAction t.minute t.minutesBefore m = .drop) :
    due m (cacheRemoveTrigger f.cache i) = due m f.cache := by
  rw [due, due, cacheRemoveTrigger, FixedArray.keep_remove h (by simp [isDue, ht])]

theorem settled_drop (h : f.cache.triggers.items[i]? = some t)
    (ht : triggerCatchupAction t.minute t.minutesBefore m = .drop) :
    settled m (f.consume i) = settled m f := by
  have hahead : isAhead m t = false := by simp [isAhead, ht]
  simp [settled, Firing.consume, due_drop h ht, keepAhead_remove h hahead, any_not_ahead h hahead]

theorem announcing_drop (h : f.cache.triggers.items[i]? = some t)
    (ht : triggerCatchupAction t.minute t.minutesBefore m = .drop) :
    announcing cfg m (f.consume i) = announcing cfg m f := by
  have hdue : due m (f.consume i).cache = due m f.cache := due_drop h ht
  have hnotified : (f.consume i).notified = f.notified := rfl
  rw [announcing, announcing, settled_drop h ht, hdue, hnotified]

/-- The first trigger that is not ahead is the first one due, when it is due. -/
theorem due_fire (h : f.cache.triggers.items[i]? = some t)
    (hi : ∀ t ∈ f.cache.triggers.items.take i, isAhead m t = true)
    (ht : triggerCatchupAction t.minute t.minutesBefore m = .fire) :
    due m f.cache = t :: due m (cacheRemoveTrigger f.cache i) := by
  have hnone : (f.cache.triggers.items.take i).filter (isDue m) = [] :=
    List.filter_eq_nil_iff.mpr fun t ht => by simp [not_isDue_of_isAhead (hi t ht)]
  conv_lhs => rw [due, FixedArray.keep_items, FixedArray.items_split h]
  rw [due, cacheRemoveTrigger, FixedArray.keep_items, FixedArray.remove_items,
    List.eraseIdx_eq_take_drop_succ, List.filter_append, List.filter_append, hnone,
    List.filter_cons_of_pos (by simp [isDue, ht])]
  rfl

theorem settled_fire (h : f.cache.triggers.items[i]? = some t)
    (hi : ∀ t ∈ f.cache.triggers.items.take i, isAhead m t = true)
    (ht : triggerCatchupAction t.minute t.minutesBefore m = .fire) :
    settled m ({ f with notified := true, notifications := f.notifications + 1 }.consume i) =
      settled m f := by
  have hahead : isAhead m t = false := by simp [isAhead, ht]
  simp only [settled, Firing.consume, keepAhead_remove h hahead, any_not_ahead h hahead,
    due_fire h hi ht, List.length_cons, Bool.true_or, Bool.or_true, List.isEmpty_cons,
    Bool.not_false, Firing.mk.injEq, true_and]
  push_cast
  ring

/-- The first trigger that is not ahead, when it is due. -/
theorem announcing_fire (h : f.cache.triggers.items[i]? = some t)
    (hi : ∀ t ∈ f.cache.triggers.items.take i, isAhead m t = true)
    (ht : triggerCatchupAction t.minute t.minutesBefore m = .fire) :
    announcing cfg m f = (do
      let started ← if f.notified then pure true else notifyInit
      if started then
        notify t (announcement cfg m t)
        announcing cfg m
          ({ f with notified := true, notifications := f.notifications + 1 }.consume i)
      else return none) := by
  have hdue := due_fire h hi ht
  have hsettled := settled_fire h hi ht
  obtain ⟨g, hg⟩ : ∃ g, g =
    { f with notified := true, notifications := f.notifications + 1 }.consume i := ⟨_, rfl⟩
  have hnotified : g.notified = true := by rw [hg]; rfl
  have hrest : due m g.cache = due m (cacheRemoveTrigger f.cache i) := by rw [hg]; rfl
  rw [← hg] at hsettled ⊢
  cases hn : f.notified <;>
    simp [announcing, hn, hdue, hnotified, hrest, hsettled, announceAll, notify, notifyInit]

end Removing

theorem firingLoop_eq {n i : ℕ} {f : Firing} (hn : f.cache.triggers.items.length ≤ n + i)
    (hi : ∀ t ∈ f.cache.triggers.items.take i, isAhead m t = true) :
    firingLoop cfg m n i f = announcing cfg m f := by
  induction n generalizing i f with
  | zero =>
      refine (announcing_idle cfg fun t ht => hi t ?_).symm
      rwa [List.take_of_length_le (by omega)]
  | succ n ih =>
      rw [firingLoop]
      split
      · rename_i hnone
        refine (announcing_idle cfg fun t ht => hi t ?_).symm
        rwa [List.take_of_length_le (List.getElem?_eq_none_iff.mp hnone)]
      · rename_i t ht
        have hlen := FixedArray.length_remove ht
        have hfront : ∀ u ∈ (f.cache.triggers.remove i).items.take i, isAhead m u = true := by
          rwa [FixedArray.take_remove]
        split
        · rename_i hact
          exact ih (by omega) (FixedArray.forall_take_succ ht hi (by simp [isAhead, hact]))
        · rename_i hact
          rw [ih (f := f.consume i) (by simp only [Firing.consume, cacheRemoveTrigger]; omega)
            hfront, announcing_drop cfg ht hact]
        · rename_i hact
          have hloop := ih (f := { f with
            notified := true, notifications := f.notifications + 1 }.consume i)
            (by simp only [Firing.consume, cacheRemoveTrigger]; omega) hfront
          simp only [announcing_fire cfg ht hi hact, hloop]

/-- The removing loop keeps the triggers that do not lie behind. -/
theorem removeBehind_eq {n j : ℕ} {cache : PrayerCache} (hn : cache.triggers.items.length ≤ n + j)
    (hj : ∀ t ∈ cache.triggers.items.take j, decide (m ≤ t.minute) = true) :
    removeBehind m n j cache =
      { cache with triggers := cache.triggers.keep fun t => m ≤ t.minute } := by
  have hself : ∀ {cache : PrayerCache}, (∀ t ∈ cache.triggers.items, decide (m ≤ t.minute) = true) →
      cache = { cache with triggers := cache.triggers.keep fun t => m ≤ t.minute } :=
    fun h => by rw [FixedArray.keep_self h]
  induction n generalizing j cache with
  | zero => exact hself (by rwa [List.take_of_length_le (by omega)] at hj)
  | succ n ih =>
      rw [removeBehind]
      split
      · rename_i hnone
        exact hself (by rwa [List.take_of_length_le (List.getElem?_eq_none_iff.mp hnone)] at hj)
      · rename_i t ht
        split_ifs with hlt
        · have hlen := FixedArray.length_remove ht
          rw [@ih j (cacheRemoveTrigger cache j) (by simp only [cacheRemoveTrigger]; omega)
            (by rwa [cacheRemoveTrigger, FixedArray.take_remove])]
          simp only [cacheRemoveTrigger]
          rw [FixedArray.keep_remove ht (by simpa using hlt)]
        · exact ih (by omega) (FixedArray.forall_take_succ ht hj (by simpa using hlt))

end Loops

section Trace

/-- The notifications of a trace, each with its trigger. -/
def notices (trace : List Event) : List (CacheTrigger × Call) :=
  trace.filterMap fun ev => match ev.op with
    | .notify t call => some (t, call)
    | _ => none

/-- The configurations a trace has written. -/
def storedConfigs (trace : List Event) : List Config :=
  trace.filterMap fun ev => match ev.op with
    | .saveConfig cfg => if ev.input.works then some cfg else none
    | _ => none

/-- The lists a trace has written to the cache file. -/
def storedLists (trace : List Event) : List PrayerCache :=
  trace.filterMap fun ev => match ev.op with
    | .saveCache list => if ev.input.works then some list else none
    | _ => none

@[simp] theorem notices_append (l l' : List Event) : notices (l ++ l') = notices l ++ notices l' :=
  List.filterMap_append

@[simp] theorem storedConfigs_append (l l' : List Event) :
    storedConfigs (l ++ l') = storedConfigs l ++ storedConfigs l' :=
  List.filterMap_append

@[simp] theorem notices_act {op : Op} (h : ∀ t call, op ≠ .notify t call) (party : Side)
    (i : Input) (w : World) : notices (act party op i w).2.trace = notices w.trace := by
  cases op <;> simp [act, notices] at h ⊢

@[simp] theorem storedConfigs_act {op : Op} (h : ∀ cfg, op ≠ .saveConfig cfg) (party : Side)
    (i : Input) (w : World) :
    storedConfigs (act party op i w).2.trace = storedConfigs w.trace := by
  cases op <;> simp [act, storedConfigs] at h ⊢

theorem storedConfigs_failed {i : Input} (hi : i.works = false) (party : Side) (op : Op)
    (w : World) : storedConfigs (act party op i w).2.trace = storedConfigs w.trace := by
  cases op <;> simp [act, storedConfigs, hi]

def isCacheRead : Op → Bool
  | .loadCache => true
  | _ => false

def isCacheWrite : Op → Bool
  | .saveCache _ => true
  | _ => false

def isConfigWrite : Op → Bool
  | .saveConfig _ => true
  | _ => false

def isStart : Op → Bool
  | .notifyInit => true
  | _ => false

@[simp] theorem storedLists_act {op : Op} (h : isCacheWrite op = false) (party : Side)
    (i : Input) (w : World) : storedLists (act party op i w).2.trace = storedLists w.trace := by
  cases op <;> simp [act, storedLists, isCacheWrite] at h ⊢

theorem storedLists_failed {i : Input} (hi : i.works = false) (party : Side) (op : Op)
    (w : World) : storedLists (act party op i w).2.trace = storedLists w.trace := by
  cases op <;> simp [act, storedLists, hi]

/-- A program without writes of the cache file stores no list. -/
theorem storedLists_run {α : Type} {p : CycleProgram α} (h : p.Uses (isCacheWrite · = false))
    (party : Side) (e : ℕ → Input) (w : World) :
    storedLists (run (act party) p e w).state.trace = storedLists w.trace := by
  induction p generalizing e w with
  | done a => rfl
  | step op next ih =>
      rw [run_step, ih _ (h.2 _)]
      exact storedLists_act h.1 party (e 0) w

/-- An operation of the kind failed. -/
def Failed (kind : Op → Bool) (trace : List Event) : Prop :=
  ∃ ev ∈ trace, kind ev.op = true ∧ ev.input.works = false

theorem Failed.append {kind : Op → Bool} {l l' : List Event} (h : Failed kind l) :
    Failed kind (l ++ l') := by
  obtain ⟨ev, hev, h⟩ := h
  exact ⟨ev, List.mem_append_left _ hev, h⟩

theorem failed_last {kind : Op → Bool} {l : List Event} {ev : Event} (hk : kind ev.op = true)
    (hf : ev.input.works = false) : Failed kind (l ++ [ev]) :=
  ⟨ev, by simp, hk, hf⟩

/-- A failure of the kind is not that of an operation of another kind. -/
theorem Failed.of_act {kind : Op → Bool} {party : Side} {op : Op} {i : Input} {w : World}
    (h : Failed kind (act party op i w).2.trace) (hop : kind op = false) :
    Failed kind w.trace := by
  obtain ⟨ev, hev, hk, hfail⟩ := h
  rcases List.mem_append.mp hev with hev | hev
  · exact ⟨ev, hev, hk, hfail⟩
  · rw [List.mem_singleton.mp hev] at hk
    exact absurd (hk.symm.trans hop) (by decide)

/-- A program adds to the trace. -/
theorem trace_run {α : Type} (party : Side) (p : CycleProgram α) (e : ℕ → Input) (w : World) :
    ∃ l, (run (act party) p e w).state.trace = w.trace ++ l := by
  induction p generalizing e w with
  | done a => exact ⟨[], (List.append_nil _).symm⟩
  | step op next ih =>
      obtain ⟨l, hl⟩ := ih (act party op (e 0) w).1 (fun n => e (n + 1)) (act party op (e 0) w).2
      exact ⟨⟨party, op, e 0, w.disk⟩ :: l, by rw [run_step, hl]; simp [act]⟩

theorem Failed.run {α : Type} {kind : Op → Bool} {w : World} (h : Failed kind w.trace)
    (party : Side) (p : CycleProgram α) (e : ℕ → Input) :
    Failed kind (run (act party) p e w).state.trace := by
  obtain ⟨l, hl⟩ := trace_run party p e w
  rw [hl]
  exact h.append

/-- A program without operations of the kind adds no failure of the kind. -/
theorem failed_of_run {α : Type} {kind : Op → Bool} {p : CycleProgram α}
    (h : p.Uses (kind · = false)) (party : Side) (e : ℕ → Input) (w : World)
    (hf : Failed kind (run (act party) p e w).state.trace) : Failed kind w.trace := by
  induction p generalizing e w with
  | done a => exact hf
  | step op next ih =>
      exact (ih _ (h.2 _) _ _ hf).of_act h.1

/-- Where every input works nothing fails. -/
theorem not_failed_run {α : Type} {kind : Op → Bool} {e : ℕ → Input} {w : World}
    (hw : ∀ n, (e n).works = true) (h : ¬Failed kind w.trace) (party : Side) (p : CycleProgram α) :
    ¬Failed kind (Program.run (act party) p e w).state.trace := by
  induction p generalizing e w with
  | done a => exact h
  | step op next ih =>
      refine ih _ (fun n => hw (n + 1)) fun hf => ?_
      obtain ⟨ev, hev, hk, hfail⟩ := hf
      rcases List.mem_append.mp hev with hev | hev
      · exact h ⟨ev, hev, hk, hfail⟩
      · rw [List.mem_singleton.mp hev, hw] at hfail
        cases hfail

end Trace

section Lists
variable {H : Host} {cfg : Config}

/-- The list a cycle works with, which depends on whether the cache can be read. -/
def dayList (H : Host) (cfg : Config) (now : LocalTime) (refreshed : Bool)
    (file : Option CString) (readable : Bool) : PrayerCache :=
  match if refreshed then none else cacheLoad file readable with
  | none => rebuild H .zero cfg now refreshed
  | some cache =>
      if cache.date.text = now.today then cache else rebuild H cache cfg now refreshed

theorem rebuild_eq (cache : PrayerCache) (cfg : Config) (now : LocalTime) (refreshed : Bool) :
    (rebuild H cache cfg now refreshed).date.text = now.today ∧
      (rebuild H cache cfg now refreshed).triggers.items =
        (builtTriggers H cfg now.day now.currentMin).filter fun t =>
          !refreshed || now.currentMin ≤ t.minute := by
  have hdate := copyString_of_fits (dateText_nulFree (mtCivilFromDays now.day)) now.fits
  have hbuilt := cacheBuildTriggers_day H cache cfg now.day now.currentMin
  have hitems : builtTriggers H cfg now.day now.currentMin =
      (cacheBuildTriggers H cache cfg (timesOfDay H cfg now.day) now.currentMin
        now.today).1.triggers.items := by
    rw [builtTriggers, cacheBuildTriggers_day, LocalTime.today, hbuilt]
  rw [hitems]
  cases refreshed with
  | false =>
      refine ⟨?_, by simp [rebuild]⟩
      simpa [rebuild, LocalTime.today, hbuilt] using hdate
  | true =>
      simp only [rebuild, if_true]
      rw [removeBehind_eq (by omega) (by simp)]
      refine ⟨?_, by simp⟩
      simp only [LocalTime.today, hbuilt, hdate]

/-- The cache file holds the list, as far as the file tells them apart. -/
def Holds (file : Option CString) (cache : PrayerCache) : Prop :=
  ∃ c, cacheLoad file true = some c ∧ c.date = cache.date ∧
    c.triggers.items.map storedTrigger = cache.triggers.items.map storedTrigger

theorem holds_text {cache : PrayerCache} (hc : CacheInRange cache) :
    Holds (some (cacheText cache)) cache := by
  refine ⟨storedCache cache, cacheLoad_cacheText hc, rfl, ?_⟩
  simp [storedCache, Function.comp_def, storedTrigger_idem]

/-- The cache file has a list for the day. -/
def ValidFor (file : Option CString) (now : LocalTime) : Prop :=
  ∃ cache, cacheLoad file true = some cache ∧ cache.date.text = now.today

theorem cacheLoad_closed (file : Option CString) : cacheLoad file false = none := by
  cases file <;> rfl

theorem cacheLoad_open {file : Option CString} {works : Bool} {cache : PrayerCache}
    (h : cacheLoad file works = some cache) : cacheLoad file true = some cache := by
  cases works with
  | true => exact h
  | false =>
      rw [cacheLoad_closed] at h
      cases h

/-- The list is the one in the cache file, or it is built anew. -/
theorem dayList_cases (H : Host) (cfg : Config) (now : LocalTime) (refreshed : Bool)
    (file : Option CString) (readable : Bool) :
    (refreshed = false ∧ (dayList H cfg now refreshed file readable).date.text = now.today ∧
      cacheLoad file true = some (dayList H cfg now refreshed file readable)) ∨
    (refreshed = true ∨ readable = false ∨ ¬ValidFor file now) ∧
      (dayList H cfg now refreshed file readable).date.text = now.today ∧
      (dayList H cfg now refreshed file readable).triggers.items =
        (builtTriggers H cfg now.day now.currentMin).filter fun t =>
          !refreshed || now.currentMin ≤ t.minute := by
  unfold dayList
  split
  · rename_i hload
    refine Or.inr ⟨?_, rebuild_eq _ _ _ _⟩
    cases refreshed with
    | true => exact Or.inl rfl
    | false =>
        cases readable with
        | false => exact Or.inr (Or.inl rfl)
        | true =>
            refine Or.inr (Or.inr fun h => ?_)
            obtain ⟨cache, hc, -⟩ := h
            simp [hc] at hload
  · rename_i cache hload
    obtain rfl : refreshed = false := by
      cases refreshed
      · rfl
      · simp at hload
    obtain rfl : readable = true := by
      cases readable
      · simp [cacheLoad_closed] at hload
      · rfl
    rw [if_neg (by simp)] at hload
    split_ifs with hday
    · exact Or.inl ⟨rfl, hday, hload⟩
    · refine Or.inr ⟨Or.inr (Or.inr fun h => ?_), rebuild_eq _ _ _ _⟩
      obtain ⟨other, ho, hd⟩ := h
      obtain rfl := Option.some.inj (hload.symm.trans ho)
      exact hday hd

/-- A cache file that is not read does not matter. -/
theorem dayList_unread (H : Host) (cfg : Config) (now : LocalTime) (refreshed : Bool)
    (file : Option CString) : (dayList H cfg now refreshed file false).triggers.items =
      (builtTriggers H cfg now.day now.currentMin).filter fun t =>
        !refreshed || now.currentMin ≤ t.minute := by
  have hnone : (if refreshed = true then none else cacheLoad file false) = none := by
    simp [cacheLoad_closed]
  rw [dayList, hnone]
  exact (rebuild_eq _ _ _ _).2

theorem dayList_today (H : Host) (cfg : Config) (now : LocalTime) (refreshed : Bool)
    (file : Option CString) (readable : Bool) :
    (dayList H cfg now refreshed file readable).date.text = now.today := by
  rcases dayList_cases H cfg now refreshed file readable with h | h
  · exact h.2.1
  · exact h.2.1

theorem dayList_inRange (hcfg : cfg.InRange) (now : LocalTime) (refreshed : Bool)
    (file : Option CString) (readable : Bool) :
    CacheInRange (dayList H cfg now refreshed file readable) := by
  rcases dayList_cases H cfg now refreshed file readable with ⟨-, -, h⟩ | ⟨-, -, h⟩
  · exact cacheLoad_inRange h
  · intro t ht
    rw [h] at ht
    exact builtTriggers_inRange hcfg (List.mem_of_mem_filter ht)

end Lists

section Locating

/-- The settings after a refresh, if one is tried, and whether it found a location. -/
def refreshOf (cfg : Config) (nowEpoch retryAt : ℤ) (lookups : Lookups) : Config × Bool :=
  if locationIsStale cfg nowEpoch && retryAt ≤ nowEpoch then
    match muslimtifyDetectLocationWith cfg (locationDetect lookups cfg) with
    | none => (cfg, false)
    | some (found, _) => (found, true)
  else (cfg, false)

/-- The settings a cycle works under, and whether it has refreshed the location;
`none` for a cycle that gets no settings or no location. -/
def located (file : Option CString) (e : ℕ → Input) (nowEpoch retryAt : ℤ) :
    Option (Config × Bool) :=
  match configLoad file (e 0).works with
  | none => none
  | some cfg =>
      if configLocationNeedsDetect cfg then
        match muslimtifyDetectLocationWith cfg (locationDetect (e 1).lookups cfg) with
        | none => none
        | some (found, _) =>
            if (e 2).works then some (refreshOf found nowEpoch retryAt (e 3).lookups) else none
      else some (refreshOf cfg nowEpoch retryAt (e 1).lookups)

theorem refreshOf_inRange {cfg : Config} (h : cfg.InRange) (nowEpoch retryAt : ℤ)
    (lookups : Lookups) : (refreshOf cfg nowEpoch retryAt lookups).1.InRange := by
  unfold refreshOf
  split_ifs
  · split
    · exact h
    · exact muslimtifyDetectLocationWith_inRange ‹_› h
  · exact h

theorem refreshOf_prayers (cfg : Config) (nowEpoch retryAt : ℤ) (lookups : Lookups)
    (p : PrayerType) :
    prayerGetConfig (refreshOf cfg nowEpoch retryAt lookups).1 p = prayerGetConfig cfg p := by
  unfold refreshOf
  split_ifs
  · split
    · rfl
    · exact muslimtifyDetectLocationWith_prayers ‹_› p
  · rfl

theorem configLoad_open {file : Option CString} {works : Bool} {cfg : Config}
    (h : configLoad file works = some cfg) : configLoad file true = some cfg := by
  cases works with
  | true => exact h
  | false =>
      cases file with
      | none => exact h
      | some bytes => simp [configLoad] at h

/-- The settings come from the file, after a detection where it has no location. -/
theorem located_cases {file : Option CString} {e : ℕ → Input} {nowEpoch retryAt : ℤ}
    {cfg : Config} {refreshed : Bool} (h : located file e nowEpoch retryAt = some (cfg, refreshed)) :
    ∃ loaded, configLoad file (e 0).works = some loaded ∧
      (configLocationNeedsDetect loaded = false ∧
          refreshOf loaded nowEpoch retryAt (e 1).lookups = (cfg, refreshed) ∨
        configLocationNeedsDetect loaded = true ∧ (e 2).works = true ∧
          ∃ found detection, muslimtifyDetectLocationWith loaded
              (locationDetect (e 1).lookups loaded) = some (found, detection) ∧
            refreshOf found nowEpoch retryAt (e 3).lookups = (cfg, refreshed)) := by
  unfold located at h
  cases hload : configLoad file (e 0).works with
  | none => simp [hload] at h
  | some loaded =>
      refine ⟨loaded, rfl, ?_⟩
      simp only [hload] at h
      cases hneeds : configLocationNeedsDetect loaded with
      | false =>
          simp only [hneeds, Bool.false_eq_true, if_false] at h
          exact Or.inl ⟨rfl, Option.some.inj h⟩
      | true =>
          simp only [hneeds, if_true] at h
          cases hdetect : muslimtifyDetectLocationWith loaded
              (locationDetect (e 1).lookups loaded) with
          | none => simp [hdetect] at h
          | some found =>
              simp only [hdetect] at h
              cases hworks : (e 2).works with
              | false => simp [hworks] at h
              | true =>
                  rw [hworks, if_pos rfl] at h
                  exact Or.inr ⟨rfl, rfl, found.1, found.2, rfl, Option.some.inj h⟩

theorem located_inRange {file : Option CString} {e : ℕ → Input} {nowEpoch retryAt : ℤ}
    {cfg : Config} {refreshed : Bool} (h : located file e nowEpoch retryAt = some (cfg, refreshed)) :
    cfg.InRange := by
  obtain ⟨loaded, hload, h⟩ := located_cases h
  have hrange := configLoad_inRange (configLoad_open hload)
  rcases h with ⟨-, hfound⟩ | ⟨-, -, found, detection, hdetect, hfound⟩
  · have := refreshOf_inRange hrange nowEpoch retryAt (e 1).lookups
    rwa [hfound] at this
  · have := refreshOf_inRange (muslimtifyDetectLocationWith_inRange hdetect hrange) nowEpoch
      retryAt (e 3).lookups
    rwa [hfound] at this

/-- The first half of a cycle: its error, or what the second half starts with. -/
def locate (nowEpoch retryAt : ℤ) :
    CycleProgram (CycleResult ⊕ (Config × MuslimtifyCycle × ℤ)) := do
  match ← loadConfig with
  | none => return .inl ⟨.configLoad, .zero, retryAt⟩
  | some cfg =>
      let (err, cfg, cycle) ← firstDetection cfg .zero
      if err = .ok then
        let settled ← refreshLocation cfg cycle nowEpoch retryAt
        return .inr settled
      else return .inl ⟨err, cycle, retryAt⟩

/-- Settling the location reads and writes the settings and looks the location up. -/
theorem locate_uses {P : Op → Prop} (hload : P .loadConfig) (hdetect : ∀ cfg, P (.detect cfg))
    (hsave : ∀ cfg, P (.saveConfig cfg)) (nowEpoch retryAt : ℤ) :
    (locate nowEpoch retryAt).Uses P := by
  have hinto : ∀ cfg, (detectInto cfg).Uses P := fun cfg => ⟨hdetect cfg, fun _ => trivial⟩
  have hfirst : ∀ cfg cycle, (firstDetection cfg cycle).Uses P := by
    intro cfg cycle
    unfold firstDetection
    split
    · refine Uses.bind (hinto cfg) fun detected => ?_
      match detected with
      | none => trivial
      | some found =>
          refine ⟨hsave _, fun saved => ?_⟩
          cases saved <;> trivial
    · trivial
  have hrefresh : ∀ cfg cycle, (refreshLocation cfg cycle nowEpoch retryAt).Uses P := by
    intro cfg cycle
    unfold refreshLocation
    split
    · refine Uses.bind (hinto cfg) fun detected => ?_
      match detected with
      | none => trivial
      | some found =>
          refine ⟨hsave _, fun saved => ?_⟩
          cases saved <;> trivial
    · trivial
  unfold locate
  refine Uses.bind (p := loadConfig) ⟨hload, fun _ => trivial⟩ fun loaded => ?_
  match loaded with
  | none => trivial
  | some cfg =>
      refine Uses.bind (hfirst cfg _) fun r => ?_
      dsimp only
      split
      · exact Uses.bind (hrefresh _ _) fun _ => trivial
      · trivial

section Rules
variable {I S ι κ : Type} {perform : (op : Op) → I → S → Answer op × S} {mine : ι → S → Prop}
variable {theirs : κ → S → Prop} {known found : Config → ι} {cfg : Config}

/-- Either detection goes from an assertion about the settings to the same about those it
leaves, when a lookup and a write of what it found do. -/
theorem firstDetection_triple (hinto : Triple perform mine theirs (mine (known cfg))
      (detectInto cfg) fun detected => mine (detected.elim (known cfg) fun r => found r.1))
    (hsave : ∀ cfg, Triple perform mine theirs (mine (found cfg)) (saveConfig cfg)
      fun _ => mine (known cfg)) (cycle : MuslimtifyCycle) :
    Triple perform mine theirs (mine (known cfg)) (firstDetection cfg cycle)
      fun r => mine (known r.2.1) := by
  unfold firstDetection
  split
  · refine Triple.bind hinto fun detected => ?_
    match detected with
    | none => exact Triple.done (known cfg) fun _ hs => hs
    | some (cfg', detection) =>
        refine Triple.bind (hsave cfg') fun saved => ?_
        cases saved
        · exact Triple.done (known cfg') fun _ hs => hs
        · exact Triple.done (known cfg') fun _ hs => hs
  · exact Triple.done (known cfg) fun _ hs => hs

theorem refreshLocation_triple (hinto : Triple perform mine theirs (mine (known cfg))
      (detectInto cfg) fun detected => mine (detected.elim (known cfg) fun r => found r.1))
    (hsave : ∀ cfg, Triple perform mine theirs (mine (found cfg)) (saveConfig cfg)
      fun _ => mine (known cfg)) (cycle : MuslimtifyCycle) (nowEpoch retryAt : ℤ) :
    Triple perform mine theirs (mine (known cfg)) (refreshLocation cfg cycle nowEpoch retryAt)
      fun r => mine (known r.1) := by
  unfold refreshLocation
  split
  · refine Triple.bind hinto fun detected => ?_
    match detected with
    | none => exact Triple.done (known cfg) fun _ hs => hs
    | some (cfg', detection) =>
        refine Triple.bind (hsave cfg') fun saved => ?_
        cases saved
        · exact Triple.done (known cfg') fun _ hs => hs
        · exact Triple.done (known cfg') fun _ hs => hs
  · exact Triple.done (known cfg) fun _ hs => hs

end Rules

theorem muslimtifyRunCycleAt_eq (H : Host) (now : LocalTime) (nowEpoch retryAt : ℤ) :
    muslimtifyRunCycleAt H now nowEpoch retryAt = (do
      match ← locate nowEpoch retryAt with
      | .inl result => return result
      | .inr (cfg, cycle, retryAt) => announceDue H cfg cycle now retryAt) := by
  simp only [muslimtifyRunCycleAt, locate, bind_assoc]
  refine congrArg _ (funext fun loaded => ?_)
  cases loaded with
  | none => rfl
  | some cfg =>
      simp only [bind_assoc]
      refine congrArg _ (funext fun detected => ?_)
      obtain ⟨err, cfg, cycle⟩ := detected
      dsimp only
      split_ifs <;> simp

end Locating

section Outcomes
variable {H : Host} {party : Side} {cfg : Config} {e : ℕ → Input} {w : World}

/-- The first stage: the list, and whether it is in the file. -/
structure Lists (H : Host) (cfg : Config) (now : LocalTime) (refreshed : Bool)
    (before after : World) (list : PrayerCache) (writeFailed : Bool) : Prop where
  origin : ∃ readable, list = dayList H cfg now refreshed before.disk.cache readable ∧
    (readable = false → Failed isCacheRead after.trace) ∧
      (Failed isCacheRead after.trace → readable = false ∨ Failed isCacheRead before.trace)
  config : after.disk.config = before.disk.config
  stored : storedConfigs after.trace = storedConfigs before.trace
  quiet : notices after.trace = notices before.trace
  written : writeFailed = false → after.disk.cache = some (cacheText list) ∨
    after.disk.cache = before.disk.cache ∧ cacheLoad before.disk.cache true = some list
  unwritten : writeFailed = true →
    after.disk.cache = before.disk.cache ∧ Failed isCacheWrite after.trace
  wrote : storedLists after.trace = storedLists before.trace ∨
    after.disk.cache = some (cacheText list)

/-- A list that is built is written. -/
theorem Lists.built {before w : World} {now : LocalTime} {refreshed : Bool} {list : PrayerCache}
    (i : Input) (hdisk : w.disk = before.disk)
    (hs : storedConfigs w.trace = storedConfigs before.trace)
    (hn : notices w.trace = notices before.trace)
    (hl : storedLists w.trace = storedLists before.trace)
    (hlist : ∃ readable, list = dayList H cfg now refreshed before.disk.cache readable ∧
      (readable = false → Failed isCacheRead w.trace) ∧
        (Failed isCacheRead w.trace → readable = false ∨ Failed isCacheRead before.trace)) :
    Lists H cfg now refreshed before (act party (.saveCache list) i w).2 list (!i.works) := by
  obtain ⟨readable, hlist, hread, hunread⟩ := hlist
  refine
    { origin := ⟨readable, hlist, fun h => (hread h).append, fun h => hunread (h.of_act rfl)⟩
      config := ?_
      stored := by simp [hs]
      quiet := by simp [hn]
      written := fun h => Or.inl ?_
      unwritten := fun h => ⟨?_, failed_last rfl (by simpa using h)⟩
      wrote := ?_ }
  · simp only [act, effect]
    split_ifs <;> simp [hdisk]
  · simp only [Bool.not_eq_false'] at h
    simp [act, effect, h]
  · simp only [Bool.not_eq_true'] at h
    simp [act, effect, h, hdisk]
  · cases hworks : i.works with
    | true => exact Or.inr (by simp [act, effect, hworks])
    | false => exact Or.inl (by rw [storedLists_failed hworks, hl])

variable (H party cfg e w) in
theorem todaysCache_run (now : LocalTime) (refreshed : Bool) :
    let o := run (act party) (todaysCache H cfg now refreshed) e w
    Lists H cfg now refreshed w o.state o.value.1 o.value.2 := by
  cases refreshed with
  | true =>
      simp only [todaysCache, if_true, pure_eq, done_bind, Option.getD_none, Bool.false_eq_true,
        if_false, saveCache, step_bind, run_step, run_done]
      exact Lists.built (e 0) rfl rfl rfl rfl ⟨true, rfl, by simp, Or.inr⟩
  | false =>
      have hs : storedConfigs (act party .loadCache (e 0) w).2.trace = storedConfigs w.trace := by
        simp
      have hn : notices (act party .loadCache (e 0) w).2.trace = notices w.trace := by simp
      have hl : storedLists (act party .loadCache (e 0) w).2.trace = storedLists w.trace :=
        storedLists_act rfl party (e 0) w
      have hread : (e 0).works = false →
          Failed isCacheRead (act party .loadCache (e 0) w).2.trace := fun h => failed_last rfl h
      have hunread : Failed isCacheRead (act party .loadCache (e 0) w).2.trace →
          (e 0).works = false ∨ Failed isCacheRead w.trace := by
        intro ⟨ev, hev, hk, hfail⟩
        rcases List.mem_append.mp hev with hev | hev
        · exact Or.inr ⟨ev, hev, hk, hfail⟩
        · rw [List.mem_singleton.mp hev] at hfail
          exact Or.inl hfail
      have hanswer : (act party .loadCache (e 0) w).1 = cacheLoad w.disk.cache (e 0).works := rfl
      simp only [todaysCache, Bool.false_eq_true, if_false, loadCache, step_bind, done_bind,
        run_step, hanswer]
      cases hload : cacheLoad w.disk.cache (e 0).works with
      | none =>
          simp only [Option.getD_none, Bool.false_eq_true, if_false, saveCache, step_bind,
            done_bind, run_step, pure_eq, run_done]
          exact Lists.built (e 1) rfl hs hn hl ⟨(e 0).works, by simp [dayList, hload], hread, hunread⟩
      | some cache =>
          have hopen := cacheLoad_open hload
          by_cases hday : cache.date.text = now.today
          · simp only [cacheIsValidForToday, hday, decide_true, if_true, pure_eq, run_done,
              Option.getD_some]
            exact
              { origin := ⟨(e 0).works, by simp [dayList, hload, hday], hread, hunread⟩
                config := rfl
                stored := hs
                quiet := hn
                written := fun _ => Or.inr ⟨rfl, hopen⟩
                unwritten := by simp
                wrote := Or.inl hl }
          · simp only [cacheIsValidForToday, hday, decide_false, Bool.false_eq_true, if_false,
              Option.getD_some, saveCache, step_bind, done_bind, run_step, pure_eq, run_done]
            exact Lists.built (e 1) rfl hs hn hl
              ⟨(e 0).works, by simp [dayList, hload, hday], hread, hunread⟩

/-- Getting the list reads the cache file and writes it. -/
theorem todaysCache_uses {P : Op → Prop} (hload : P .loadCache) (hsave : ∀ list, P (.saveCache list))
    (H : Host) (cfg : Config) (now : LocalTime) (refreshed : Bool) :
    (todaysCache H cfg now refreshed).Uses P := by
  have hlist : ∀ (refreshed : Bool) (loaded : Option PrayerCache), Uses P (do
      let valid := match loaded with
        | none => false
        | some cache => cacheIsValidForToday cache.date.text cache.triggers.items.length now.today
      let cache := loaded.getD .zero
      if valid then return (cache, false)
      else
        let cache := rebuild H cache cfg now refreshed
        let saved ← saveCache cache
        return (cache, !saved) : CycleProgram (PrayerCache × Bool)) := by
    intro refreshed loaded
    dsimp only
    split_ifs
    · trivial
    · exact ⟨hsave _, fun _ => trivial⟩
  unfold todaysCache
  cases refreshed with
  | true => exact hlist true none
  | false => exact ⟨hload, hlist false⟩

variable (party cfg e w) in
theorem announceAll_run (m : ℤ) (ts : List CacheTrigger) :
    let o := run (act party) (announceAll cfg m ts) e w
    o.state.disk = w.disk ∧ storedConfigs o.state.trace = storedConfigs w.trace ∧
      notices o.state.trace = notices w.trace ++ ts.map fun t => (t, announcement cfg m t) := by
  induction ts generalizing e w with
  | nil => simp [announceAll]
  | cons t ts ih =>
      obtain ⟨h₁, h₂, h₃⟩ := ih (fun n => e (n + 1))
        (act party (.notify t (announcement cfg m t)) (e 0) w).2
      simp only [announceAll, notify, step_bind, done_bind, run_step]
      refine ⟨h₁.trans rfl, h₂.trans ?_, h₃.trans ?_⟩
      · simp [act, storedConfigs]
      · simp [act, notices]

/-- Announcing only starts notifications and sends them. -/
theorem announcing_uses {P : Op → Prop} (hstart : P .notifyInit)
    (hnotify : ∀ t call, P (.notify t call)) (cfg : Config) (m : ℤ) (f : Firing) :
    (announcing cfg m f).Uses P := by
  have hall : ∀ ts, (announceAll cfg m ts).Uses P := by
    intro ts
    induction ts with
    | nil => trivial
    | cons t ts ih => exact ⟨hnotify _ _, fun _ => ih⟩
  have hafter : Uses P (do
      announceAll cfg m (due m f.cache)
      return some (settled m f) : CycleProgram (Option Firing)) :=
    Uses.bind (hall _) fun _ => trivial
  unfold announcing
  split
  · exact hafter
  · refine Uses.bind (p := notifyInit) ⟨hstart, fun _ => trivial⟩ fun started => ?_
    cases started with
    | true => exact hafter
    | false => trivial

variable (party cfg e w) in
/-- The second stage: everything due is announced, or notifications do not start
and nothing is. -/
theorem announcing_run (m : ℤ) (f : Firing) :
    let o := run (act party) (announcing cfg m f) e w
    o.state.disk = w.disk ∧ storedConfigs o.state.trace = storedConfigs w.trace ∧
      (o.value = some (settled m f) ∧ notices o.state.trace =
          notices w.trace ++ (due m f.cache).map (fun t => (t, announcement cfg m t)) ∨
        o.value = none ∧ notices o.state.trace = notices w.trace ∧
          Failed isStart o.state.trace) := by
  cases hstart : f.notified || (due m f.cache).isEmpty with
  | true =>
      have h := announceAll_run party cfg e w m (due m f.cache)
      simp only [announcing, hstart, if_true, run_bind, pure_eq, run_done]
      exact ⟨h.1, h.2.1, Or.inl ⟨trivial, h.2.2⟩⟩
  | false =>
      have hs : storedConfigs (act party .notifyInit (e 0) w).2.trace = storedConfigs w.trace := by
        simp
      have hn : notices (act party .notifyInit (e 0) w).2.trace = notices w.trace := by simp
      have hanswer : (act party .notifyInit (e 0) w).1 = (e 0).works := rfl
      simp only [announcing, hstart, notifyInit, if_false, Bool.false_eq_true, step_bind, done_bind,
        run_step, hanswer]
      cases hworks : (e 0).works with
      | true =>
          have h := announceAll_run party cfg (fun n => e (n + 1))
            (act party .notifyInit (e 0) w).2 m (due m f.cache)
          simp only [if_true, run_bind, pure_eq, run_done]
          exact ⟨h.1, h.2.1.trans hs, Or.inl ⟨trivial, h.2.2.trans (by rw [hn])⟩⟩
      | false =>
          simp only [Bool.false_eq_true, if_false, pure_eq, run_done]
          exact ⟨rfl, hs, Or.inr ⟨trivial, hn, failed_last rfl hworks⟩⟩

/-- The last stage: what had to be written back is in the file, or a write failed,
or the file was gone. -/
structure WrittenBack (f : Firing) (writeFailed : Bool) (before after : World) (failed : Bool) :
    Prop where
  config : after.disk.config = before.disk.config
  stored : storedConfigs after.trace = storedConfigs before.trace
  quiet : notices after.trace = notices before.trace
  cache : after.disk.cache = before.disk.cache ∧ failed = writeFailed ∧
        (f.dirty = false ∨ before.disk.cache = none) ∨
      f.dirty = true ∧ after.disk.cache = some (cacheText f.cache) ∧ failed = false ∨
      after.disk.cache = before.disk.cache ∧ failed = true ∧ Failed isCacheWrite after.trace
  wrote : storedLists after.trace = storedLists before.trace ∨
    after.disk.cache = some (cacheText f.cache)

theorem writeBack_dirty (f : Firing) (writeFailed : Bool) (w₁ : World) (hdisk : w₁.disk = w.disk)
    (hs : storedConfigs w₁.trace = storedConfigs w.trace) (hn : notices w₁.trace = notices w.trace)
    (hl : storedLists w₁.trace = storedLists w.trace) :
    let o := run (act party) (do
      if f.dirty then
        if ← cacheExists then
          let saved ← saveCache f.cache
          return !saved
        else return writeFailed
      else return writeFailed) e w₁
    WrittenBack f writeFailed w o.state o.value := by
  cases hd : f.dirty with
  | false =>
      exact ⟨by simp [hdisk], by simp [hs], by simp [hn], Or.inl (by simp [hdisk, hd]), Or.inl hl⟩
  | true =>
      have hthere : (act party .cacheExists (e 0) w₁).1 = w.disk.cache.isSome := by
        simp [act, answer, hdisk]
      have hafter : (act party .cacheExists (e 0) w₁).2.disk = w.disk := hdisk
      have hl : storedLists (act party .cacheExists (e 0) w₁).2.trace = storedLists w.trace :=
        (storedLists_act rfl party (e 0) w₁).trans hl
      simp only [if_true, cacheExists, step_bind, done_bind, run_step, hthere]
      cases hcache : w.disk.cache with
      | none =>
          exact ⟨by simp [hafter], by simp [hs], by simp [hn], Or.inl (by simp [hafter, hcache]),
            Or.inl hl⟩
      | some bytes =>
          simp only [Option.isSome_some, if_true, saveCache, step_bind, done_bind, run_step,
            pure_eq, run_done]
          refine ⟨?_, by simp [hs], by simp [hn], Or.inr ?_, ?_⟩
          · simp only [act, effect]
            split_ifs <;> simp [hdisk]
          · cases hworks : (e 1).works with
            | true => exact Or.inl ⟨hd, by simp [act, effect, hworks], by simp [act, answer, hworks]⟩
            | false =>
                exact Or.inr ⟨by simp [act, effect, hworks, hdisk],
                  by simp [act, answer, hworks], failed_last rfl hworks⟩
          · cases hworks : (e 1).works with
            | true => exact Or.inr (by simp [act, effect, hworks])
            | false => exact Or.inl (by rw [storedLists_failed hworks, hl])

theorem writeBack_uses {P : Op → Prop} (hexists : P .cacheExists)
    (hsave : ∀ list, P (.saveCache list)) (hcleanup : P .notifyCleanup) (f : Firing)
    (writeFailed : Bool) : (writeBack f writeFailed).Uses P := by
  have hback : Uses P (do
      if f.dirty then
        if ← cacheExists then
          let saved ← saveCache f.cache
          return !saved
        else return writeFailed
      else return writeFailed : CycleProgram Bool) := by
    split
    · refine ⟨hexists, fun there => ?_⟩
      cases there with
      | true => exact ⟨hsave _, fun _ => trivial⟩
      | false => trivial
    · trivial
  cases hn : f.notified with
  | false =>
      simp only [writeBack, hn]
      exact hback
  | true =>
      simp only [writeBack, hn]
      exact ⟨hcleanup, fun _ => hback⟩

variable (party e w) in
theorem writeBack_run (f : Firing) (writeFailed : Bool) :
    let o := run (act party) (writeBack f writeFailed) e w
    WrittenBack f writeFailed w o.state o.value := by
  cases hn : f.notified with
  | false =>
      simp only [writeBack, hn]
      exact writeBack_dirty f writeFailed w rfl rfl rfl rfl
  | true =>
      simp only [writeBack, hn]
      exact writeBack_dirty f writeFailed (act party .notifyCleanup (e 0) w).2 rfl (by simp)
        (by simp) (storedLists_act rfl party (e 0) w)

theorem keepAhead_inRange {m : ℤ} {cache : PrayerCache} (h : CacheInRange cache) :
    CacheInRange (keepAhead m cache) := fun t ht => h t (List.mem_of_mem_filter ht)

theorem settled_dirty {m : ℤ} {f : Firing} (h : (settled m f).dirty = false) :
    keepAhead m f.cache = f.cache := by
  simp only [settled, Bool.or_eq_false_iff, List.any_eq_false] at h
  exact keepAhead_of_ahead fun t ht => by simpa using h.2 t ht

/-- What a cycle comes to that works with `list`. -/
structure Announces (now : LocalTime) (cfg : Config) (before after : World) (list : PrayerCache)
    (error : MuslimtifyError) : Prop where
  outcome :
    error = .ok ∧
        notices after.trace = notices before.trace ++
          (due now.currentMin list).map (fun t => (t, announcement cfg now.currentMin t)) ∧
        Holds after.disk.cache (keepAhead now.currentMin list) ∨
      error = .cacheSave ∧
        notices after.trace = notices before.trace ++
          (due now.currentMin list).map (fun t => (t, announcement cfg now.currentMin t)) ∧
        Failed isCacheWrite after.trace ∨
      error = .notifyInit ∧ notices after.trace = notices before.trace ∧
        Failed isStart after.trace
  cache :
    after.disk.cache = before.disk.cache ∧
        (cacheLoad before.disk.cache true = some list ∨ Failed isCacheWrite after.trace) ∨
      after.disk.cache = some (cacheText list) ∨
      after.disk.cache = some (cacheText (keepAhead now.currentMin list))
  wrote : storedLists after.trace = storedLists before.trace ∨
    after.disk.cache = some (cacheText list) ∨
      after.disk.cache = some (cacheText (keepAhead now.currentMin list))

/-- Where the list was written the file holds it, or held it already. -/
theorem Lists.holds {now : LocalTime} {refreshed : Bool} {before after : World}
    {list : PrayerCache} (h : Lists H cfg now refreshed before after list false)
    (hrange : CacheInRange list) : Holds after.disk.cache list := by
  rcases h.written rfl with hc | ⟨hc, hload⟩
  · rw [hc]
    exact holds_text hrange
  · rw [hc]
    exact ⟨list, hload, rfl, rfl⟩

/-- The file as the first stage left it, while nothing more is written to it. -/
theorem Lists.left {now : LocalTime} {refreshed writeFailed : Bool} {before w₁ after : World}
    {list : PrayerCache} (h : Lists H cfg now refreshed before w₁ list writeFailed)
    (hcache : after.disk.cache = w₁.disk.cache)
    (hfail : Failed isCacheWrite w₁.trace → Failed isCacheWrite after.trace) :
    after.disk.cache = before.disk.cache ∧
        (cacheLoad before.disk.cache true = some list ∨ Failed isCacheWrite after.trace) ∨
      after.disk.cache = some (cacheText list) := by
  cases writeFailed with
  | true =>
      obtain ⟨hc, hw⟩ := h.unwritten rfl
      exact Or.inl ⟨hcache.trans hc, Or.inr (hfail hw)⟩
  | false =>
      rcases h.written rfl with hc | ⟨hc, hload⟩
      · exact Or.inr (hcache.trans hc)
      · exact Or.inl ⟨hcache.trans hc, Or.inl hload⟩

/-- A cycle that cannot start to notify. -/
theorem Lists.unstarted {now : LocalTime} {refreshed writeFailed : Bool} {before w₁ after : World}
    {list : PrayerCache} (h : Lists H cfg now refreshed before w₁ list writeFailed)
    (hdisk : after.disk = w₁.disk) (hlists : storedLists after.trace = storedLists w₁.trace)
    (hquiet : notices after.trace = notices w₁.trace) (hstart : Failed isStart after.trace)
    (hfail : Failed isCacheWrite w₁.trace → Failed isCacheWrite after.trace) :
    Announces now cfg before after list .notifyInit where
  outcome := Or.inr (Or.inr ⟨rfl, hquiet.trans h.quiet, hstart⟩)
  cache := (h.left (congrArg Disk.cache hdisk) hfail).imp_right Or.inl
  wrote := by
    rcases h.wrote with hsame | hc
    · exact Or.inl (hlists.trans hsame)
    · exact Or.inr (Or.inl (by rw [hdisk, hc]))

/-- The list, the announcements and the end of the cycle, put together. -/
theorem Lists.announces {now : LocalTime} {refreshed writeFailed failed : Bool}
    {before w₁ w₂ after : World} {list : PrayerCache} {n : ℤ}
    (h : Lists H cfg now refreshed before w₁ list writeFailed) (hrange : CacheInRange list)
    (hdisk : w₂.disk = w₁.disk) (hlists : storedLists w₂.trace = storedLists w₁.trace)
    (hsaid : notices w₂.trace = notices w₁.trace ++
      (due now.currentMin list).map fun t => (t, announcement cfg now.currentMin t))
    (hback : WrittenBack (settled now.currentMin ⟨list, false, false, n⟩) writeFailed w₂ after
      failed)
    (hfail : Failed isCacheWrite w₁.trace → Failed isCacheWrite after.trace) :
    Announces now cfg before after list (if failed then .cacheSave else .ok) := by
  have hnotices : notices after.trace = notices before.trace ++
      (due now.currentMin list).map fun t => (t, announcement cfg now.currentMin t) := by
    rw [hback.quiet, hsaid, h.quiet]
  have hunwritten := fun hw : writeFailed = true => (h.unwritten hw).imp_right hfail
  have hleft := fun hcache : after.disk.cache = w₂.disk.cache =>
    (h.left (hcache.trans (congrArg Disk.cache hdisk)) hfail).imp_right
      (Or.inl (b := after.disk.cache = some (cacheText (keepAhead now.currentMin list))))
  have hwrote : storedLists after.trace = storedLists before.trace ∨
      after.disk.cache = some (cacheText list) ∨
        after.disk.cache = some (cacheText (keepAhead now.currentMin list)) := by
    rcases hback.wrote with hsame | hcache
    · rcases h.wrote with hsame' | hfirst
      · exact Or.inl (by rw [hsame, hlists, hsame'])
      · rcases hback.cache with ⟨hcache, -⟩ | ⟨-, hcache, -⟩ | ⟨hcache, -⟩
        · exact Or.inr (Or.inl (by rw [hcache, hdisk, hfirst]))
        · exact Or.inr (Or.inr hcache)
        · exact Or.inr (Or.inl (by rw [hcache, hdisk, hfirst]))
    · exact Or.inr (Or.inr hcache)
  rcases hback.cache with ⟨hcache, rfl, hclean⟩ | ⟨-, hcache, rfl⟩ | ⟨hcache, rfl, hf⟩
  · refine ⟨?_, hleft hcache, hwrote⟩
    cases failed with
    | true => exact Or.inr (Or.inl ⟨rfl, hnotices, (hunwritten rfl).2⟩)
    | false =>
        have hheld := h.holds hrange
        rw [hcache, hdisk]
        refine Or.inl ⟨rfl, hnotices, ?_⟩
        rcases hclean with hclean | hgone
        · rwa [settled_dirty hclean]
        · obtain ⟨c, hc, -⟩ := hheld
          rw [← hdisk, hgone] at hc
          cases hc
  · refine ⟨Or.inl ⟨rfl, hnotices, ?_⟩, Or.inr (Or.inr hcache), hwrote⟩
    rw [hcache]
    exact holds_text (keepAhead_inRange hrange)
  · exact ⟨Or.inr (Or.inl ⟨rfl, hnotices, hf⟩), hleft hcache, hwrote⟩

variable (H party e w) in
/-- The second half of a cycle. -/
theorem announceDue_run (hcfg : cfg.InRange) (cycle : MuslimtifyCycle) (now : LocalTime)
    (retryAt : ℤ) :
    let o := run (act party) (announceDue H cfg cycle now retryAt) e w
    (∃ list readable, list = dayList H cfg now cycle.refreshed w.disk.cache readable ∧
        (readable = false → Failed isCacheRead o.state.trace) ∧
        (Failed isCacheRead o.state.trace → readable = false ∨ Failed isCacheRead w.trace) ∧
        Announces now cfg w o.state list o.value.error) ∧
      o.state.disk.config = w.disk.config ∧
      storedConfigs o.state.trace = storedConfigs w.trace ∧
      o.value.cycle.refreshed = cycle.refreshed ∧ o.value.retryAt = retryAt := by
  have hlists := todaysCache_run H party cfg e w now cycle.refreshed
  simp only [announceDue, run_bind]
  generalize run (act party) (todaysCache H cfg now cycle.refreshed) e w = o₁ at hlists ⊢
  obtain ⟨⟨list, writeFailed⟩, e₁, w₁⟩ := o₁
  simp only at hlists ⊢
  obtain ⟨readable, hlist, hread, hunread⟩ := hlists.origin
  have hrange : CacheInRange list := hlist ▸ dayList_inRange hcfg now cycle.refreshed _ readable
  rw [firingLoop_eq cfg (by simp) (by simp)]
  obtain ⟨hdisk₂, hstored₂, hnotices₂⟩ := announcing_run party cfg e₁ w₁ now.currentMin
    ⟨list, false, false, cycle.notifications⟩
  have hfailed₂ := fun kind (hf : Failed kind w₁.trace) => hf.run party
    (announcing cfg now.currentMin ⟨list, false, false, cycle.notifications⟩) e₁
  have hlists₂ := storedLists_run (announcing_uses (P := (isCacheWrite · = false)) rfl
    (fun _ _ => rfl) cfg now.currentMin ⟨list, false, false, cycle.notifications⟩) party e₁ w₁
  have hunread₂ := failed_of_run (announcing_uses (P := (isCacheRead · = false)) rfl
    (fun _ _ => rfl) cfg now.currentMin ⟨list, false, false, cycle.notifications⟩) party e₁ w₁
  generalize run (act party) (announcing cfg now.currentMin
    ⟨list, false, false, cycle.notifications⟩) e₁ w₁ = o₂
    at hdisk₂ hstored₂ hnotices₂ hfailed₂ hlists₂ hunread₂ ⊢
  obtain ⟨value₂, e₂, w₂⟩ := o₂
  simp only at hdisk₂ hstored₂ hnotices₂ hfailed₂ hlists₂ hunread₂ ⊢
  rcases hnotices₂ with ⟨rfl, hsaid⟩ | ⟨rfl, hquiet, hstart⟩
  · have hback := writeBack_run party e₂ w₂
      (settled now.currentMin ⟨list, false, false, cycle.notifications⟩) writeFailed
    have hfailed₃ := fun kind (hf : Failed kind w₂.trace) => hf.run party
      (writeBack (settled now.currentMin ⟨list, false, false, cycle.notifications⟩) writeFailed) e₂
    have hunread₃ := failed_of_run (writeBack_uses (P := (isCacheRead · = false)) rfl
      (fun _ => rfl) rfl (settled now.currentMin ⟨list, false, false, cycle.notifications⟩)
      writeFailed) party e₂ w₂
    simp only [run_bind]
    generalize run (act party) (writeBack (settled now.currentMin
      ⟨list, false, false, cycle.notifications⟩) writeFailed) e₂ w₂ = o₃
      at hback hfailed₃ hunread₃ ⊢
    obtain ⟨failed, e₃, w₃⟩ := o₃
    simp only [pure_eq, run_done] at hback hfailed₃ hunread₃ ⊢
    refine ⟨⟨list, readable, hlist, fun h => hfailed₃ _ (hfailed₂ _ (hread h)),
      fun h => hunread (hunread₂ (hunread₃ h)), ?_⟩, ?_, ?_, trivial, trivial⟩
    · exact hlists.announces hrange hdisk₂ hlists₂ hsaid hback fun h => hfailed₃ _ (hfailed₂ _ h)
    · rw [hback.config, hdisk₂, hlists.config]
    · rw [hback.stored, hstored₂, hlists.stored]
  · simp only [pure_eq, run_done]
    refine ⟨⟨list, readable, hlist, fun h => hfailed₂ _ (hread h),
      fun h => hunread (hunread₂ h), ?_⟩, ?_, ?_, trivial, trivial⟩
    · exact hlists.unstarted hdisk₂ hlists₂ hquiet hstart (hfailed₂ _)
    · rw [hdisk₂, hlists.config]
    · rw [hstored₂, hlists.stored]

/-- The settings in the file have no location. -/
def Unlocated (file : Option CString) : Prop :=
  ∃ cfg, configLoad file true = some cfg ∧ configLocationNeedsDetect cfg = true

/-- The settings a cycle works under are those in the file, unless it has refreshed
the location and could not store it. -/
def Stored (before after : World) (cfg : Config) (refreshed : Bool) : Prop :=
  after.disk.config = before.disk.config ∧
      storedConfigs after.trace = storedConfigs before.trace ∧
      configLoad before.disk.config true = some cfg ∧ refreshed = false ∨
    after.disk.config = some (configText cfg) ∧
      (refreshed = true ∨ Unlocated before.disk.config) ∨
    refreshed = true ∧ Failed isConfigWrite after.trace

variable (party cfg e w) in
theorem refreshLocation_run (cycle : MuslimtifyCycle) (hcycle : cycle.refreshed = false)
    (nowEpoch retryAt : ℤ) :
    let o := run (act party) (refreshLocation cfg cycle nowEpoch retryAt) e w
    (o.value.1, o.value.2.1.refreshed) = refreshOf cfg nowEpoch retryAt (e 0).lookups ∧
      o.state.disk.cache = w.disk.cache ∧ notices o.state.trace = notices w.trace ∧
      (o.state.disk.config = w.disk.config ∧ storedConfigs o.state.trace = storedConfigs w.trace ∧
          o.value.1 = cfg ∧ o.value.2.1.refreshed = false ∨
        o.value.2.1.refreshed = true ∧ (o.state.disk.config = some (configText o.value.1) ∨
          Failed isConfigWrite o.state.trace)) := by
  unfold refreshLocation refreshOf
  by_cases hstale : (locationIsStale cfg nowEpoch && decide (retryAt ≤ nowEpoch)) = true
  · simp only [hstale, if_true, detectInto, detect, step_bind, done_bind, pure_eq, run_step, act,
      answer, effect]
    cases hfound : muslimtifyDetectLocationWith cfg (locationDetect (e 0).lookups cfg) with
    | none => simp [hcycle, notices, storedConfigs]
    | some found =>
        obtain ⟨found, detection⟩ := found
        simp only [saveConfig, step_bind, done_bind, run_step]
        cases hworks : (e 1).works with
        | true =>
            simp [act, answer, effect, hworks, notices]
        | false =>
            simp only [act, answer, effect, hworks, Bool.false_eq_true, if_false, run_done]
            exact ⟨trivial, trivial, by simp [notices], Or.inr ⟨trivial,
              Or.inr (failed_last rfl hworks)⟩⟩
  · simp [hstale, hcycle]

variable (party e w) in
/-- The first detection is not needed, or it fails and changes nothing, or the location it has
found is stored. -/
theorem firstDetection_run (cfg : Config) :
    let found := muslimtifyDetectLocationWith cfg (locationDetect (e 0).lookups cfg)
    let o := run (act party) (firstDetection cfg .zero) e w
    configLocationNeedsDetect cfg = false ∧ o = ⟨(.ok, cfg, .zero), e, w⟩ ∨
      configLocationNeedsDetect cfg = true ∧ notices o.state.trace = notices w.trace ∧
        ((found = none ∨ found.isSome = true ∧ (e 1).works = false) ∧ o.value.1 ≠ .ok ∧
            o.state.disk = w.disk ∧ storedConfigs o.state.trace = storedConfigs w.trace ∨
          ∃ cfg' cycle, found.map Prod.fst = some cfg' ∧ (e 1).works = true ∧
            o.value = (.ok, cfg', cycle) ∧ cycle.refreshed = false ∧
            o.inputs = (fun n => e (n + 2)) ∧ o.state.disk.cache = w.disk.cache ∧
            o.state.disk.config = some (configText cfg')) := by
  intro found o
  cases hneeds : configLocationNeedsDetect cfg with
  | false =>
      left
      exact ⟨rfl, by simp [o, firstDetection, hneeds, pure_eq, run_done]⟩
  | true =>
      refine Or.inr ⟨rfl, ?_⟩
      have hanswer : (act party (.detect cfg) (e 0) w).1 = locationDetect (e 0).lookups cfg := rfl
      have hdisk : (act party (.detect cfg) (e 0) w).2.disk = w.disk := rfl
      have hn : notices (act party (.detect cfg) (e 0) w).2.trace = notices w.trace := by simp
      have hs : storedConfigs (act party (.detect cfg) (e 0) w).2.trace =
          storedConfigs w.trace := by simp
      simp only [o, found, firstDetection, hneeds, if_true, detectInto, detect, step_bind,
        done_bind, pure_eq, run_step, hanswer]
      generalize (act party (.detect cfg) (e 0) w).2 = w₁ at hdisk hn hs ⊢
      cases hdetect : muslimtifyDetectLocationWith cfg (locationDetect (e 0).lookups cfg) with
      | none => exact ⟨hn, Or.inl ⟨Or.inl rfl, by simp, hdisk, hs⟩⟩
      | some f =>
          obtain ⟨cfg', detection⟩ := f
          have hsaved : (act party (.saveConfig cfg') (e 1) w₁).1 = (e 1).works := rfl
          have hn₂ : notices (act party (.saveConfig cfg') (e 1) w₁).2.trace =
              notices w.trace := by simp [hn]
          simp only [saveConfig, step_bind, done_bind, run_step, hsaved]
          cases hworks : (e 1).works with
          | false =>
              refine ⟨hn₂, Or.inl ⟨Or.inr ⟨rfl, rfl⟩, by simp, ?_, ?_⟩⟩
              · simp [act, effect, hworks, hdisk]
              · simp [storedConfigs_failed hworks, hs]
          | true =>
              refine ⟨hn₂, Or.inr ⟨cfg', _, rfl, rfl, rfl, rfl, rfl, ?_, ?_⟩⟩
              · simp [act, effect, hworks, hdisk]
              · simp [act, effect, hworks]

variable (party e w) in
/-- The first half of a cycle stops and changes nothing, or it settles the location. -/
theorem locate_run (nowEpoch retryAt : ℤ) :
    let o := run (act party) (locate nowEpoch retryAt) e w
    (∃ result, o.value = .inl result ∧ located w.disk.config e nowEpoch retryAt = none ∧
        result.error ≠ .ok ∧ o.state.disk = w.disk ∧ notices o.state.trace = notices w.trace ∧
        storedConfigs o.state.trace = storedConfigs w.trace) ∨
      ∃ cfg cycle again, o.value = .inr (cfg, cycle, again) ∧
        located w.disk.config e nowEpoch retryAt = some (cfg, cycle.refreshed) ∧
        o.state.disk.cache = w.disk.cache ∧ notices o.state.trace = notices w.trace ∧
        Stored w o.state cfg cycle.refreshed := by
  have hanswer : (act party .loadConfig (e 0) w).1 = configLoad w.disk.config (e 0).works := rfl
  have hdisk : (act party .loadConfig (e 0) w).2.disk = w.disk := rfl
  have hn : notices (act party .loadConfig (e 0) w).2.trace = notices w.trace := by simp
  have hs : storedConfigs (act party .loadConfig (e 0) w).2.trace = storedConfigs w.trace := by simp
  simp only [locate, loadConfig, step_bind, done_bind, run_step, hanswer, located]
  generalize (act party .loadConfig (e 0) w).2 = w₁ at hdisk hn hs ⊢
  cases hload : configLoad w.disk.config (e 0).works with
  | none => exact Or.inl ⟨_, rfl, rfl, by simp, hdisk, hn, hs⟩
  | some cfg =>
      have hopen := configLoad_open hload
      have hfirst := firstDetection_run party (fun n => e (n + 1)) w₁ cfg
      simp only [run_bind] at hfirst ⊢
      generalize run (act party) (firstDetection cfg .zero) (fun n => e (n + 1)) w₁ = o
        at hfirst ⊢
      obtain ⟨⟨err, cfg', cycle⟩, e', w₂⟩ := o
      rcases hfirst with ⟨hneeds, heq⟩ | ⟨hneeds, hn₂, ⟨hfound, herr, hdisk₂, hs₂⟩ |
        ⟨_, _, hfound, hworks, hvalue, hcycle, hinputs, hcache₂, hconfig₂⟩⟩
      · -- the settings have a location
        cases heq
        obtain ⟨hvalue, hcache, hquiet, hconfig⟩ := refreshLocation_run party cfg
          (fun n => e (n + 1)) w₁ .zero rfl nowEpoch retryAt
        simp only [hneeds, Bool.false_eq_true, if_false, if_true, run_bind, pure_eq, run_done]
        refine Or.inr ⟨_, _, _, rfl, congrArg some hvalue.symm, by rw [hcache, hdisk],
          hquiet.trans hn, ?_⟩
        rcases hconfig with ⟨hc, hst, heq, hr⟩ | ⟨hr, hc | hc⟩
        · exact Or.inl ⟨by rw [hc, hdisk], hst.trans hs, by rw [hopen, heq], hr⟩
        · exact Or.inr (Or.inl ⟨hc, Or.inl hr⟩)
        · exact Or.inr (Or.inr ⟨hr, hc⟩)
      · -- the location is needed and not stored
        simp only at herr hdisk₂ hn₂ hs₂
        simp only [hneeds, if_true, if_neg herr, pure_eq, run_done]
        refine Or.inl ⟨_, rfl, ?_, herr, hdisk₂.trans hdisk, hn₂.trans hn, hs₂.trans hs⟩
        rcases hfound with hnone | ⟨hsome, hworks⟩
        · rw [hnone]
        · obtain ⟨f, hf⟩ := Option.isSome_iff_exists.mp hsome
          simp [hf, hworks]
      · cases hvalue
        simp only at hinputs hn₂ hcache₂ hconfig₂
        subst hinputs
        obtain ⟨⟨found, detection⟩, hdetect, rfl⟩ := Option.map_eq_some_iff.mp hfound
        obtain ⟨hvalue, hcache, hquiet, hconfig⟩ := refreshLocation_run party found
          (fun n => e (n + 3)) w₂ cycle hcycle nowEpoch retryAt
        simp only [hneeds, hdetect, hworks, if_true, run_bind, pure_eq, run_done]
        refine Or.inr ⟨_, _, _, rfl, congrArg some hvalue.symm, ?_, hquiet.trans (hn₂.trans hn), ?_⟩
        · rw [hcache, hcache₂, hdisk]
        rcases hconfig with ⟨hc, -, heq, -⟩ | ⟨hr, hc | hc⟩
        · exact Or.inr (Or.inl ⟨by rw [hc, hconfig₂, heq], Or.inr ⟨cfg, hopen, hneeds⟩⟩)
        · exact Or.inr (Or.inl ⟨hc, Or.inl hr⟩)
        · exact Or.inr (Or.inr ⟨hr, hc⟩)

/-- A whole cycle by itself: it stops and changes nothing, or it works with a list
for the day under the settings it has found. -/
theorem muslimtifyRunCycleAt_run (H : Host) (now : LocalTime) (nowEpoch retryAt : ℤ)
    (party : Side) (e : ℕ → Input) (w : World) :
    let o := run (act party) (muslimtifyRunCycleAt H now nowEpoch retryAt) e w
    (located w.disk.config e nowEpoch retryAt = none ∧ o.value.error ≠ .ok ∧
        o.state.disk = w.disk ∧ notices o.state.trace = notices w.trace ∧
        storedConfigs o.state.trace = storedConfigs w.trace) ∨
      ∃ cfg refreshed list readable,
        located w.disk.config e nowEpoch retryAt = some (cfg, refreshed) ∧
        list = dayList H cfg now refreshed w.disk.cache readable ∧
        (readable = false → Failed isCacheRead o.state.trace) ∧
        (Failed isCacheRead o.state.trace → readable = false ∨ Failed isCacheRead w.trace) ∧
        Announces now cfg w o.state list o.value.error ∧ Stored w o.state cfg refreshed := by
  have hlocate := locate_run party e w nowEpoch retryAt
  have hlists := storedLists_run (locate_uses (P := (isCacheWrite · = false)) rfl (fun _ => rfl)
    (fun _ => rfl) nowEpoch retryAt) party e w
  have hunread := failed_of_run (locate_uses (P := (isCacheRead · = false)) rfl (fun _ => rfl)
    (fun _ => rfl) nowEpoch retryAt) party e w
  simp only [muslimtifyRunCycleAt_eq, run_bind]
  generalize run (act party) (locate nowEpoch retryAt) e w = o₁ at hlocate hlists hunread ⊢
  obtain ⟨value₁, e₁, w₁⟩ := o₁
  simp only at hlocate hlists hunread ⊢
  rcases hlocate with ⟨result, rfl, hnone, hstop⟩ |
    ⟨cfg, cycle, again, rfl, hsome, hcache, hquiet, hstored⟩
  · exact Or.inl ⟨hnone, hstop⟩
  · have hdue := announceDue_run H party e₁ w₁ (located_inRange hsome) cycle now again
    have hfailed := fun kind (hf : Failed kind w₁.trace) =>
      hf.run party (announceDue H cfg cycle now again) e₁
    generalize run (act party) (announceDue H cfg cycle now again) e₁ w₁ = o₂ at hdue hfailed ⊢
    obtain ⟨result, e₂, w₂⟩ := o₂
    simp only at hdue hfailed ⊢
    obtain ⟨⟨list, readable, hlist, hread, hread', hannounces⟩, hconfig, hs, -, -⟩ := hdue
    refine Or.inr ⟨cfg, cycle.refreshed, list, readable, hsome, by rw [hlist, hcache], hread,
      fun hf => (hread' hf).imp_right hunread,
      ⟨by simpa only [hquiet] using hannounces.outcome,
        by simpa only [hcache] using hannounces.cache,
        by simpa only [hlists] using hannounces.wrote⟩, ?_⟩
    rcases hstored with ⟨hc, hst, hload, hr⟩ | ⟨hc, hnew⟩ | ⟨hr, hf⟩
    · exact Or.inl ⟨hconfig.trans hc, hs.trans hst, hload, hr⟩
    · exact Or.inr (Or.inl ⟨hconfig.trans hc, hnew⟩)
    · exact Or.inr (Or.inr ⟨hr, hfailed _ hf⟩)

end Outcomes

end Muslimtify.CycleRun
