import Muslimtify.CycleRun
import Muslimtify.SettingsSave
import Muslimtify.TriggerPartition

/-!
# Runs of the daemon

A run is a sequence of whole cycles, with saves of settings by other processes
between them. Its state is what is on the disk, the retry time, the moment of
the last cycle and a report of every cycle so far. Operations may fail.

What a run may announce is bounded by what the lists can hold. Three facts about
the cache file carry the induction: it never holds more of a trigger than is
still to be announced, it holds every exact trigger of its day that is still
ahead, and it holds nothing that is not asked for.
-/
namespace Muslimtify.DaemonRuns
open CText CDouble CivilDays Settings ConfigFile ConfigRoundTrip Schedule TriggerCache
open TriggerPartition CacheFile CacheRoundTrip Detection Program DaemonCycle SettingsSave CycleRun

section Runs

/-- When a cycle runs, and what the outside world decides about its operations. -/
structure CycleJob where
  now : LocalTime
  nowEpoch : ℤ
  inputs : ℕ → Input

inductive Job
  | cycle (c : CycleJob)
  | save (cfg : Config) (inputs : ℕ → Input)

/-- What a cycle did, and the files after it. -/
structure Report where
  now : LocalTime
  nowEpoch : ℤ
  result : CycleResult
  trace : List Event
  disk : Disk

structure Daemon where
  disk : Disk
  retryAt : ℤ
  clock : ℤ
  past : List Report

variable (H : Host)

def runCycle (d : Daemon) (c : CycleJob) : Outcome CycleResult Input World :=
  run (act .left) (muslimtifyRunCycleAt H c.now c.nowEpoch d.retryAt) c.inputs ⟨d.disk, []⟩

def report (d : Daemon) (c : CycleJob) : Report :=
  let o := runCycle H d c
  ⟨c.now, c.nowEpoch, o.value, o.state.trace, o.state.disk⟩

def step (d : Daemon) : Job → Daemon
  | .cycle c =>
      let r := report H d c
      { disk := r.disk
        retryAt := r.result.retryAt
        clock := c.now.moment
        past := d.past ++ [r] }
  | .save cfg inputs =>
      { d with disk := (run (act .right) (muslimtifySave cfg) inputs ⟨d.disk, []⟩).state.disk }

/-- The run of the daemon over a sequence of jobs. -/
def runJobs (d : Daemon) (jobs : List Job) : Daemon := jobs.foldl (step H) d

/-- The triggers announced so far, each with the day of its announcement. -/
def Daemon.said (d : Daemon) : List (ℤ × CacheTrigger) :=
  d.past.flatMap fun r => (notices r.trace).map fun x => (r.now.day, x.1)

/-- A save leaves the cache file or deletes it. -/
theorem save_cache (d : Daemon) (cfg : Config) (inputs : ℕ → Input) :
    (step H d (.save cfg inputs)).disk.cache = d.disk.cache ∨
      (step H d (.save cfg inputs)).disk.cache = none := by
  cases h₀ : (inputs 0).works <;> cases h₁ : (inputs 1).works <;>
    simp [step, muslimtifySave, saveConfig, invalidateCache, run_step, act, answer, effect, h₀, h₁]

theorem today_injective {d : ℤ} {now : LocalTime} (h : now.today = dateText (mtCivilFromDays d)) :
    d = now.day :=
  (mtCivilFromDays_injective (dateText_injective h)).symm

end Runs

section Schedules
variable {H : Host} {cfg cfg' : Config}

/-- Two configurations that ask for the same announcements. -/
structure SameSchedule (H : Host) (cfg cfg' : Config) : Prop where
  times : ∀ d, timesOfDay H cfg d = timesOfDay H cfg' d
  enabled : ∀ p, prayerIsEnabled cfg p = prayerIsEnabled cfg' p
  reminders : ∀ p, remindersOf cfg p = remindersOf cfg' p

theorem SameSchedule.refl (H : Host) (cfg : Config) : SameSchedule H cfg cfg :=
  ⟨fun _ => rfl, fun _ => rfl, fun _ => rfl⟩

theorem SameSchedule.symm (h : SameSchedule H cfg cfg') : SameSchedule H cfg' cfg :=
  ⟨fun d => (h.times d).symm, fun p => (h.enabled p).symm, fun p => (h.reminders p).symm⟩

/-- The same occurrence under the other configuration. -/
def SameSchedule.occurrence (h : SameSchedule H cfg cfg') (o : Occurrence H cfg') :
    Occurrence H cfg where
  day := o.day
  prayer := o.prayer
  hours := o.hours
  bounded := o.bounded
  enabled := by rw [h.enabled]; exact o.enabled
  occurs := by rw [h.times]; exact o.occurs

/-- The trigger, on its day's list, stands for this occurrence, as far as the
cache file tells. -/
def stands (o : Occurrence H cfg) (r : ℤ) (x : ℤ × CacheTrigger) : Bool :=
  o.isTrigger (Double.rounded 4) r x.1 x.2

/-- How often the trigger of an occurrence is on the lists. -/
def allowance (cfg : Config) (p : PrayerType) (r : ℤ) : ℕ :=
  [0].count r + (remindersOf cfg p).count r

theorem stands_stored (o : Occurrence H cfg) (r d : ℤ) (t : CacheTrigger) :
    stands o r (d, storedTrigger t) = stands o r (d, t) := by
  rw [Bool.eq_iff_iff]
  simp only [stands, Occurrence.isTrigger_iff, storedTrigger, Double.rounded_idem]

theorem countP_stored (o : Occurrence H cfg) (r d : ℤ) {l l' : List CacheTrigger}
    (h : l.map storedTrigger = l'.map storedTrigger) :
    l.countP (fun t => stands o r (d, t)) = l'.countP (fun t => stands o r (d, t)) := by
  have hmap : ∀ l : List CacheTrigger, (l.map storedTrigger).countP (fun t => stands o r (d, t)) =
      l.countP (fun t => stands o r (d, t)) := by
    intro l
    rw [List.countP_map]
    exact List.countP_congr fun t _ => by simp [stands_stored]
  rw [← hmap l, h, hmap l']

/-- A day's list holds no more of a trigger than its allowance. -/
theorem builtTriggers_allowance (h : SameSchedule H cfg cfg') (o : Occurrence H cfg') (r d cm : ℤ) :
    (builtTriggers H cfg d cm).countP (fun t => stands o r (d, t)) ≤ allowance cfg' o.prayer r := by
  have hcount := dayCandidates_count tells_rounded (h.occurrence o) r d cm
  calc (builtTriggers H cfg d cm).countP (fun t => stands o r (d, t))
      = ((dayCandidates H cfg d cm).take maxTriggers).countP (fun t => stands o r (d, t)) :=
        (builtTriggers_perm H cfg d cm).countP_eq _
    _ ≤ (dayCandidates H cfg d cm).countP (fun t => stands o r (d, t)) :=
        (List.take_sublist _ _).countP_le
    _ ≤ allowance cfg' o.prayer r := by
        refine hcount.trans_le ?_
        rw [allowance, ← h.reminders]
        split_ifs
        · exact le_rfl
        · exact Nat.zero_le _

end Schedules

section Cycles
variable {H : Host} {base cfg : Config} {d : Daemon} {c : CycleJob} {refreshed : Bool}
  {list : PrayerCache}

/-- The cycle builds its list: it has refreshed, or finds none for the day. -/
def Anew (H : Host) (d : Daemon) (c : CycleJob) (refreshed : Bool) : Prop :=
  refreshed = true ∨ Failed isCacheRead (report H d c).trace ∨ ¬ValidFor d.disk.cache c.now

/-- A cycle that works with `list` under the settings `cfg`. -/
structure Works (H : Host) (d : Daemon) (c : CycleJob) (cfg : Config) (refreshed : Bool)
    (list : PrayerCache) : Prop where
  located : located d.disk.config c.inputs c.nowEpoch d.retryAt = some (cfg, refreshed)
  today : list.date.text = c.now.today
  inRange : CacheInRange list
  origin :
    refreshed = false ∧ cacheLoad d.disk.cache true = some list ∨
      Anew H d c refreshed ∧ list.triggers.items =
        (builtTriggers H cfg c.now.day c.now.currentMin).filter fun t =>
          !refreshed || c.now.currentMin ≤ t.minute
  anew : Anew H d c refreshed → list.triggers.items =
    (builtTriggers H cfg c.now.day c.now.currentMin).filter fun t =>
      !refreshed || c.now.currentMin ≤ t.minute
  announces : Announces c.now cfg ⟨d.disk, []⟩ (runCycle H d c).state list
    (report H d c).result.error
  stored : Stored ⟨d.disk, []⟩ (runCycle H d c).state cfg refreshed

/-- A cycle works with some list, or it stops before and changes nothing. -/
theorem cycle_works (H : Host) (d : Daemon) (c : CycleJob) :
    (CycleRun.located d.disk.config c.inputs c.nowEpoch d.retryAt = none ∧
        (report H d c).result.error ≠ .ok ∧ (report H d c).disk = d.disk ∧ notices (report H d c).trace = [] ∧
        storedConfigs (report H d c).trace = []) ∨
      ∃ cfg refreshed list, Works H d c cfg refreshed list := by
  rcases muslimtifyRunCycleAt_run H c.now c.nowEpoch d.retryAt .left c.inputs ⟨d.disk, []⟩ with
    h | ⟨cfg, refreshed, list, readable, hsome, hlist, hread, hunread, hann, hst⟩
  · exact Or.inl h
  · have hcases := dayList_cases H cfg c.now refreshed d.disk.cache readable
    rw [← hlist] at hcases
    refine Or.inr ⟨cfg, refreshed, list, hsome, ?_, ?_, ?_, ?_, hann, hst⟩
    · rw [hlist]
      exact dayList_today _ _ _ _ _ _
    · rw [hlist]
      exact dayList_inRange (located_inRange hsome) _ _ _ _
    · rcases hcases with ⟨hr, -, hload⟩ | ⟨hnew, -, hitems⟩
      · exact Or.inl ⟨hr, hload⟩
      · exact Or.inr ⟨hnew.imp_right (Or.imp_left hread), hitems⟩
    · intro hanew
      rcases hcases with ⟨hr, htoday, hload⟩ | ⟨-, -, hitems⟩
      · rcases hanew with hr' | hfailed | hinvalid
        · exact absurd (hr.symm.trans hr') (by decide)
        · obtain rfl : readable = false := (hunread hfailed).resolve_right fun ⟨_, hev, _⟩ => by
            cases hev
          rw [hlist]
          exact dayList_unread _ _ _ _ _
        · exact absurd ⟨list, hload, htoday⟩ hinvalid
      · exact hitems

/-- When and how a trigger is announced. -/
structure OnTime (m : ℤ) (t : CacheTrigger) (call : Call) : Prop where
  window : t.minute ≤ m ∧ m ≤ t.minute + catchupMaxMin
  ahead : 0 < t.minutesBefore → m < t.minute + t.minutesBefore
  adhan : ∀ prayer time file, call = .adhan prayer time file → m = t.minute

theorem announcement_onTime {m : ℤ} {t : CacheTrigger} (ht : isDue m t = true) (cfg : Config) :
    OnTime m t (announcement cfg m t) := by
  obtain ⟨h₁, h₂, h₃⟩ := isDue_iff.mp ht
  refine ⟨⟨h₁, h₂⟩, h₃, fun prayer time file hcall => ?_⟩
  unfold announcement at hcall
  split_ifs at hcall with hplays
  simp only [triggerPlaysAdhan, Bool.and_eq_true, decide_eq_true_eq] at hplays
  exact le_antisymm hplays.2 h₁

/-- What a cycle announces is what is due on its list, unless notifications do not start. -/
theorem Works.notices (h : Works H d c cfg refreshed list) :
    notices (report H d c).trace = (due c.now.currentMin list).map
        (fun t => (t, announcement cfg c.now.currentMin t)) ∧
        (report H d c).result.error ≠ .notifyInit ∨
      CycleRun.notices (report H d c).trace = [] ∧
        (report H d c).result.error = .notifyInit := by
  rcases h.announces.outcome with ⟨herr, hn, -⟩ | ⟨herr, hn, -⟩ | ⟨herr, hn, -⟩
  · exact Or.inl ⟨hn, by rw [herr]; decide⟩
  · exact Or.inl ⟨hn, by rw [herr]; decide⟩
  · exact Or.inr ⟨hn, herr⟩

theorem cycle_onTime (H : Host) (d : Daemon) (c : CycleJob) :
    ∀ x ∈ notices (report H d c).trace, OnTime c.now.currentMin x.1 x.2 := by
  intro x hx
  rcases cycle_works H d c with ⟨-, -, -, hquiet, -⟩ | ⟨cfg, refreshed, list, h⟩
  · rw [hquiet] at hx
    cases hx
  · rcases h.notices with ⟨hn, -⟩ | ⟨hn, -⟩
    · rw [hn] at hx
      obtain ⟨t, ht, rfl⟩ := List.mem_map.mp hx
      exact announcement_onTime (List.mem_filter.mp ht).2 cfg
    · rw [hn] at hx
      cases hx

theorem step_said (H : Host) (d : Daemon) (c : CycleJob) : (step H d (.cycle c)).said =
    d.said ++ (notices (report H d c).trace).map fun x => (c.now.day, x.1) := by
  simp [Daemon.said, step, report]

theorem Works.said_due (h : Works H d c cfg refreshed list)
    (hok : (report H d c).result.error ≠ .notifyInit) :
    (step H d (.cycle c)).said =
      d.said ++ (due c.now.currentMin list).map fun t => (c.now.day, t) := by
  rcases h.notices with ⟨hn, -⟩ | ⟨-, herr⟩
  · rw [step_said, hn]
    simp [Function.comp_def]
  · exact absurd herr hok

theorem Works.said_nothing (h : Works H d c cfg refreshed list)
    (herr : (report H d c).result.error = .notifyInit) :
    (step H d (.cycle c)).said = d.said := by
  rcases h.notices with ⟨-, hok⟩ | ⟨hn, -⟩
  · exact absurd herr hok
  · simp [step_said, hn]

/-- Nothing has kept the cycle from writing its list. -/
def Kept (H : Host) (d : Daemon) (c : CycleJob) : Prop :=
  (report H d c).result.error = .ok ∨ ¬Failed isCacheWrite (report H d c).trace

theorem Works.ok_of_kept (h : Works H d c cfg refreshed list) (hkept : Kept H d c)
    (herr : (report H d c).result.error ≠ .notifyInit) : (report H d c).result.error = .ok := by
  rcases hkept with hok | hwrites
  · exact hok
  · rcases h.announces.outcome with ⟨hok, -⟩ | ⟨-, -, hf⟩ | ⟨hstart, -⟩
    · exact hok
    · exact absurd hf hwrites
    · exact absurd hstart herr

/-- The cache file after a cycle without errors is dated today and holds what is
still ahead. -/
theorem Works.cached (h : Works H d c cfg refreshed list)
    (hok : (report H d c).result.error = .ok) :
    ∃ cache, cacheLoad (step H d (.cycle c)).disk.cache true = some cache ∧
      cache.date.text = c.now.today ∧ cache.triggers.items.map storedTrigger =
        (keepAhead c.now.currentMin list).triggers.items.map storedTrigger := by
  rcases h.announces.outcome with ⟨-, -, hholds⟩ | ⟨herr, -⟩ | ⟨herr, -⟩
  · obtain ⟨cache, hc, hdate, hitems⟩ := hholds
    exact ⟨cache, hc, by rw [hdate]; exact h.today, hitems⟩
  · rw [hok] at herr
    cases herr
  · rw [hok] at herr
    cases herr

/-- The file after a cycle holds triggers of its list only. -/
theorem Works.cached_sublist (h : Works H d c cfg refreshed list) (hkept : Kept H d c)
    {cache : PrayerCache} (hc : cacheLoad (step H d (.cycle c)).disk.cache true = some cache) :
    cache.date.text = c.now.today ∧ ∃ kept : List CacheTrigger,
      kept.Sublist list.triggers.items ∧
        cache.triggers.items.map storedTrigger = kept.map storedTrigger := by
  have hstep : (step H d (.cycle c)).disk = (runCycle H d c).state.disk := rfl
  have htext : (step H d (.cycle c)).disk.cache = some (cacheText list) →
      cache.date.text = c.now.today ∧ ∃ kept : List CacheTrigger,
        kept.Sublist list.triggers.items ∧
          cache.triggers.items.map storedTrigger = kept.map storedTrigger := by
    intro htext
    obtain ⟨c', hc', hdate', hitems⟩ := holds_text h.inRange
    rw [htext] at hc
    obtain rfl := Option.some.inj (hc'.symm.trans hc)
    exact ⟨by rw [hdate']; exact h.today, _, List.Sublist.refl _, hitems⟩
  by_cases herr : (report H d c).result.error = .notifyInit
  · rcases h.announces.cache with ⟨hsame, hload | hfail⟩ | hfile | hfile
    · rw [hstep, hsame] at hc
      obtain rfl := Option.some.inj (hload.symm.trans hc)
      exact ⟨h.today, _, List.Sublist.refl _, rfl⟩
    · rcases hkept with hok | hwrites
      · rw [herr] at hok
        cases hok
      · exact absurd hfail hwrites
    · exact htext hfile
    · obtain ⟨c', hc', hdate', hitems⟩ := holds_text (keepAhead_inRange h.inRange)
      rw [hstep, hfile] at hc
      obtain rfl := Option.some.inj (hc'.symm.trans hc)
      exact ⟨by rw [hdate']; exact h.today, _, List.filter_sublist, hitems⟩
  · obtain ⟨other, ho, htoday, hitems⟩ := h.cached (h.ok_of_kept hkept herr)
    obtain rfl := Option.some.inj (ho.symm.trans hc)
    exact ⟨htoday, _, List.filter_sublist, hitems⟩

/-- Where every input works and the location is set nothing keeps a cycle from
its list, and it ends without an error. -/
theorem cycle_without_failure (hworks : ∀ n, (c.inputs n).works = true)
    (hload : configLoad d.disk.config true = some base)
    (hset : configLocationNeedsDetect base = false) :
    ∃ list, Works H d c (refreshOf base c.nowEpoch d.retryAt (c.inputs 1).lookups).1
        (refreshOf base c.nowEpoch d.retryAt (c.inputs 1).lookups).2 list ∧
      (report H d c).result.error = .ok ∧ ∀ kind, ¬Failed kind (report H d c).trace := by
  have hfail : ∀ kind, ¬Failed kind (report H d c).trace := fun kind =>
    not_failed_run hworks (fun h => by obtain ⟨ev, hev, -⟩ := h; cases hev) _ _
  have hsome : CycleRun.located d.disk.config c.inputs c.nowEpoch d.retryAt =
      some (refreshOf base c.nowEpoch d.retryAt (c.inputs 1).lookups) := by
    simp [CycleRun.located, hworks, hload, hset]
  rcases cycle_works H d c with ⟨hnone, -⟩ | ⟨cfg, refreshed, list, h⟩
  · rw [hsome] at hnone
    cases hnone
  · have heq := Option.some.inj (hsome.symm.trans h.located)
    rw [heq]
    refine ⟨list, h, ?_, hfail⟩
    rcases h.announces.outcome with ⟨hok, -⟩ | ⟨-, -, hf⟩ | ⟨-, -, hf⟩
    · exact hok
    · exact absurd hf (hfail _)
    · exact absurd hf (hfail _)

end Cycles

section Waiting
variable {H : Host} {span : ℤ → Prop} {d : Daemon}

/-- A list in the cache file for a day of `span` that is not over has the property. -/
def Waiting (span : ℤ → Prop) (d : Daemon) (P : ℤ → PrayerCache → Prop) : Prop :=
  ∀ cache day, span day → cacheLoad d.disk.cache true = some cache →
    cache.date.text = dateText (mtCivilFromDays day) → d.clock < 1440 * day + 1440 → P day cache

theorem Waiting.save {P : ℤ → PrayerCache → Prop} (h : Waiting span d P) (cfg : Config)
    (inputs : ℕ → Input) : Waiting span (step H d (.save cfg inputs)) P := by
  intro cache day hspan hc hdate hclock
  rcases save_cache H d cfg inputs with hsame | hnone
  · rw [hsame] at hc
    exact h cache day hspan hc hdate hclock
  · rw [hnone] at hc
    cases hc

/-- After a cycle that only today's list can be waiting. -/
theorem Waiting.cycle {P : ℤ → PrayerCache → Prop} {c : CycleJob}
    (h : ∀ cache, cacheLoad (step H d (.cycle c)).disk.cache true = some cache →
      cache.date.text = c.now.today ∧ P c.now.day cache) :
    Waiting span (step H d (.cycle c)) P := by
  intro cache day _ hc hdate _
  obtain ⟨htoday, hP⟩ := h cache hc
  rwa [today_injective (htoday.symm.trans hdate)]

/-- A run starts without reports, and without a list for a day of `span` that is
not over. -/
structure Starts (span : ℤ → Prop) (d : Daemon) : Prop where
  past : d.past = []
  cache : Waiting span d fun _ _ => False

theorem Starts.said (h : Starts span d) : d.said = [] := by
  rw [Daemon.said, h.past]
  rfl

theorem Starts.waiting (h : Starts span d) (P : ℤ → PrayerCache → Prop) : Waiting span d P :=
  fun cache day hspan hc hdate hclock => (h.cache cache day hspan hc hdate hclock).elim

end Waiting

section AtMostOnce

/-- The trigger is announced in minute `m` or may be announced later. -/
def remains (m : ℤ) (t : CacheTrigger) : Bool := isDue m t || isAhead m t

theorem remains_antitone {m m' : ℤ} (h : m ≤ m') {t : CacheTrigger} (ht : remains m' t = true) :
    remains m t = true := by
  simp only [remains, Bool.or_eq_true, isDue_iff, isAhead_iff] at ht ⊢
  omega

theorem countP_due_ahead (P : CacheTrigger → Bool) (m : ℤ) (cache : PrayerCache) :
    (due m cache).countP P + (keepAhead m cache).triggers.items.countP P =
      cache.triggers.items.countP fun t => remains m t && P t := by
  simp only [due, keepAhead, FixedArray.keep_items]
  induction cache.triggers.items with
  | nil => simp
  | cons t l ih =>
      simp only [List.filter_cons, List.countP_cons, remains] at ih ⊢
      by_cases ha : isAhead m t = true
      · simp only [not_isDue_of_isAhead ha, ha, if_true, Bool.false_eq_true, if_false,
          List.countP_cons, Bool.or_true, Bool.true_and]
        omega
      · by_cases hd : isDue m t = true
        · simp only [hd, ha, if_true, Bool.false_eq_true, if_false, List.countP_cons, Bool.true_or,
            Bool.true_and]
          omega
        · simp only [hd, ha, Bool.false_eq_true, if_false, Bool.or_self, Bool.false_and]
          omega

/-- What bounds the announcements of a run whose cycles fall on the days of `span`. -/
structure Bounded (H : Host) (base : Config) (span : ℤ → Prop) (d : Daemon) : Prop where
  past : ∀ x ∈ d.said, InRange x.2 ∧ 1440 * x.1 + x.2.minute ≤ d.clock
  said : ∀ (o : Occurrence H base) r, d.said.countP (stands o r) ≤ allowance base o.prayer r
  cached : Waiting span d fun day cache => ∀ (o : Occurrence H base) r,
    d.said.countP (stands o r) + cache.triggers.items.countP
      (fun t => remains (d.clock - 1440 * day) t && stands o r (day, t)) ≤ allowance base o.prayer r

/-- A cycle no earlier than the one before that writes its list, and builds no
list but for the announcements of `base`. -/
structure Steady (H : Host) (base : Config) (d : Daemon) (c : CycleJob) : Prop where
  inTime : d.clock ≤ c.now.moment
  kept : Kept H d c
  same : ∀ cfg refreshed,
    CycleRun.located d.disk.config c.inputs c.nowEpoch d.retryAt = some (cfg, refreshed) →
    Anew H d c refreshed → SameSchedule H cfg base

/-- Of a list built anew no trigger is due that has been announced before. -/
def NoneDueAgain (H : Host) (d : Daemon) (c : CycleJob) : Prop :=
  ∀ cfg refreshed,
    CycleRun.located d.disk.config c.inputs c.nowEpoch d.retryAt = some (cfg, refreshed) →
    Anew H d c refreshed → ∀ x ∈ d.said, x.1 = c.now.day →
      if refreshed then x.2.minute < c.now.currentMin else isDue c.now.currentMin x.2 = false

variable {H : Host} {base cfg : Config} {span : ℤ → Prop} {d : Daemon} {c : CycleJob}
  {refreshed : Bool} {list : PrayerCache}

/-- A trigger announced before does not remain on a list built anew. -/
theorem announced_gone (hb : Bounded H base span d) (htime : d.clock ≤ c.now.moment)
    (hnone : ∀ x ∈ d.said, x.1 = c.now.day → if refreshed then x.2.minute < c.now.currentMin
      else isDue c.now.currentMin x.2 = false)
    {o : Occurrence H base} {r : ℤ} {x : ℤ × CacheTrigger} (hx : x ∈ d.said)
    (hstands : stands o r x = true) {t : CacheTrigger} (ht : InRange t)
    (hst : stands o r (c.now.day, t) = true)
    (hkept : refreshed = true → c.now.currentMin ≤ t.minute) :
    remains c.now.currentMin t = false := by
  obtain ⟨hrange, hpast⟩ := hb.past x hx
  obtain ⟨-, hbefore, -, hminute⟩ := Occurrence.isTrigger_iff.mp hstands
  obtain ⟨-, hbefore', -, hminute'⟩ := Occurrence.isTrigger_iff.mp hst
  dsimp only at hbefore' hminute'
  have h₁ := hrange.minute
  have h₂ := ht.minute
  have hday : x.1 = c.now.day := by omega
  have hsame : x.2.minute = t.minute := by omega
  rw [LocalTime.moment] at htime
  have hahead : isAhead c.now.currentMin t = false := by
    rw [← Bool.not_eq_true, isAhead_iff]
    omega
  rw [remains, hahead, Bool.or_false]
  have hx' := hnone x hx hday
  cases refreshed with
  | true =>
      have := hkept rfl
      simp only [if_true] at hx'
      omega
  | false =>
      simp only [Bool.false_eq_true, if_false] at hx'
      rw [← hx', isDue, isDue, hsame, hbefore.trans hbefore'.symm]

/-- What remains of a cycle's list fits into what is left of the allowance. -/
theorem Works.allowed (h : Works H d c cfg refreshed list) (hb : Bounded H base span d)
    (hspan : span c.now.day) (hsteady : Steady H base d c) (hnone : NoneDueAgain H d c)
    (o : Occurrence H base) (r : ℤ) :
    d.said.countP (stands o r) + list.triggers.items.countP
      (fun t => remains c.now.currentMin t && stands o r (c.now.day, t)) ≤
        allowance base o.prayer r := by
  have hday := c.now.currentMin_range
  have htime := hsteady.inTime
  rw [LocalTime.moment] at htime
  rcases h.origin with ⟨-, hload⟩ | ⟨hnew, hitems⟩
  · have hroom := hb.cached _ _ hspan hload h.today (by omega) o r
    refine (Nat.add_le_add_left (List.countP_mono_left fun t _ ht => ?_) _).trans hroom
    rw [Bool.and_eq_true] at ht ⊢
    exact ⟨remains_antitone (by omega) ht.1, ht.2⟩
  · rcases Nat.eq_zero_or_pos (d.said.countP (stands o r)) with hzero | hpos
    · rw [hzero, Nat.zero_add, hitems]
      calc ((builtTriggers H cfg c.now.day c.now.currentMin).filter fun t =>
            !refreshed || c.now.currentMin ≤ t.minute).countP
              (fun t => remains c.now.currentMin t && stands o r (c.now.day, t))
          ≤ (builtTriggers H cfg c.now.day c.now.currentMin).countP
              (fun t => remains c.now.currentMin t && stands o r (c.now.day, t)) :=
            List.filter_sublist.countP_le
        _ ≤ (builtTriggers H cfg c.now.day c.now.currentMin).countP
              (fun t => stands o r (c.now.day, t)) :=
            List.countP_mono_left fun t _ ht => (Bool.and_eq_true _ _ ▸ ht).2
        _ ≤ allowance base o.prayer r :=
            builtTriggers_allowance (hsteady.same _ _ h.located hnew) o r c.now.day _
    · obtain ⟨x, hx, hstands⟩ := List.countP_pos_iff.mp hpos
      have hgone : list.triggers.items.countP
          (fun t => remains c.now.currentMin t && stands o r (c.now.day, t)) = 0 := by
        refine List.countP_eq_zero.mpr fun t ht hst => ?_
        rw [Bool.and_eq_true] at hst
        have hfalse := announced_gone hb hsteady.inTime (hnone _ _ h.located hnew) hx hstands
          (h.inRange t ht) hst.2 fun hr => by
            rw [hitems, hr] at ht
            simpa using (List.mem_filter.mp ht).2
        rw [hfalse] at hst
        cases hst.1
      rw [hgone]
      exact hb.said o r

theorem countP_day (o : Occurrence H base) (r day : ℤ) (l : List CacheTrigger) :
    (l.map fun t => (day, t)).countP (stands o r) = l.countP fun t => stands o r (day, t) :=
  List.countP_map

/-- Triggers that the file cannot tell apart remain and stand for the same. -/
theorem countP_remains (o : Occurrence H base) (r day m : ℤ) {l l' : List CacheTrigger}
    (h : l.map storedTrigger = l'.map storedTrigger) :
    l.countP (fun t => remains m t && stands o r (day, t)) =
      l'.countP fun t => remains m t && stands o r (day, t) := by
  have hmap : ∀ l : List CacheTrigger,
      (l.map storedTrigger).countP (fun t => remains m t && stands o r (day, t)) =
        l.countP fun t => remains m t && stands o r (day, t) := by
    intro l
    rw [List.countP_map]
    refine List.countP_congr fun t _ => ?_
    have hremains : remains m (storedTrigger t) = remains m t := rfl
    simp [stands_stored, hremains]
  rw [← hmap l, h, hmap l']

/-- With each cycle of a run that meets the conditions, the announcements stay
within the allowance. -/
theorem Bounded.cycle (hb : Bounded H base span d) (hspan : span c.now.day)
    (hsteady : Steady H base d c) (hnone : NoneDueAgain H d c) :
    Bounded H base span (step H d (.cycle c)) := by
  have htime := hsteady.inTime
  have hclock : (step H d (.cycle c)).clock - 1440 * c.now.day = c.now.currentMin := by
    simp only [step, LocalTime.moment]
    omega
  rcases cycle_works H d c with ⟨-, -, hdisk, hquiet, -⟩ | ⟨cfg, refreshed, list, h⟩
  · have hsaid : (step H d (.cycle c)).said = d.said := by simp [step_said, hquiet]
    refine ⟨fun x hx => ?_, fun o r => by rw [hsaid]; exact hb.said o r, ?_⟩
    · rw [hsaid] at hx
      exact ⟨(hb.past x hx).1, (hb.past x hx).2.trans htime⟩
    · intro cache day hday hc hdate hlt o r
      rw [show (step H d (.cycle c)).disk = d.disk from hdisk] at hc
      have hlt : c.now.moment < 1440 * day + 1440 := hlt
      rw [hsaid]
      refine (Nat.add_le_add_left (List.countP_mono_left fun t _ ht => ?_) _).trans
        (hb.cached cache day hday hc hdate (by omega) o r)
      rw [Bool.and_eq_true] at ht ⊢
      exact ⟨remains_antitone (Int.sub_le_sub_right htime _) ht.1, ht.2⟩
  · have hallowed := h.allowed hb hspan hsteady hnone
    have hcached : ∀ cache, cacheLoad (step H d (.cycle c)).disk.cache true = some cache →
        cache.date.text = c.now.today ∧ ∃ kept : List CacheTrigger,
          kept.Sublist list.triggers.items ∧
            cache.triggers.items.map storedTrigger = kept.map storedTrigger :=
      fun cache hc => h.cached_sublist hsteady.kept hc
    by_cases herr : (report H d c).result.error = .notifyInit
    · have hsaid := h.said_nothing herr
      refine ⟨fun x hx => ?_, fun o r => by rw [hsaid]; exact hb.said o r, Waiting.cycle ?_⟩
      · rw [hsaid] at hx
        exact ⟨(hb.past x hx).1, (hb.past x hx).2.trans htime⟩
      · intro cache hc
        obtain ⟨htoday, kept, hsub, hkept⟩ := hcached cache hc
        refine ⟨htoday, fun o r => ?_⟩
        rw [hsaid, hclock, countP_remains o r _ _ hkept]
        exact (Nat.add_le_add_left hsub.countP_le _).trans (hallowed o r)
    · have hsaid := h.said_due herr
      have hfit := fun (o : Occurrence H base) r =>
        countP_due_ahead (fun t => stands o r (c.now.day, t)) c.now.currentMin list
      refine ⟨fun x hx => ?_, fun o r => ?_, Waiting.cycle fun cache hc => ?_⟩
      · rw [hsaid] at hx
        rcases List.mem_append.mp hx with hx | hx
        · exact ⟨(hb.past x hx).1, (hb.past x hx).2.trans htime⟩
        · obtain ⟨t, ht, rfl⟩ := List.mem_map.mp hx
          have ht := List.mem_filter.mp ht
          have hle := (isDue_iff.mp ht.2).1
          refine ⟨h.inRange t ht.1, ?_⟩
          simp only [step, LocalTime.moment]
          omega
      · have hroom := hallowed o r
        have hsplit := hfit o r
        rw [hsaid, List.countP_append, countP_day]
        omega
      · obtain ⟨other, ho, htoday, hitems⟩ := h.cached (h.ok_of_kept hsteady.kept herr)
        obtain rfl := Option.some.inj (ho.symm.trans hc)
        refine ⟨htoday, fun o r => ?_⟩
        have hroom := hallowed o r
        have hsplit := hfit o r
        have hahead := List.countP_mono_left (l := (keepAhead c.now.currentMin list).triggers.items)
          (p := fun t => remains c.now.currentMin t && stands o r (c.now.day, t))
          (q := fun t => stands o r (c.now.day, t))
          fun t _ ht => (Bool.and_eq_true _ _ ▸ ht).2
        rw [hsaid, List.countP_append, countP_day, hclock, countP_remains o r _ _ hitems]
        omega

theorem Bounded.save (hb : Bounded H base span d) (cfg : Config) (inputs : ℕ → Input) :
    Bounded H base span (step H d (.save cfg inputs)) :=
  ⟨hb.past, hb.said, hb.cached.save cfg inputs⟩

theorem Starts.bounded (h : Starts span d) : Bounded H base span d where
  past x hx := by
    rw [h.said] at hx
    cases hx
  said o r := by
    rw [h.said]
    exact Nat.zero_le _
  cached := h.waiting _

end AtMostOnce

section Listing
variable {H : Host} {base cfg : Config} {span : ℤ → Prop} {d : Daemon} {c : CycleJob}
  {refreshed : Bool} {list : PrayerCache}

/-- The waiting list holds every exact trigger of its day that is still ahead. -/
def Listed (H : Host) (base : Config) (span : ℤ → Prop) (d : Daemon) : Prop :=
  Waiting span d fun day cache => ∀ o : Occurrence H base, o.day - day ∈ dayDeltas →
    d.clock < o.minute → 1440 * day ≤ o.minute → o.minute < 1440 * day + 1440 →
    0 < cache.triggers.items.countP fun t => stands o 0 (day, t)

/-- The exact triggers of a day that are not too far behind are on a list built
for it. -/
theorem builtTriggers_stands (h : SameSchedule H cfg base) (hz : NoZeroReminder base)
    (o : Occurrence H base) {day m : ℤ} (hday : o.day - day ∈ dayDeltas)
    (hon : onDay (o.minute - 1440 * day) m = true) :
    0 < (builtTriggers H cfg day m).countP fun t => stands o 0 (day, t) := by
  have hz' : NoZeroReminder cfg := fun p => by rw [h.reminders]; exact hz p
  have hone := builtTriggers_exact tells_rounded hz' (h.occurrence o) day m
  rw [if_pos ⟨hday, hon⟩] at hone
  exact hone ▸ Nat.one_pos

/-- Before a cycle announces anything its list holds every exact trigger of the
day that is still ahead, and without a refresh also those not too far behind
that came after the last cycle. -/
theorem Works.lists (h : Works H d c cfg refreshed list) (hl : Listed H base span d)
    (hspan : span c.now.day) (hsteady : Steady H base d c) (hz : NoZeroReminder base)
    {o : Occurrence H base} (hday : o.day - c.now.day ∈ dayDeltas) (hclock : d.clock < o.minute)
    (h₀ : 1440 * c.now.day ≤ o.minute) (h₁ : o.minute < 1440 * c.now.day + 1440)
    (hlate : c.now.moment ≤ o.minute + catchupMaxMin)
    (hfresh : refreshed = true → c.now.moment ≤ o.minute) :
    0 < list.triggers.items.countP fun t => stands o 0 (c.now.day, t) := by
  have hrange := c.now.currentMin_range
  have htime := hsteady.inTime
  rw [LocalTime.moment] at htime hlate hfresh
  rcases h.origin with ⟨-, hload⟩ | ⟨hnew, hitems⟩
  · exact hl _ _ hspan hload h.today (by omega) o hday hclock h₀ h₁
  · have hbuilt := builtTriggers_stands (hsteady.same _ _ h.located hnew) hz o
      (m := c.now.currentMin) hday (by
        simp only [onDay, Bool.and_eq_true, decide_eq_true_eq]
        omega)
    obtain ⟨t, ht, hst⟩ := List.countP_pos_iff.mp hbuilt
    have hminute := (Occurrence.isTrigger_iff.mp hst).2.2.2
    refine List.countP_pos_iff.mpr ⟨t, ?_, hst⟩
    rw [hitems]
    refine List.mem_filter.mpr ⟨ht, ?_⟩
    cases refreshed with
    | true =>
        have := hfresh rfl
        dsimp only at hminute
        simp only [Bool.not_true, Bool.false_or, decide_eq_true_eq]
        omega
    | false => rfl

theorem Listed.cycle (hl : Listed H base span d) (h : Works H d c cfg refreshed list)
    (hspan : span c.now.day) (hsteady : Steady H base d c)
    (hok : (report H d c).result.error = .ok) (hz : NoZeroReminder base) :
    Listed H base span (step H d (.cycle c)) := by
  refine Waiting.cycle fun cache hc => ?_
  obtain ⟨other, ho, htoday, hitems⟩ := h.cached hok
  obtain rfl := Option.some.inj (ho.symm.trans hc)
  refine ⟨htoday, fun o hday hclock h₀ h₁ => ?_⟩
  have hclock : c.now.moment < o.minute := hclock
  have htime := hsteady.inTime
  have hlist := h.lists hl hspan hsteady hz hday (by omega) h₀ h₁
    (by simp only [catchupMaxMin]; omega) fun _ => hclock.le
  rw [countP_stored o 0 c.now.day hitems]
  obtain ⟨t, ht, hst⟩ := List.countP_pos_iff.mp hlist
  have hminute := (Occurrence.isTrigger_iff.mp hst).2.2.2
  refine List.countP_pos_iff.mpr ⟨t, List.mem_filter.mpr ⟨ht, isAhead_iff.mpr ?_⟩, hst⟩
  rw [LocalTime.moment] at hclock
  dsimp only at hminute
  omega

theorem Listed.save (hl : Listed H base span d) (cfg : Config) (inputs : ℕ → Input) :
    Listed H base span (step H d (.save cfg inputs)) :=
  Waiting.save hl cfg inputs

end Listing

section Genuineness
variable {H : Host} {base cfg : Config} {span : ℤ → Prop} {d : Daemon} {c : CycleJob}
  {refreshed : Bool} {list : PrayerCache}

/-- The trigger stands for an occurrence of a prayer or for one of its reminders,
on a day around the occurrence's date. -/
structure StandsForSome (H : Host) (base : Config) (x : ℤ × CacheTrigger) : Prop where
  asked : ∃ (o : Occurrence H base) (r : ℤ), (r = 0 ∨ r ∈ remindersOf base o.prayer) ∧
    stands o r x = true
  near : ∀ (o : Occurrence H base) (r : ℤ), stands o r x = true → o.day - x.1 ∈ dayDeltas

theorem StandsForSome.stored {day : ℤ} {t u : CacheTrigger} (h : StandsForSome H base (day, u))
    (htu : storedTrigger u = storedTrigger t) : StandsForSome H base (day, t) := by
  have hsame : ∀ (o : Occurrence H base) r, stands o r (day, t) = stands o r (day, u) :=
    fun o r => by rw [← stands_stored, ← htu, stands_stored]
  obtain ⟨o, r, hr, hst⟩ := h.asked
  exact ⟨⟨o, r, hr, by rwa [hsame]⟩, fun o r hst => h.near o r (by rwa [← hsame])⟩

/-- Nothing is announced or waits in the cache file that is not asked for. -/
structure Genuine (H : Host) (base : Config) (span : ℤ → Prop) (d : Daemon) : Prop where
  said : ∀ x ∈ d.said, StandsForSome H base x
  cached : Waiting span d fun day cache =>
    ∀ t ∈ cache.triggers.items, StandsForSome H base (day, t)

theorem Works.genuine (h : Works H d c cfg refreshed list) (hg : Genuine H base span d)
    (hspan : span c.now.day) (hsteady : Steady H base d c) :
    ∀ t ∈ list.triggers.items, StandsForSome H base (c.now.day, t) := by
  have hrange := c.now.currentMin_range
  have htime := hsteady.inTime
  rw [LocalTime.moment] at htime
  intro t ht
  rcases h.origin with ⟨-, hload⟩ | ⟨hnew, hitems⟩
  · exact hg.cached _ _ hspan hload h.today (by omega) t ht
  · rw [hitems] at ht
    have ht := List.mem_of_mem_filter ht
    obtain ⟨o, r, hr, -, hst⟩ := mem_builtTriggers ht
    have hsame := hsteady.same _ _ h.located hnew
    exact ⟨⟨hsame.symm.occurrence o, r, hr.imp_right (hsame.reminders o.prayer ▸ ·), hst _⟩,
      fun o r hst => builtTriggers_near tells_rounded (o := hsame.occurrence o) ht hst⟩

theorem Genuine.cycle (hg : Genuine H base span d) (h : Works H d c cfg refreshed list)
    (hspan : span c.now.day) (hsteady : Steady H base d c) :
    Genuine H base span (step H d (.cycle c)) where
  said x hx := by
    by_cases herr : (report H d c).result.error = .notifyInit
    · rw [h.said_nothing herr] at hx
      exact hg.said x hx
    · rw [h.said_due herr] at hx
      rcases List.mem_append.mp hx with hx | hx
      · exact hg.said x hx
      · obtain ⟨t, ht, rfl⟩ := List.mem_map.mp hx
        exact h.genuine hg hspan hsteady t (List.mem_of_mem_filter ht)
  cached := Waiting.cycle fun cache hc => by
    obtain ⟨htoday, kept, hsub, hkept⟩ := h.cached_sublist hsteady.kept hc
    refine ⟨htoday, fun t ht => ?_⟩
    have hmem : storedTrigger t ∈ kept.map storedTrigger := hkept ▸ List.mem_map_of_mem ht
    obtain ⟨u, hu, hut⟩ := List.mem_map.mp hmem
    exact (h.genuine hg hspan hsteady u (hsub.subset hu)).stored hut

theorem Starts.genuine (h : Starts span d) : Genuine H base span d where
  said x hx := by
    rw [h.said] at hx
    cases hx
  cached := h.waiting _

end Genuineness

section June

def juneFile : CString :=
  ascii "\x7b\"location\": \x7b\"latitude\": 64.15, \"longitude\": -21.94\x7d\x7d"

/-- Settings with a place far north. -/
def juneConfig : Config :=
  { configDefault with latitude := .ofRat 64.15, longitude := .ofRat (-21.94) }

theorem timesOfDay_june (d : ℤ) : timesOfDay (steadyHost juneTimes) juneConfig d = juneTimes :=
  timesOfDay_steady (by decide +kernel) (by decide +kernel) (fun p => by cases p <;> rfl) d

theorem configLoad_june : configLoad (some juneFile) true = some juneConfig := by
  decide +kernel

theorem fajr_bounded : |(-1 / 10 : ℚ)| ≤ dblMax := by decide +kernel

/-- Fajr of one day, at 23:54 of the evening before. -/
def juneFajr : Occurrence (steadyHost juneTimes) juneConfig where
  day := 20622
  prayer := .fajr
  hours := -1 / 10
  bounded := fajr_bounded
  enabled := rfl
  occurs := by
    rw [timesOfDay_june]
    decide +kernel

def junePlace : Place where
  latitude := .ofRat 64.15
  longitude := .ofRat (-21.94)
  latitude_valid := by decide +kernel
  longitude_valid := by decide +kernel
  zone := none
  country := none
  updatedAt := 0
  stamped := by decide

/-- Every operation works and every lookup finds the same place. -/
def juneInput : Input := ⟨true, .ok, junePlace, some junePlace⟩

/-- A day whose date fits its buffer. -/
class Dated (day : ℤ) : Prop where
  fits : (dateText (mtCivilFromDays day)).length < 16

instance dated_june17 : Dated 20621 := ⟨by decide +kernel⟩

instance dated_june18 : Dated 20622 := ⟨by decide +kernel⟩

instance neZero24 : NeZero 24 := ⟨by decide⟩

instance neZero60 : NeZero 60 := ⟨by decide⟩

def juneTime (day : ℤ) [Dated day] (hour : Fin 24) (min : Fin 60) : LocalTime where
  day := day
  hour := hour
  min := min
  hour_range := by omega
  min_range := by omega
  fits := Dated.fits

/-- A cycle in the evening of that day, while the location is not stale. -/
def juneCycle (now : LocalTime) : CycleJob := ⟨now, 0, fun _ => juneInput⟩

def juneStart : Daemon := ⟨⟨some juneFile, none⟩, 0, 0, []⟩

/-- What two finished programs that both report success have left. -/
theorem both_succeed (c : CycleProgram CycleResult × CycleProgram MuslimtifyError × World)
    (P : World → Prop)
    (h : c.1.value?.map (·.error) = some .ok ∧ c.2.1.value? = some .ok ∧ P c.2.2) :
    ∃ result w, c = (.done result, .done .ok, w) ∧ result.error = .ok ∧ P w := by
  obtain ⟨hcycle, hsave, hP⟩ := h
  obtain ⟨result, hr, hok⟩ := Option.map_eq_some_iff.mp hcycle
  have hended : c = (done result, done .ok, c.2.2) :=
    Prod.ext (eq_done_of_value? hr) (Prod.ext (eq_done_of_value? hsave) rfl)
  exact ⟨result, _, hended, hok, hP⟩

theorem juneStart_starts (span : ℤ → Prop) : Starts span juneStart where
  past := rfl
  cache cache day _ hc := by cases hc

theorem refreshOf_june (retryAt : ℤ) (lookups : Lookups) :
    refreshOf juneConfig 0 retryAt lookups = (juneConfig, false) := by
  have hstale : locationIsStale juneConfig 0 = false := by decide
  simp [refreshOf, hstale]

theorem located_june {d : Daemon} {now : LocalTime} {cfg : Config} {refreshed : Bool}
    (hconfig : configLoad d.disk.config true = some juneConfig)
    (h : CycleRun.located d.disk.config (juneCycle now).inputs (juneCycle now).nowEpoch d.retryAt =
      some (cfg, refreshed)) : cfg = juneConfig ∧ refreshed = false := by
  obtain ⟨loaded, hload, h⟩ := located_cases h
  rw [show ((juneCycle now).inputs 0).works = true from rfl, hconfig] at hload
  obtain rfl := Option.some.inj hload
  rcases h with ⟨-, h⟩ | ⟨h, -⟩
  · exact ⟨congrArg Prod.fst (h.symm.trans (refreshOf_june _ _)),
      congrArg Prod.snd (h.symm.trans (refreshOf_june _ _))⟩
  · exact absurd h (by decide +kernel)

theorem steady_june {d : Daemon} {now : LocalTime}
    (hconfig : configLoad d.disk.config true = some juneConfig) (hclock : d.clock ≤ now.moment) :
    Steady (steadyHost juneTimes) juneConfig d (juneCycle now) where
  inTime := hclock
  kept := Or.inr (not_failed_run (fun _ => rfl)
    (fun h => by obtain ⟨ev, hev, -⟩ := h; cases hev) _ _)
  same cfg refreshed h _ := by
    rw [(located_june hconfig h).1]
    exact .refl _ _

end June

end Muslimtify.DaemonRuns
