import Muslimtify.AtMostOnce
import Muslimtify.FiringLoop

/-!
# Late announcements

A trigger that no cycle was in time for is announced by the next cycle, up to 15
minutes late. Two things stand in the way of that. The list belongs to one
calendar day, so a cycle after midnight does not know the triggers of the day
before. And after a refresh of the location every trigger of an earlier minute
is taken for one that has been dealt with.
-/
namespace Muslimtify.CatchUp
open CText CDouble CivilDays Settings ConfigFile ConfigRoundTrip Schedule TriggerCache
open TriggerPartition CacheFile CacheRoundTrip Detection Program DaemonCycle CycleRun
open DaemonRuns AtMostOnce FiringLoop

section Midnight
variable {H : Host} {base : Config} {d : Daemon} {c : CycleJob} {jobs : List Job}

/-- A cycle that ends without an error and finds no new location. -/
structure Calm (H : Host) (base : Config) (d : Daemon) (c : CycleJob) : Prop where
  inTime : d.clock ≤ c.now.moment
  ok : (report H d c).result.error = .ok
  stays : (refreshOf base c.nowEpoch d.retryAt (c.inputs 1).lookups).2 = false

/-- The steps of a run in which nothing changes the settings. -/
def AllCalm (H : Host) (base : Config) (d : Daemon) : Job → Prop
  | .cycle c => Calm H base d c
  | .save _ _ => False

/-- What holds throughout such a run. -/
structure CalmRun (H : Host) (base : Config) (d : Daemon) : Prop where
  loads : configLoad d.disk.config true = some base
  listed : Listed H base (fun _ => True) d
  genuine : Genuine H base (fun _ => True) d

theorem refreshOf_stays {cfg : Config} {nowEpoch retryAt : ℤ} {lookups : Lookups}
    (h : (refreshOf cfg nowEpoch retryAt lookups).2 = false) :
    refreshOf cfg nowEpoch retryAt lookups = (cfg, false) := by
  unfold refreshOf at h ⊢
  split_ifs with hstale
  · rw [if_pos hstale] at h
    split
    · rfl
    · rename_i found detection hfound
      simp [hfound] at h
  · rfl

/-- A calm cycle works under the settings in the file. -/
theorem Calm.works (h : Calm H base d c) (hload : configLoad d.disk.config true = some base)
    (hset : configLocationNeedsDetect base = false) :
    (∃ list, Works H d c base false list) ∧ Steady H base d c := by
  have honly : ∀ {cfg refreshed}, CycleRun.located d.disk.config c.inputs c.nowEpoch d.retryAt =
      some (cfg, refreshed) → cfg = base ∧ refreshed = false := by
    intro cfg refreshed hl
    obtain ⟨loaded, hloaded, hcases⟩ := located_cases hl
    obtain rfl := Option.some.inj (hload.symm.trans (configLoad_open hloaded))
    rcases hcases with ⟨-, heq⟩ | ⟨hneeds, -⟩
    · rw [refreshOf_stays h.stays] at heq
      exact ⟨(congrArg Prod.fst heq).symm, (congrArg Prod.snd heq).symm⟩
    · rw [hset] at hneeds
      cases hneeds
  refine ⟨?_, h.inTime, Or.inl h.ok, fun cfg refreshed hl _ => ?_⟩
  · rcases cycle_works H d c with ⟨-, herr, -⟩ | ⟨cfg, refreshed, list, hworks⟩
    · exact absurd h.ok herr
    · obtain ⟨rfl, rfl⟩ := honly hworks.located
      exact ⟨list, hworks⟩
  · rw [(honly hl).1]
    exact .refl _ _

theorem CalmRun.cycle (hr : CalmRun H base d) (hset : configLocationNeedsDetect base = false)
    (h : Calm H base d c) : CalmRun H base (step H d (.cycle c)) := by
  obtain ⟨⟨list, hworks⟩, hsteady⟩ := h.works hr.loads hset
  refine ⟨?_, hr.listed.cycle hworks trivial hsteady h.ok
    (noZeroReminder (configLoad_inRange hr.loads)), hr.genuine.cycle hworks trivial hsteady⟩
  rcases hworks.stored with ⟨hc, -⟩ | ⟨-, hr' | ⟨cfg, hcfg, hneeds⟩⟩ | ⟨hr', -⟩
  · exact (congrArg (configLoad · true) hc).trans hr.loads
  · cases hr'
  · obtain rfl := Option.some.inj (hr.loads.symm.trans hcfg)
    rw [hset] at hneeds
    cases hneeds
  · cases hr'

/-- After any calm run, an adhan that came since the last cycle and is at most 15
minutes past is announced by the next cycle if and only if that cycle is on the
calendar day of the adhan's minute, which is at most a day from its date. -/
theorem caught_up_iff_same_day (hs : Starts (fun _ => True) d)
    (hload : configLoad d.disk.config true = some base)
    (hset : configLocationNeedsDetect base = false)
    (hrun : Along (step H) (AllCalm H base) d jobs) (h : Calm H base (runJobs H d jobs) c)
    (o : Occurrence H base) (hbefore : (runJobs H d jobs).clock < o.minute)
    (hsince : o.minute ≤ c.now.moment) (hlate : c.now.moment ≤ o.minute + catchupMaxMin) :
    (∃ x ∈ notices (report H (runJobs H d jobs) c).trace, stands o 0 (c.now.day, x.1) = true) ↔
      o.minute / 1440 = c.now.day ∧ o.day - c.now.day ∈ dayDeltas := by
  have hr : CalmRun H base (runJobs H d jobs) := by
    refine hrun.invariant (CalmRun H base) (fun d j hr hok => ?_)
      ⟨hload, hs.waiting _, hs.genuine⟩
    cases j with
    | cycle c => exact hr.cycle hset hok
    | save cfg inputs => exact hok.elim
  obtain ⟨⟨list, hworks⟩, hsteady⟩ := h.works hr.loads hset
  have hnotices : notices (report H (runJobs H d jobs) c).trace =
      (due c.now.currentMin list).map fun t => (t, announcement base c.now.currentMin t) := by
    rcases hworks.notices with ⟨hn, -⟩ | ⟨-, herr⟩
    · exact hn
    · rw [h.ok] at herr
      cases herr
  rw [hnotices]
  constructor
  · rintro ⟨x, hx, hst⟩
    obtain ⟨t, ht, rfl⟩ := List.mem_map.mp hx
    have ht := List.mem_of_mem_filter ht
    have hrange := (hworks.inRange t ht).minute
    have hminute := (Occurrence.isTrigger_iff.mp hst).2.2.2
    dsimp only at hminute
    exact ⟨by omega, (hworks.genuine hr.genuine trivial hsteady t ht).near o 0 hst⟩
  · rintro ⟨hday, hnear⟩
    have hlist := hworks.lists hr.listed trivial hsteady
      (noZeroReminder (configLoad_inRange hr.loads)) hnear hbefore (by omega) (by omega) hlate
      (by simp)
    obtain ⟨t, ht, hst⟩ := List.countP_pos_iff.mp hlist
    obtain ⟨-, hzero, -, hminute⟩ := Occurrence.isTrigger_iff.mp hst
    rw [LocalTime.moment] at hsince hlate
    dsimp only at hzero hminute
    have hdue : isDue c.now.currentMin t = true := isDue_iff.mpr ⟨by omega, by omega, by omega⟩
    exact ⟨_, List.mem_map_of_mem (List.mem_filter.mpr ⟨ht, hdue⟩), hst⟩

theorem calm_june {d : Daemon} {now : LocalTime}
    (hok : (report (steadyHost juneTimes) d (juneCycle now)).result.error = .ok)
    (hclock : d.clock ≤ now.moment) : Calm (steadyHost juneTimes) juneConfig d (juneCycle now) where
  inTime := hclock
  ok := hok
  stays := congrArg Prod.snd (refreshOf_june _ _)

/-- A cycle at 23:53 and one at 23:58. -/
theorem caught_up_june :
    ∃ x ∈ notices (report (steadyHost juneTimes) (runJobs (steadyHost juneTimes) juneStart
      [.cycle (juneCycle (juneTime 20621 23 53))]) (juneCycle (juneTime 20621 23 58))).trace,
      stands juneFajr 0 (20621, x.1) = true := by
  obtain ⟨hfirst, hsecond⟩ :
      (report (steadyHost juneTimes) juneStart
        (juneCycle (juneTime 20621 23 53))).result.error = .ok ∧
      (report (steadyHost juneTimes) (runJobs (steadyHost juneTimes) juneStart
        [.cycle (juneCycle (juneTime 20621 23 53))])
          (juneCycle (juneTime 20621 23 58))).result.error = .ok := by
    decide +kernel
  have hrun : Along (DaemonRuns.step (steadyHost juneTimes))
      (AllCalm (steadyHost juneTimes) juneConfig) juneStart
      [.cycle (juneCycle (juneTime 20621 23 53))] :=
    ⟨calm_june hfirst (by decide), trivial⟩
  exact (caught_up_iff_same_day (juneStart_starts _) configLoad_june (by decide +kernel) hrun
    (calm_june hsecond (by decide)) juneFajr (by decide +kernel) (by decide +kernel)
    (by decide +kernel)).mpr ⟨by decide +kernel, by decide⟩

/-- A cycle at 23:53 and one at 00:02, eight minutes after fajr, which is lost. -/
theorem fajr_lost_over_midnight :
    AllCalm (steadyHost juneTimes) juneConfig juneStart (.cycle (juneCycle (juneTime 20621 23 53))) ∧
      Calm (steadyHost juneTimes) juneConfig (runJobs (steadyHost juneTimes) juneStart
        [.cycle (juneCycle (juneTime 20621 23 53))]) (juneCycle (juneTime 20622 0 2)) ∧
      (juneTime 20621 23 53).moment < juneFajr.minute ∧
      juneFajr.minute ≤ (juneTime 20622 0 2).moment ∧
      (juneTime 20622 0 2).moment ≤ juneFajr.minute + catchupMaxMin ∧
      ∀ x ∈ notices (report (steadyHost juneTimes) (runJobs (steadyHost juneTimes) juneStart
        [.cycle (juneCycle (juneTime 20621 23 53))]) (juneCycle (juneTime 20622 0 2))).trace,
        stands juneFajr 0 (20622, x.1) = false := by
  obtain ⟨hfirst, hsecond, hlost⟩ :
      (report (steadyHost juneTimes) juneStart
        (juneCycle (juneTime 20621 23 53))).result.error = .ok ∧
      (report (steadyHost juneTimes) (runJobs (steadyHost juneTimes) juneStart
        [.cycle (juneCycle (juneTime 20621 23 53))])
          (juneCycle (juneTime 20622 0 2))).result.error = .ok ∧
      ∀ x ∈ notices (report (steadyHost juneTimes) (runJobs (steadyHost juneTimes) juneStart
        [.cycle (juneCycle (juneTime 20621 23 53))]) (juneCycle (juneTime 20622 0 2))).trace,
        stands juneFajr 0 (20622, x.1) = false := by
    decide +kernel
  exact ⟨calm_june hfirst (by decide), calm_june hsecond (by decide), by decide +kernel,
    by decide +kernel, by decide +kernel, hlost⟩

end Midnight

section Remainder
variable {H : Host} {base cfg : Config} {d : Daemon} {c : CycleJob} {refreshed : Bool}
  {list : PrayerCache}

/-- The settings in the file have the prayers of `base`. -/
def PrayersOf (base : Config) (file : Option CString) : Prop :=
  ∃ cfg, configLoad file true = some cfg ∧ ∀ p, prayerGetConfig cfg p = prayerGetConfig base p

theorem located_prayers {file : Option CString} {e : ℕ → Input} {nowEpoch retryAt : ℤ}
    (h : CycleRun.located file e nowEpoch retryAt = some (cfg, refreshed))
    (hfile : PrayersOf base file) (p : PrayerType) :
    prayerGetConfig cfg p = prayerGetConfig base p := by
  obtain ⟨loaded, hload, hprayers⟩ := hfile
  obtain ⟨other, hother, hcases⟩ := located_cases h
  obtain rfl := Option.some.inj (hload.symm.trans (configLoad_open hother))
  rcases hcases with ⟨-, hfound⟩ | ⟨-, -, found, detection, hdetect, hfound⟩
  · have hsame := refreshOf_prayers loaded nowEpoch retryAt (e 1).lookups p
    rw [hfound] at hsame
    exact hsame.trans (hprayers p)
  · have hsame := refreshOf_prayers found nowEpoch retryAt (e 3).lookups p
    rw [hfound] at hsame
    exact (hsame.trans (muslimtifyDetectLocationWith_prayers hdetect p)).trans (hprayers p)

/-- A cycle that ends without an error, stores a location it has found, and works
under the prayer times of `base`, also after a refresh. -/
structure Quiet (H : Host) (base : Config) (d : Daemon) (c : CycleJob) : Prop where
  inTime : d.clock ≤ c.now.moment
  ok : (report H d c).result.error = .ok
  written : ¬Failed isConfigWrite (report H d c).trace
  times : ∀ cfg refreshed,
    CycleRun.located d.disk.config c.inputs c.nowEpoch d.retryAt = some (cfg, refreshed) →
    ∀ e, timesOfDay H cfg e = timesOfDay H base e

/-- The steps of a run of such cycles. -/
def AllQuiet (H : Host) (base : Config) (d : Daemon) : Job → Prop
  | .cycle c => Quiet H base d c
  | .save _ _ => False

/-- The triggers of a day, as the cache file tells them apart. -/
def dayTriggers (H : Host) (base : Config) (day : ℤ) : List CacheTrigger :=
  (builtTriggers H base day 0).map storedTrigger

/-- The trigger comes after the last cycle. -/
def comes (d : Daemon) (day : ℤ) (t : CacheTrigger) : Bool := d.clock < 1440 * day + t.minute

/-- What holds throughout such a run: the list of the day in the cache file is what
comes after the last cycle. -/
structure QuietRun (H : Host) (base : Config) (day : ℤ) (d : Daemon) : Prop where
  prayers : PrayersOf base d.disk.config
  remainder : Waiting (· = day) d fun day cache =>
    (cache.triggers.items.map storedTrigger).Perm ((dayTriggers H base day).filter (comes d day))

/-- With room for the whole day a list built in minute `m` lacks what has expired by then. -/
theorem builtTriggers_late (m : ℤ) {day : ℤ}
    (hroom : (dayCandidates H base day 0).length ≤ maxTriggers) :
    (builtTriggers H base day m).Perm ((builtTriggers H base day 0).filter (inReach m)) :=
  built_late H .zero (timesOfDay H base day) day (by rwa [sourceTimes_timesOfDay])

/-- A filter that sees of a trigger what the file keeps comes before or after the file. -/
theorem filter_stored {p : CacheTrigger → Bool} (hp : ∀ t, p (storedTrigger t) = p t)
    (l : List CacheTrigger) :
    (l.map storedTrigger).filter p = (l.filter p).map storedTrigger := by
  rw [List.filter_map]
  exact congrArg (List.map storedTrigger) (List.filter_congr fun t _ => hp t)

/-- What a filter lets through of a list built in minute `m` it lets through of the day. -/
theorem filter_built (hprayers : ∀ p, prayerGetConfig cfg p = prayerGetConfig base p)
    (htimes : ∀ e, timesOfDay H cfg e = timesOfDay H base e) {day m : ℤ}
    (hroom : (dayCandidates H base day 0).length ≤ maxTriggers) {p : CacheTrigger → Bool}
    (hp : ∀ t, p (storedTrigger t) = p t) (hreach : ∀ t, p t = true → inReach m t = true) :
    (((builtTriggers H cfg day m).filter p).map storedTrigger).Perm
      ((dayTriggers H base day).filter p) := by
  rw [builtTriggers_congr H hprayers htimes, dayTriggers, filter_stored hp]
  exact (filter_late hreach (builtTriggers_late m hroom)).map _

/-- After a cycle its list holds what comes after it. -/
theorem works_remainder (h : Works H d c cfg refreshed list) (hr : QuietRun H base c.now.day d)
    (hq : Quiet H base d c) (hroom : (dayCandidates H base c.now.day 0).length ≤ maxTriggers) :
    ((keepAhead c.now.currentMin list).triggers.items.map storedTrigger).Perm
      ((dayTriggers H base c.now.day).filter (isAhead c.now.currentMin)) := by
  have hrange := c.now.currentMin_range
  have htime := hq.inTime
  rw [LocalTime.moment] at htime
  have hstored : ∀ t, isAhead c.now.currentMin (storedTrigger t) = isAhead c.now.currentMin t :=
    fun _ => rfl
  rw [keepAhead, FixedArray.keep_items]
  rcases h.origin with ⟨-, hload⟩ | ⟨-, hitems⟩
  · rw [← filter_stored hstored]
    refine ((hr.remainder _ _ rfl hload h.today (by omega)).filter _).trans (.of_eq ?_)
    rw [List.filter_filter]
    refine List.filter_congr fun t _ => ?_
    rw [Bool.eq_iff_iff, Bool.and_eq_true, isAhead_iff, comes, decide_eq_true_eq]
    omega
  · have hahead : list.triggers.items.filter (isAhead c.now.currentMin) =
        (builtTriggers H cfg c.now.day c.now.currentMin).filter (isAhead c.now.currentMin) := by
      rw [hitems, List.filter_filter]
      refine List.filter_congr fun t _ => ?_
      rw [Bool.eq_iff_iff, Bool.and_eq_true, isAhead_iff, Bool.or_eq_true, decide_eq_true_eq]
      omega
    rw [hahead]
    exact filter_built (located_prayers h.located hr.prayers) (hq.times _ _ h.located) hroom hstored
      fun _ => inReach_of_ahead

theorem QuietRun.cycle {day : ℤ} (hr : QuietRun H base day d)
    (hroom : (dayCandidates H base day 0).length ≤ maxTriggers) (hq : Quiet H base d c) :
    QuietRun H base day (step H d (.cycle c)) := by
  rcases cycle_works H d c with ⟨-, herr, -⟩ | ⟨cfg, refreshed, list, hworks⟩
  · exact absurd hq.ok herr
  refine ⟨?_, fun cache e he hc hdate _ => ?_⟩
  · have hprayers := located_prayers hworks.located hr.prayers
    rcases hworks.stored with ⟨hc, -⟩ | ⟨hc, -⟩ | ⟨-, hf⟩
    · obtain ⟨loaded, hload, hsame⟩ := hr.prayers
      exact ⟨loaded, (congrArg (configLoad · true) hc).trans hload, hsame⟩
    · exact ⟨_, (congrArg (configLoad · true) hc).trans
        (configLoad_configText (located_inRange hworks.located)),
        fun p => (storedConfig_prayers cfg p).trans (hprayers p)⟩
    · exact absurd hf hq.written
  · obtain ⟨other, ho, htoday, hitems⟩ := hworks.cached hq.ok
    obtain rfl := Option.some.inj (ho.symm.trans hc)
    obtain rfl : e = c.now.day := today_injective (htoday.symm.trans hdate)
    subst he
    rw [hitems]
    refine (works_remainder hworks hr hq hroom).trans (.of_eq (List.filter_congr fun t _ => ?_))
    have hclock : (step H d (.cycle c)).clock = c.now.moment := rfl
    rw [Bool.eq_iff_iff, isAhead_iff, comes, decide_eq_true_eq, hclock, LocalTime.moment]
    omega

end Remainder

section Refresh
variable {H : Host} {base cfg found : Config} {start d : Daemon} {c c' : CycleJob}
  {jobs : List Job}

/-- The triggers a cycle announces, as the cache file would tell them apart. -/
def announced (H : Host) (d : Daemon) (c : CycleJob) : List CacheTrigger :=
  (notices (report H d c).trace).map fun x => storedTrigger x.1

theorem announced_works {cfg : Config} {refreshed : Bool} {list : PrayerCache}
    (h : Works H d c cfg refreshed list) (hok : (report H d c).result.error = .ok) :
    announced H d c = (due c.now.currentMin list).map storedTrigger := by
  rcases h.notices with ⟨hn, -⟩ | ⟨-, herr⟩
  · rw [announced, hn]
    simp [Function.comp_def]
  · rw [hok] at herr
    cases herr

/-- Without a refresh a cycle announces what is due of the saved triggers. -/
theorem announced_plain (hworks : ∀ n, (c.inputs n).works = true)
    (hload : configLoad d.disk.config true = some cfg)
    (hset : configLocationNeedsDetect cfg = false) (hvalid : ValidFor d.disk.cache c.now)
    (hstay : (refreshOf cfg c.nowEpoch d.retryAt (c.inputs 1).lookups).2 = false) :
    ∃ list, cacheLoad d.disk.cache true = some list ∧ list.date.text = c.now.today ∧
      announced H d c = (list.triggers.items.filter (isDue c.now.currentMin)).map storedTrigger := by
  obtain ⟨list, hw, hok, hfail⟩ := cycle_without_failure (H := H) hworks hload hset
  rw [announced_works hw hok]
  rcases hw.origin with ⟨-, hlist⟩ | ⟨hr | hf | hinvalid, -⟩
  · exact ⟨list, hlist, hw.today, by rw [due, FixedArray.keep_items]⟩
  · rw [hstay] at hr
    cases hr
  · exact absurd hf (hfail _)
  · exact absurd hvalid hinvalid

/-- After a quiet run that is what comes after the last cycle and is due. -/
theorem QuietRun.plain (hr : QuietRun H base c.now.day d)
    (hclock : d.clock < 1440 * c.now.day + 1440) (hworks : ∀ n, (c.inputs n).works = true)
    (hload : configLoad d.disk.config true = some cfg)
    (hset : configLocationNeedsDetect cfg = false) (hvalid : ValidFor d.disk.cache c.now)
    (hstay : (refreshOf cfg c.nowEpoch d.retryAt (c.inputs 1).lookups).2 = false) :
    (announced H d c).Perm ((dayTriggers H base c.now.day).filter fun t =>
      comes d c.now.day t && isDue c.now.currentMin t) := by
  obtain ⟨list, hlist, htoday, hsaid⟩ := announced_plain (H := H) hworks hload hset hvalid hstay
  have hremains := (hr.remainder list c.now.day rfl hlist htoday hclock).filter
    (isDue c.now.currentMin)
  rw [hsaid, ← filter_stored fun _ => rfl]
  refine hremains.trans (.of_eq ?_)
  rw [List.filter_filter]
  exact List.filter_congr fun t _ => Bool.and_comm _ _

/-- A list built after a refresh has nothing of an earlier minute. -/
theorem due_of_ahead_or_now {m : ℤ} (l : List CacheTrigger) :
    (l.filter fun t => decide (m ≤ t.minute)).filter (isDue m) =
      l.filter fun t => decide (t.minute = m) := by
  rw [List.filter_filter]
  refine List.filter_congr fun t _ => ?_
  rw [Bool.eq_iff_iff, Bool.and_eq_true, isDue_iff, decide_eq_true_eq, decide_eq_true_eq,
    catchupMaxMin]
  omega

/-- With a refresh that finds the same prayer times a cycle announces what the
settings ask for in its minute. -/
theorem announced_refreshing (hworks : ∀ n, (c.inputs n).works = true)
    (hload : configLoad d.disk.config true = some cfg)
    (hset : configLocationNeedsDetect cfg = false)
    (hprayers : ∀ p, prayerGetConfig cfg p = prayerGetConfig base p)
    (hroom : (dayCandidates H base c.now.day 0).length ≤ maxTriggers)
    (hfound : refreshOf cfg c.nowEpoch d.retryAt (c.inputs 1).lookups = (found, true))
    (htimes : ∀ e, timesOfDay H found e = timesOfDay H base e) :
    (announced H d c).Perm ((dayTriggers H base c.now.day).filter
      fun t => decide (t.minute = c.now.currentMin)) := by
  obtain ⟨list, hw, hok, -⟩ := cycle_without_failure (H := H) hworks hload hset
  have hsame := refreshOf_prayers cfg c.nowEpoch d.retryAt (c.inputs 1).lookups
  rw [hfound] at hw hsame
  rw [announced_works hw hok, due, FixedArray.keep_items]
  rcases hw.origin with ⟨hr, -⟩ | ⟨-, hlist⟩
  · cases hr
  · simp only [Bool.not_true, Bool.false_or] at hlist
    rw [hlist, due_of_ahead_or_now]
    refine filter_built (fun p => (hsame p).trans (hprayers p)) htimes hroom (fun _ => rfl) ?_
    intro t ht
    have hwindow : catchupMaxMin = 15 := rfl
    simp only [inReach, decide_eq_true_eq] at ht ⊢
    omega

theorem filter_perm_filter {α : Type} {p q : α → Bool} {l : List α} :
    (l.filter p).Perm (l.filter q) ↔ ∀ x ∈ l, p x = q x := by
  refine ⟨fun h x hx => ?_, fun h => .of_eq (List.filter_congr h)⟩
  have hmem := h.mem_iff (a := x)
  simp only [List.mem_filter, hx, true_and] at hmem
  exact Bool.eq_iff_iff.mpr hmem

/-- The settings ask for an announcement on this day, `r` minutes ahead of the occurrence. -/
structure AskedOn (day : ℤ) (o : Occurrence H base) (r : ℤ) : Prop where
  asked : r = 0 ∨ r ∈ remindersOf base o.prayer
  near : o.day - day ∈ dayDeltas
  begun : 1440 * day ≤ o.minute - r
  notOver : o.minute - r < 1440 * day + 1440

/-- It has come, it is at most 15 minutes late, and what it announces is still ahead. -/
structure DueAt (moment : ℤ) (o : Occurrence H base) (r : ℤ) : Prop where
  come : o.minute - r ≤ moment
  inTime : moment ≤ o.minute - r + catchupMaxMin
  ahead : 0 < r → moment < o.minute

/-- The triggers of a day are the announcements the settings ask for. -/
theorem mem_dayTriggers {day : ℤ} {t : CacheTrigger} (ht : t ∈ dayTriggers H base day) :
    ∃ (o : Occurrence H base) (r : ℤ), AskedOn day o r ∧ t.minutesBefore = r ∧
      1440 * day + t.minute = o.minute - r := by
  obtain ⟨u, hu, rfl⟩ := List.mem_map.mp ht
  obtain ⟨o, r, hr, hon, hst⟩ := mem_builtTriggers hu
  obtain ⟨-, hbefore, -, hminute⟩ := Occurrence.isTrigger_iff.mp (hst id)
  have hnear := builtTriggers_near tells_id hu (hst id)
  obtain ⟨h₀, h₁⟩ := (onDay_zero u.minute).mp hon
  exact ⟨o, r, ⟨hr, hnear, by omega, by omega⟩, hbefore, hminute⟩

theorem AskedOn.trigger {day : ℤ} {o : Occurrence H base} {r : ℤ} (h : AskedOn day o r)
    (hroom : (dayCandidates H base day 0).length ≤ maxTriggers) :
    ∃ t ∈ dayTriggers H base day, t.minutesBefore = r ∧
      1440 * day + t.minute = o.minute - r := by
  have hcount := dayCandidates_count tells_id o r day 0
  have hon : onDay (o.minute - r - 1440 * day) 0 = true := by
    rw [onDay_zero]
    have := h.begun
    have := h.notOver
    omega
  have hpos : 0 < [0].count r + (remindersOf base o.prayer).count r := by
    rcases h.asked with rfl | hr
    · simp
    · have := List.count_pos_iff.mpr hr
      omega
  rw [if_pos ⟨h.near, hon⟩] at hcount
  obtain ⟨t, ht, hst⟩ := List.countP_pos_iff.mp (hcount ▸ hpos)
  have hbuilt : t ∈ builtTriggers H base day 0 := by
    rw [(builtTriggers_perm H base day 0).mem_iff, List.take_of_length_le hroom]
    exact ht
  obtain ⟨-, hbefore, -, hminute⟩ := Occurrence.isTrigger_iff.mp hst
  exact ⟨_, List.mem_map_of_mem hbuilt, hbefore, hminute⟩

/-- A cycle that refreshes to the same prayer times announces what a cycle without a
refresh announces if and only if whatever is due was due by the last cycle when its
minute is past, and was not when its minute is this one: no announcement is late, and
no cycle of this minute has been before. -/
theorem refresh_announces_same_iff (hs : Starts (· = c.now.day) start)
    (hbase : PrayersOf base start.disk.config)
    (hrun : Along (step H) (AllQuiet H base) start jobs) (hd : runJobs H start jobs = d)
    (hclock : d.clock < 1440 * c.now.day + 1440)
    (hroom : (dayCandidates H base c.now.day 0).length ≤ maxTriggers) (hnow : c'.now = c.now)
    (hworks : ∀ n, (c.inputs n).works = true) (hworks' : ∀ n, (c'.inputs n).works = true)
    (hload : configLoad d.disk.config true = some cfg)
    (hset : configLocationNeedsDetect cfg = false) (hvalid : ValidFor d.disk.cache c.now)
    (hstay : (refreshOf cfg c.nowEpoch d.retryAt (c.inputs 1).lookups).2 = false)
    (hfound : refreshOf cfg c'.nowEpoch d.retryAt (c'.inputs 1).lookups = (found, true))
    (htimes : ∀ e, timesOfDay H found e = timesOfDay H base e) :
    (announced H d c').Perm (announced H d c) ↔
      ∀ (o : Occurrence H base) (r : ℤ), AskedOn c.now.day o r → DueAt c.now.moment o r →
        (o.minute - r ≤ d.clock ↔ o.minute - r < c.now.moment) := by
  have hr : QuietRun H base c.now.day d := by
    rw [← hd]
    refine hrun.invariant (QuietRun H base c.now.day) (fun d j hr hok => ?_)
      ⟨hbase, hs.waiting _⟩
    cases j with
    | cycle c => exact hr.cycle hroom hok
    | save cfg inputs => exact hok.elim
  obtain ⟨loaded, hloaded, hprayers⟩ := hr.prayers
  obtain rfl := Option.some.inj (hload.symm.trans hloaded)
  have hplain := hr.plain hclock hworks hload hset hvalid hstay
  have hfresh := announced_refreshing (H := H) hworks' hload hset hprayers (by rwa [hnow]) hfound
    htimes
  rw [hnow] at hfresh
  rw [hfresh.congr_left, hplain.congr_right, filter_perm_filter]
  have hwindow : catchupMaxMin = 15 := rfl
  have hmoment : c.now.moment = 1440 * c.now.day + c.now.currentMin := rfl
  constructor
  · intro hall o r hasked hdue
    obtain ⟨t, ht, hbefore, hminute⟩ := hasked.trigger hroom
    have hsame := Bool.eq_iff_iff.mp (hall t ht)
    have hcome := hdue.come
    have hlate := hdue.inTime
    have hahead := hdue.ahead
    rw [Bool.and_eq_true, isDue_iff, comes, decide_eq_true_eq, decide_eq_true_eq] at hsame
    omega
  · intro hall t ht
    obtain ⟨o, r, hasked, hbefore, hminute⟩ := mem_dayTriggers ht
    rw [Bool.eq_iff_iff, Bool.and_eq_true, isDue_iff, comes, decide_eq_true_eq, decide_eq_true_eq]
    have hcases := fun h₀ h₁ h₂ => hall o r hasked ⟨h₀, h₁, h₂⟩
    omega

/-- The cycle of a minute at which the location is stale and found again. -/
def juneRefresh (now : LocalTime) : CycleJob :=
  ⟨now, locationDefaultRefreshSeconds, fun _ => juneInput⟩

theorem refreshOf_juneRefresh :
    refreshOf juneConfig locationDefaultRefreshSeconds 0 juneInput.lookups = (juneConfig, true) := by
  decide +kernel

theorem validFor_of_date {file : Option CString} {now : LocalTime}
    (h : (cacheLoad file true).map (fun cache => cache.date.text) = some now.today) :
    ValidFor file now :=
  Option.map_eq_some_iff.mp h

/-- The state after a cycle at 23:53. -/
def juneLate : Daemon :=
  runJobs (steadyHost juneTimes) juneStart [.cycle (juneCycle (juneTime 20621 23 53))]

theorem quiet_june {d : Daemon} {now : LocalTime}
    (hconfig : configLoad d.disk.config true = some juneConfig)
    (hok : (report (steadyHost juneTimes) d (juneCycle now)).result.error = .ok)
    (hclock : d.clock ≤ now.moment) :
    Quiet (steadyHost juneTimes) juneConfig d (juneCycle now) where
  inTime := hclock
  ok := hok
  written := not_failed_run (fun _ => rfl) (fun ⟨_, hev, _⟩ => by cases hev) _ _
  times cfg refreshed hl e := by rw [(located_june hconfig hl).1]

theorem juneLate_quiet : Along (DaemonRuns.step (steadyHost juneTimes))
    (AllQuiet (steadyHost juneTimes) juneConfig) juneStart
    [.cycle (juneCycle (juneTime 20621 23 53))] :=
  ⟨quiet_june configLoad_june (by decide +kernel) (by decide), trivial⟩

theorem june_fits :
    (dayCandidates (steadyHost juneTimes) juneConfig 20621 0).length ≤ maxTriggers := by
  have hdays : (fun δ => timesOfDay (steadyHost juneTimes) juneConfig (20621 + δ)) =
      fun _ => juneTimes := funext fun δ => timesOfDay_june _
  rw [dayCandidates, hdays]
  decide +kernel

/-- At 23:54, a minute later, fajr is announced with and without a refresh. -/
theorem refresh_announces_same_june :
    (announced (steadyHost juneTimes) juneLate (juneRefresh (juneTime 20621 23 54))).Perm
        (announced (steadyHost juneTimes) juneLate (juneCycle (juneTime 20621 23 54))) ∧
      ValidFor juneLate.disk.cache (juneTime 20621 23 54) := by
  obtain ⟨hload, hdate, hretry⟩ : configLoad juneLate.disk.config true = some juneConfig ∧
      (cacheLoad juneLate.disk.cache true).map (fun cache => cache.date.text) =
        some (juneTime 20621 23 54).today ∧
      juneLate.retryAt = 0 := by
    decide +kernel
  have hvalid : ValidFor juneLate.disk.cache (juneCycle (juneTime 20621 23 54)).now :=
    validFor_of_date hdate
  have hfound : refreshOf juneConfig (juneRefresh (juneTime 20621 23 54)).nowEpoch juneLate.retryAt
      ((juneRefresh (juneTime 20621 23 54)).inputs 1).lookups = (juneConfig, true) := by
    rw [hretry]
    exact refreshOf_juneRefresh
  have hstay : (refreshOf juneConfig (juneCycle (juneTime 20621 23 54)).nowEpoch juneLate.retryAt
      ((juneCycle (juneTime 20621 23 54)).inputs 1).lookups).2 = false :=
    congrArg Prod.snd (refreshOf_june _ _)
  have hnow : (juneRefresh (juneTime 20621 23 54)).now = (juneCycle (juneTime 20621 23 54)).now :=
    rfl
  have hbase : PrayersOf juneConfig juneStart.disk.config := ⟨_, configLoad_june, fun _ => rfl⟩
  have hday : juneLate.clock = (juneTime 20621 23 53).moment := rfl
  have hlast : juneLate.clock + 1 = (juneCycle (juneTime 20621 23 54)).now.moment := by
    rw [hday]
    decide
  have hclock : juneLate.clock < 1440 * (juneCycle (juneTime 20621 23 54)).now.day + 1440 := by
    rw [hday]
    decide
  have hset : configLocationNeedsDetect juneConfig = false := by decide +kernel
  refine ⟨(refresh_announces_same_iff (juneStart_starts _) hbase juneLate_quiet rfl hclock
    june_fits hnow (fun _ => rfl) (fun _ => rfl) hload hset hvalid hstay hfound
    fun _ => rfl).mpr fun o r _ _ => ?_, hvalid⟩
  rw [← hlast]
  exact Int.lt_add_one_iff.symm

/-- At 23:58 fajr is four minutes past. With the location not stale a cycle
announces it, and with a refresh that finds the same place it does not. -/
theorem refresh_loses_fajr :
    ValidFor juneLate.disk.cache (juneTime 20621 23 58) ∧
      refreshOf juneConfig locationDefaultRefreshSeconds juneLate.retryAt juneInput.lookups =
        (juneConfig, true) ∧
      (announced (steadyHost juneTimes) juneLate (juneCycle (juneTime 20621 23 58))).countP
          (fun t => stands juneFajr 0 (20621, t)) = 1 ∧
      (announced (steadyHost juneTimes) juneLate (juneRefresh (juneTime 20621 23 58))).countP
          (fun t => stands juneFajr 0 (20621, t)) = 0 :=
  ⟨validFor_of_date (by decide +kernel), by decide +kernel⟩

end Refresh

end Muslimtify.CatchUp
