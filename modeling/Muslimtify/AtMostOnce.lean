import Muslimtify.DaemonRuns

/-!
# Announced at most once

Two kinds of runs. In the cycles of one day, with refreshes that change nothing,
no trigger is announced more often than it is asked for, and every adhan with a
cycle in time is announced exactly once. With saves by other processes between
the cycles the same bound holds as long as no list that is built anew has a
trigger due that was announced already: a save deletes the only record of that.
-/
namespace Muslimtify.AtMostOnce
open CText CDouble CivilDays Settings ConfigFile ConfigRoundTrip Schedule TriggerCache
open TriggerPartition CacheFile CacheRoundTrip Detection Program DaemonCycle SettingsSave CycleRun
open DaemonRuns

section Allowances
variable {base : Config}

theorem allowance_exact (hz : NoZeroReminder base) (p : PrayerType) : allowance base p 0 = 1 := by
  rw [allowance, List.count_eq_zero_of_not_mem (hz p)]
  rfl

theorem allowance_reminder {r : ℤ} (hr : r ≠ 0) (p : PrayerType) :
    allowance base p r = (remindersOf base p).count r := by
  rw [allowance, List.count_eq_zero_of_not_mem (by simpa using hr), Nat.zero_add]

theorem noZeroReminder (h : base.InRange) : NoZeroReminder base := fun p hp => by
  have := (h.prayers p).reminders 0 hp
  omega

/-- No prayer is announced twice and no reminder more often than its list holds it. -/
def AsAsked (H : Host) (base : Config) (said : List (ℤ × CacheTrigger)) : Prop :=
  ∀ o : Occurrence H base, said.countP (stands o 0) ≤ 1 ∧
    ∀ r ≠ 0, said.countP (stands o r) ≤ (remindersOf base o.prayer).count r

theorem Bounded.asAsked {H : Host} {span : ℤ → Prop} {d : Daemon} (hb : Bounded H base span d)
    (hbase : base.InRange) : AsAsked H base d.said := by
  refine fun o => ⟨?_, fun r hr => ?_⟩
  · rw [← allowance_exact (noZeroReminder hbase) o.prayer]
    exact hb.said o 0
  · rw [← allowance_reminder hr o.prayer]
    exact hb.said o r

end Allowances

section OneDay
variable {H : Host} {base : Config} {day : ℤ} {d : Daemon} {c : CycleJob} {jobs : List Job}

/-- A cycle of the day in which everything works. The location is set, and the
settings it works under have the prayer times of `base`, also after a refresh,
which comes in a later minute than the cycle before. -/
structure OnDay (H : Host) (base : Config) (day : ℤ) (d : Daemon) (c : CycleJob) : Prop where
  works : ∀ n, (c.inputs n).works = true
  today : c.now.day = day
  inTime : d.clock ≤ c.now.moment
  set : ∀ cfg, configLoad d.disk.config true = some cfg → configLocationNeedsDetect cfg = false
  times : ∀ cfg, configLoad d.disk.config true = some cfg → ∀ e,
    timesOfDay H (refreshOf cfg c.nowEpoch d.retryAt (c.inputs 1).lookups).1 e = timesOfDay H base e
  later : ∀ cfg, configLoad d.disk.config true = some cfg →
    (refreshOf cfg c.nowEpoch d.retryAt (c.inputs 1).lookups).2 = true → d.clock < c.now.moment

/-- The steps of a run of one day: cycles only. -/
def OneDay (H : Host) (base : Config) (day : ℤ) (d : Daemon) : Job → Prop
  | .cycle c => OnDay H base day d c
  | .save _ _ => False

/-- The step does not find a new location. -/
def Stays (d : Daemon) : Job → Prop
  | .cycle c => ∀ cfg, configLoad d.disk.config true = some cfg →
      (refreshOf cfg c.nowEpoch d.retryAt (c.inputs 1).lookups).2 = false
  | .save _ _ => False

/-- What holds throughout the run of a day. -/
structure DayRun (H : Host) (base : Config) (day : ℤ) (d : Daemon) : Prop where
  loads : ∃ cfg, configLoad d.disk.config true = some cfg ∧
    ∀ p, prayerGetConfig cfg p = prayerGetConfig base p
  bounded : Bounded H base (· = day) d
  listed : Listed H base (· = day) d
  genuine : Genuine H base (· = day) d
  dated : d.past ≠ [] → ∃ cache, cacheLoad d.disk.cache true = some cache ∧
    cache.date.text = dateText (mtCivilFromDays day)
  clocked : d.clock < 1440 * day ∨ ∃ r ∈ d.past, r.now.moment = d.clock
  onTime : ∀ r ∈ d.past, ∀ x ∈ notices r.trace, OnTime r.now.currentMin x.1 x.2

/-- Everything a cycle of the day comes with. -/
theorem OnDay.ready (h : OnDay H base day d c) (hr : DayRun H base day d) :
    ∃ cfg list, configLoad d.disk.config true = some cfg ∧
      Works H d c (refreshOf cfg c.nowEpoch d.retryAt (c.inputs 1).lookups).1
        (refreshOf cfg c.nowEpoch d.retryAt (c.inputs 1).lookups).2 list ∧
      (report H d c).result.error = .ok ∧ (∀ kind, ¬Failed kind (report H d c).trace) ∧
      SameSchedule H (refreshOf cfg c.nowEpoch d.retryAt (c.inputs 1).lookups).1 base ∧
      Steady H base d c ∧ NoneDueAgain H d c := by
  obtain ⟨cfg, hload, hprayers⟩ := hr.loads
  obtain ⟨list, hworks, hok, hfail⟩ := cycle_without_failure (H := H) h.works hload (h.set cfg hload)
  have hsame : SameSchedule H (refreshOf cfg c.nowEpoch d.retryAt (c.inputs 1).lookups).1 base :=
    ⟨h.times cfg hload, fun p => by simp [prayerIsEnabled, refreshOf_prayers, hprayers],
      fun p => by simp [remindersOf, refreshOf_prayers, hprayers]⟩
  have honly : ∀ {cfg' refreshed}, CycleRun.located d.disk.config c.inputs c.nowEpoch d.retryAt =
      some (cfg', refreshed) →
      (cfg', refreshed) = refreshOf cfg c.nowEpoch d.retryAt (c.inputs 1).lookups :=
    fun hl => Option.some.inj (hl.symm.trans hworks.located)
  refine ⟨cfg, list, hload, hworks, hok, hfail, hsame, ⟨h.inTime, Or.inl hok, ?_⟩, ?_⟩
  · intro cfg' refreshed hl _
    rw [← honly hl] at hsame
    exact hsame
  · intro cfg' refreshed hl hnew x hx hday
    obtain ⟨hrange, hpast⟩ := hr.bounded.past x hx
    rcases hnew with rfl | hf | hinvalid
    · have hlater := h.later cfg hload (by rw [← honly hl])
      rw [LocalTime.moment] at hlater
      simp only [if_true]
      omega
    · exact absurd hf (hfail _)
    · have hpast : d.past ≠ [] := fun hnil => by
        simp [Daemon.said, hnil] at hx
      obtain ⟨cache, hc, hdate⟩ := hr.dated hpast
      exact absurd ⟨cache, hc, by rw [hdate, LocalTime.today, h.today]⟩ hinvalid

theorem DayRun.cycle (hr : DayRun H base day d) (hz : NoZeroReminder base)
    (h : OnDay H base day d c) : DayRun H base day (step H d (.cycle c)) := by
  obtain ⟨cfg, list, hload, hworks, hok, hfail, hsame, hsteady, hnone⟩ := h.ready hr
  refine ⟨?_, hr.bounded.cycle h.today hsteady hnone, hr.listed.cycle hworks h.today hsteady hok hz,
    hr.genuine.cycle hworks h.today hsteady, fun _ => ?_, Or.inr ⟨report H d c, ?_, rfl⟩, ?_⟩
  · obtain ⟨cfg', hload', hprayers⟩ := hr.loads
    obtain rfl := Option.some.inj (hload.symm.trans hload')
    rcases hworks.stored with ⟨hc, -⟩ | ⟨hc, -⟩ | ⟨-, hf⟩
    · exact ⟨cfg, (congrArg (configLoad · true) hc).trans hload, hprayers⟩
    · refine ⟨_, (congrArg (configLoad · true) hc).trans
        (configLoad_configText (located_inRange hworks.located)), fun p => ?_⟩
      rw [storedConfig_prayers, refreshOf_prayers, hprayers]
    · exact absurd hf (hfail _)
  · obtain ⟨cache, hc, hdate, -⟩ := hworks.cached hok
    exact ⟨cache, hc, by rw [hdate, LocalTime.today, h.today]⟩
  · simp [DaemonRuns.step]
  · intro r hmem
    rcases List.mem_append.mp hmem with hmem | hmem
    · exact hr.onTime r hmem
    · obtain rfl := List.mem_singleton.mp hmem
      exact cycle_onTime H d c

/-- An exact trigger of the day's list that some cycle was in time for has been announced. -/
def Heard (H : Host) (base : Config) (day : ℤ) (d : Daemon) : Prop :=
  ∀ o : Occurrence H base, o.day - day ∈ dayDeltas → 1440 * day ≤ o.minute →
    o.minute < 1440 * day + 1440 →
    (∃ r ∈ d.past, o.minute ≤ r.now.moment ∧ r.now.moment ≤ o.minute + catchupMaxMin) →
    0 < d.said.countP (stands o 0)

theorem Heard.cycle (hh : Heard H base day d) (hr : DayRun H base day d) (hz : NoZeroReminder base)
    (h : OnDay H base day d c) (hstay : Stays d (.cycle c)) :
    Heard H base day (step H d (.cycle c)) := by
  intro o hday h₀ h₁ hintime
  obtain ⟨cfg, list, hload, hworks, hok, -, -, hsteady, -⟩ := h.ready hr
  have hsaid := hworks.said_due (by rw [hok]; decide)
  rw [hsaid, List.countP_append]
  obtain ⟨r, hmem, hle, hlate⟩ := hintime
  rcases List.mem_append.mp hmem with hmem | hmem
  · have := hh o hday h₀ h₁ ⟨r, hmem, hle, hlate⟩
    omega
  · obtain rfl := List.mem_singleton.mp hmem
    have hle : o.minute ≤ c.now.moment := hle
    have hlate : c.now.moment ≤ o.minute + catchupMaxMin := hlate
    by_cases hclock : d.clock < o.minute
    · -- the first cycle in time finds the trigger on its list
      have htoday := h.today
      have hlist := hworks.lists hr.listed htoday hsteady hz (o := o) (by rwa [htoday]) hclock
        (by rwa [htoday]) (by rwa [htoday]) hlate (by simp [hstay cfg hload])
      obtain ⟨t, ht, hst⟩ := List.countP_pos_iff.mp hlist
      obtain ⟨-, hbefore, -, hminute⟩ := Occurrence.isTrigger_iff.mp hst
      rw [LocalTime.moment] at hle hlate
      dsimp only at hbefore hminute
      have hdue : isDue c.now.currentMin t = true :=
        isDue_iff.mpr ⟨by omega, by omega, by omega⟩
      have hpos : 0 < ((due c.now.currentMin list).map fun t => (c.now.day, t)).countP
          (stands o 0) :=
        List.countP_pos_iff.mpr
          ⟨_, List.mem_map_of_mem (List.mem_filter.mpr ⟨ht, hdue⟩), hst⟩
      omega
    · -- an earlier cycle was in time as well
      have htime := h.inTime
      rcases hr.clocked with hbefore | ⟨r, hmem, hclocked⟩
      · omega
      · have := hh o hday h₀ h₁ ⟨r, hmem, by omega, by omega⟩
        omega

theorem DayRun.start (hs : Starts (· = day) d) (hload : configLoad d.disk.config true = some base)
    (hclock : d.clock < 1440 * day) : DayRun H base day d where
  loads := ⟨base, hload, fun _ => rfl⟩
  bounded := hs.bounded
  listed := hs.waiting _
  genuine := hs.genuine
  dated h := absurd hs.past h
  clocked := Or.inl hclock
  onTime r hr := by
    rw [hs.past] at hr
    cases hr

/-- The cycles of a day announce nothing more often than it is asked for, nothing
that is not asked for, and nothing early or late; without a refresh they announce
every adhan that one of them is in time for exactly once. -/
theorem one_day_announcements (hs : Starts (· = day) d)
    (hload : configLoad d.disk.config true = some base) (hclock : d.clock < 1440 * day)
    (h : Along (step H) (OneDay H base day) d jobs) :
    AsAsked H base (runJobs H d jobs).said ∧
      (∀ x ∈ (runJobs H d jobs).said, StandsForSome H base x) ∧
      (∀ r ∈ (runJobs H d jobs).past, ∀ x ∈ notices r.trace, OnTime r.now.currentMin x.1 x.2) ∧
      (Along (step H) Stays d jobs →
        ∀ o : Occurrence H base, o.day - day ∈ dayDeltas → 1440 * day ≤ o.minute →
          o.minute < 1440 * day + 1440 →
          (∃ r ∈ (runJobs H d jobs).past,
            o.minute ≤ r.now.moment ∧ r.now.moment ≤ o.minute + catchupMaxMin) →
          (runJobs H d jobs).said.countP (stands o 0) = 1) := by
  have hbase := configLoad_inRange hload
  have hz := noZeroReminder hbase
  have hrun : DayRun H base day (runJobs H d jobs) := by
    refine h.invariant (DayRun H base day) (fun d j hr hok => ?_) (DayRun.start hs hload hclock)
    cases j with
    | cycle c => exact hr.cycle hz hok
    | save cfg inputs => exact hok.elim
  refine ⟨Bounded.asAsked hrun.bounded hbase, hrun.genuine.said, hrun.onTime,
    fun hstay o hday h₀ h₁ hintime => ?_⟩
  have hheard : DayRun H base day (runJobs H d jobs) ∧ Heard H base day (runJobs H d jobs) := by
    refine (h.and hstay).invariant (fun d => DayRun H base day d ∧ Heard H base day d)
      (fun d j hinv hok => ?_) ⟨DayRun.start hs hload hclock, ?_⟩
    · cases j with
      | cycle c => exact ⟨hinv.1.cycle hz hok.1, hinv.2.cycle hinv.1 hz hok.1 hok.2⟩
      | save cfg inputs => exact hok.1.elim
    · intro o _ _ _ hintime
      obtain ⟨r, hr, -⟩ := hintime
      rw [hs.past] at hr
      cases hr
  exact le_antisymm (Bounded.asAsked hrun.bounded hbase o).1 (hheard.2 o hday h₀ h₁ hintime)

theorem oneDay_june {d : Daemon} {now : LocalTime} {day : ℤ} (hday : now.day = day)
    (hconfig : configLoad d.disk.config true = some juneConfig) (hclock : d.clock ≤ now.moment) :
    OneDay (steadyHost juneTimes) juneConfig day d (.cycle (juneCycle now)) := by
  have honly : ∀ cfg, configLoad d.disk.config true = some cfg → cfg = juneConfig := fun cfg h => by
    rw [hconfig] at h
    exact (Option.some.inj h).symm
  refine ⟨fun _ => rfl, hday, hclock, fun cfg h => ?_, fun cfg h e => ?_, fun cfg h hr => ?_⟩
  · rw [honly cfg h]
    decide +kernel
  · rw [honly cfg h]
    simp [juneCycle, refreshOf_june]
  · rw [honly cfg h] at hr
    simp [juneCycle, refreshOf_june] at hr

/-- A cycle at fajr, 23:54, and one a minute later. -/
theorem one_day_announcements_june :
    AsAsked (steadyHost juneTimes) juneConfig (runJobs (steadyHost juneTimes) juneStart
      [.cycle (juneCycle (juneTime 20621 23 54)), .cycle (juneCycle (juneTime 20621 23 55))]).said ∧
      (runJobs (steadyHost juneTimes) juneStart [.cycle (juneCycle (juneTime 20621 23 54)),
        .cycle (juneCycle (juneTime 20621 23 55))]).said.countP (stands juneFajr 0) = 1 := by
  have hrun : Along (DaemonRuns.step (steadyHost juneTimes))
      (OneDay (steadyHost juneTimes) juneConfig 20621) juneStart
      [.cycle (juneCycle (juneTime 20621 23 54)), .cycle (juneCycle (juneTime 20621 23 55))] :=
    ⟨oneDay_june rfl configLoad_june (by decide), oneDay_june rfl (by decide +kernel) (by decide),
      trivial⟩
  exact ⟨(one_day_announcements (juneStart_starts _) configLoad_june (by decide) hrun).1,
    by decide +kernel⟩

end OneDay

section Saves
variable {H : Host} {base : Config} {d : Daemon} {jobs : List Job}

/-- A cycle writes its list, builds lists only for the announcements of `base`,
and has no announced trigger due again on a list built anew. A save may store
anything and may fail. -/
def NothingAgain (H : Host) (base : Config) (d : Daemon) : Job → Prop
  | .cycle c => Steady H base d c ∧ NoneDueAgain H d c
  | .save _ _ => True

/-- Whatever is saved in between, a run of such cycles announces no prayer twice
and no reminder more often than its list holds it. -/
theorem saves_repeat_nothing (hbase : base.InRange) (hs : Starts (fun _ => True) d)
    (h : Along (step H) (NothingAgain H base) d jobs) : AsAsked H base (runJobs H d jobs).said := by
  refine Bounded.asAsked (h.invariant (Bounded H base fun _ => True) (fun d j hb hok => ?_)
    hs.bounded) hbase
  cases j with
  | cycle c => exact hb.cycle trivial hok.1 hok.2
  | save cfg inputs => exact hb.save cfg inputs

/-- A save between a cycle at 23:30 and one at 23:54. -/
theorem saves_repeat_nothing_june :
    AsAsked (steadyHost juneTimes) juneConfig (runJobs (steadyHost juneTimes) juneStart
      [.cycle (juneCycle (juneTime 20621 23 30)), .save juneConfig fun _ => juneInput,
        .cycle (juneCycle (juneTime 20621 23 54))]).said ∧
      ¬ValidFor (runJobs (steadyHost juneTimes) juneStart
        [.cycle (juneCycle (juneTime 20621 23 30)), .save juneConfig fun _ => juneInput]).disk.cache
          (juneTime 20621 23 54) := by
  have hnone : ∀ d c, d.said = [] → NoneDueAgain (steadyHost juneTimes) d c :=
    fun d c hd cfg refreshed _ _ x hx => by
      rw [hd] at hx
      cases hx
  obtain ⟨hload, hgone⟩ :
      configLoad (runJobs (steadyHost juneTimes) juneStart
        [.cycle (juneCycle (juneTime 20621 23 30)),
          .save juneConfig fun _ => juneInput]).disk.config true = some juneConfig ∧
      (runJobs (steadyHost juneTimes) juneStart
        [.cycle (juneCycle (juneTime 20621 23 30)),
          .save juneConfig fun _ => juneInput]).disk.cache = none := by
    decide +kernel
  have hrun : Along (DaemonRuns.step (steadyHost juneTimes))
      (NothingAgain (steadyHost juneTimes) juneConfig) juneStart
      [.cycle (juneCycle (juneTime 20621 23 30)), .save juneConfig fun _ => juneInput,
        .cycle (juneCycle (juneTime 20621 23 54))] := by
    refine ⟨⟨steady_june configLoad_june (by decide), hnone _ _ rfl⟩, trivial,
      ⟨steady_june hload (by decide), fun cfg refreshed hl _ => ?_⟩, trivial⟩
    obtain ⟨-, rfl⟩ := located_june hload hl
    decide +kernel
  refine ⟨saves_repeat_nothing (configLoad_inRange configLoad_june) (juneStart_starts _) hrun, ?_⟩
  rintro ⟨cache, hc, -⟩
  rw [hgone] at hc
  cases hc

/-- A save of the settings as they are deletes the list, and fajr is announced
again a minute after its time. -/
theorem save_repeats_fajr :
    Starts (fun _ => True) juneStart ∧
      configLoad juneStart.disk.config true = some juneConfig ∧
      (runJobs (steadyHost juneTimes) juneStart [.cycle (juneCycle (juneTime 20621 23 54)),
        .save juneConfig fun _ => juneInput,
        .cycle (juneCycle (juneTime 20621 23 55))]).said.countP (stands juneFajr 0) = 2 :=
  ⟨juneStart_starts _, configLoad_june, by decide +kernel⟩

end Saves

end Muslimtify.AtMostOnce
