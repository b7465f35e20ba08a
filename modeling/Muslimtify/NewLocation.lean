import Muslimtify.SaveRace

/-!
# A newly stored location

A cycle that detects the location stores it and goes on to announce. What it and
the later cycles announce is to come from the settings then in the file. The
cache file carries no more than a date, so a list for today that was built for
another location looks as good as any. A refresh therefore does not read the
file; the first detection does.

The later cycles inherit the file. They announce what the settings in it ask for
as long as every detection is stored, builds its list anew and leaves no list of
the old settings behind.
-/
namespace Muslimtify.NewLocation
open CText CDouble CivilDays Settings ConfigFile ConfigRoundTrip Schedule TriggerCache
open TriggerPartition CacheFile CacheRoundTrip Detection Program DaemonCycle SettingsSave CycleRun
open DaemonRuns SaveRace

section InForce

/-- The trigger is on a list for the day that is built from the settings in the file,
as far as the cache file tells. -/
def BuiltFor (H : Host) (file : Option CString) (day : ℤ) (t : CacheTrigger) : Prop :=
  ∃ cfg m, Matches file cfg ∧ ∃ u ∈ builtTriggers H cfg day m, storedTrigger u = storedTrigger t

theorem BuiltFor.fromConfig {H : Host} {file : Option CString} {day : ℤ} {t : CacheTrigger}
    (h : BuiltFor H file day t) : FromConfig H file t := by
  obtain ⟨cfg, m, hm, hu⟩ := h
  exact ⟨cfg, day, m, hm, hu⟩

theorem BuiltFor.congr {H : Host} {file : Option CString} {day : ℤ} {t u : CacheTrigger}
    (h : BuiltFor H file day t) (hu : storedTrigger t = storedTrigger u) : BuiltFor H file day u := by
  obtain ⟨cfg, m, hm, v, hv, hvt⟩ := h
  exact ⟨cfg, m, hm, v, hv, hvt.trans hu⟩

/-- The cache file holds triggers of its own day and of the settings in the file. -/
def InForce (H : Host) (disk : Disk) : Prop :=
  ∀ cache, cacheLoad disk.cache true = some cache →
    ∀ day, cache.date.text = dateText (mtCivilFromDays day) →
      ∀ t ∈ cache.triggers.items, BuiltFor H disk.config day t

/-- What the cycle announces is from the settings in the file after it. -/
def Current (H : Host) (r : Report) : Prop :=
  ∀ x ∈ notices r.trace, BuiltFor H r.disk.config r.now.day x.1

/-- A cycle that detects the location stores it, builds its list anew and leaves
no other list in the cache file. -/
def Settles (H : Host) (d : Daemon) (c : CycleJob) : Prop :=
  ∀ cfg refreshed, located d.disk.config c.inputs c.nowEpoch d.retryAt = some (cfg, refreshed) →
    refreshed = true ∨ Unlocated d.disk.config →
      ¬Failed isConfigWrite (report H d c).trace ∧ Anew H d c refreshed ∧
        (storedLists (report H d c).trace ≠ [] ∨ cacheLoad d.disk.cache true = none)

end InForce

section Steps
variable {H : Host} {d : Daemon} {c : CycleJob} {cfg : Config} {refreshed : Bool}
  {list : PrayerCache}

/-- A list of the settings in the file is announced and kept. -/
theorem works_current (h : Works H d c cfg refreshed list)
    (hlist : ∀ t ∈ list.triggers.items, BuiltFor H (report H d c).disk.config c.now.day t) :
    Current H (report H d c) := by
  intro x hx
  rcases h.notices with ⟨hn, -⟩ | ⟨hn, -⟩
  · rw [hn] at hx
    obtain ⟨t, ht, rfl⟩ := List.mem_map.mp hx
    exact hlist t (List.mem_of_mem_filter ht)
  · rw [hn] at hx
    cases hx

/-- A written list of such triggers is in force. -/
theorem inForce_text {disk : Disk} {written : PrayerCache} (hrange : CacheInRange written)
    (htoday : written.date.text = c.now.today) (hcache : disk.cache = some (cacheText written))
    (hlist : ∀ t ∈ written.triggers.items, BuiltFor H disk.config c.now.day t) :
    InForce H disk := by
  intro cache hload day hdate t ht
  rw [hcache, cacheLoad_cacheText hrange] at hload
  obtain rfl := Option.some.inj hload
  obtain ⟨u, hu, rfl⟩ := List.mem_map.mp ht
  obtain rfl := today_injective (htoday.symm.trans hdate)
  exact (hlist u hu).congr (storedTrigger_idem u).symm

/-- Whatever is in the cache file after the cycle, when its list is of the settings in
the file and no list from before is left. -/
theorem works_inForce (h : Works H d c cfg refreshed list)
    (hlist : ∀ t ∈ list.triggers.items, BuiltFor H (report H d c).disk.config c.now.day t)
    (hold : (report H d c).disk.cache = d.disk.cache → InForce H (report H d c).disk ∨
      storedLists (report H d c).trace ≠ []) : InForce H (report H d c).disk := by
  have htext : (report H d c).disk.cache = some (cacheText list) ∨
      (report H d c).disk.cache = some (cacheText (keepAhead c.now.currentMin list)) →
        InForce H (report H d c).disk := by
    rintro (hc | hc)
    · exact inForce_text h.inRange h.today hc hlist
    · exact inForce_text (keepAhead_inRange h.inRange) h.today hc fun t ht =>
        hlist t (List.mem_of_mem_filter ht)
  rcases h.announces.cache with ⟨hsame, -⟩ | hc
  · rcases hold hsame with hforce | hwrote
    · exact hforce
    · exact htext (h.announces.wrote.resolve_left hwrote)
  · exact htext hc

/-- A list that is built under the settings in the file. -/
theorem builtFor_list (hmatch : Matches (report H d c).disk.config cfg)
    (hitems : list.triggers.items =
      (builtTriggers H cfg c.now.day c.now.currentMin).filter fun t =>
        !refreshed || c.now.currentMin ≤ t.minute) :
    ∀ t ∈ list.triggers.items, BuiltFor H (report H d c).disk.config c.now.day t := by
  intro t ht
  rw [hitems] at ht
  exact ⟨cfg, c.now.currentMin, hmatch, t, List.mem_of_mem_filter ht, rfl⟩

/-- A cycle that detects and settles it announces by the new settings and leaves a
cache file that is in force. -/
theorem works_settled (h : Works H d c cfg refreshed list) (hsettles : Settles H d c)
    (hdetects : refreshed = true ∨ Unlocated d.disk.config)
    (hconfig : (report H d c).disk.config = some (configText cfg)) :
    Current H (report H d c) ∧ InForce H (report H d c).disk := by
  obtain ⟨-, hanew, hwritten⟩ := hsettles cfg refreshed h.located hdetects
  have hmatch : Matches (report H d c).disk.config cfg :=
    ⟨located_inRange h.located, Or.inr hconfig⟩
  have hlist := builtFor_list hmatch (h.anew hanew)
  refine ⟨works_current h hlist, works_inForce h hlist fun hsame => ?_⟩
  rcases hwritten with hwrote | hnone
  · exact Or.inr hwrote
  · refine Or.inl fun cache hload => ?_
    rw [hsame, hnone] at hload
    cases hload

/-- A cycle that leaves the settings as they are passes the file on. -/
theorem works_passed_on (h : Works H d c cfg refreshed list) (hforce : InForce H d.disk)
    (hconfig : (report H d c).disk.config = d.disk.config)
    (hload : configLoad d.disk.config true = some cfg) :
    Current H (report H d c) ∧ InForce H (report H d c).disk := by
  have hmatch : Matches (report H d c).disk.config cfg := by
    rw [hconfig]
    exact ⟨located_inRange h.located, Or.inl hload⟩
  have hlist : ∀ t ∈ list.triggers.items, BuiltFor H (report H d c).disk.config c.now.day t := by
    rcases h.origin with ⟨-, hcache⟩ | ⟨-, hitems⟩
    · rw [hconfig]
      exact hforce list hcache _ h.today
    · exact builtFor_list hmatch hitems
  refine ⟨works_current h hlist, works_inForce h hlist fun hsame => Or.inl ?_⟩
  unfold InForce
  rw [hsame, hconfig]
  exact hforce

/-- Every later cycle announces by the settings in the file and keeps the cache file
in force. -/
theorem current_step (hforce : InForce H d.disk) (hsettles : Settles H d c) :
    Current H (report H d c) ∧ InForce H (report H d c).disk := by
  rcases cycle_works H d c with ⟨-, -, hdisk, hquiet, -⟩ | ⟨cfg, refreshed, list, h⟩
  · refine ⟨fun x hx => ?_, ?_⟩
    · rw [hquiet] at hx
      cases hx
    · rw [hdisk]
      exact hforce
  · rcases h.stored with ⟨hconfig, -, hload, -⟩ | ⟨hconfig, hdetects⟩ | ⟨hrefreshed, hfailed⟩
    · exact works_passed_on h hforce hconfig hload
    · exact works_settled h hsettles hdetects hconfig
    · exact absurd hfailed (hsettles cfg refreshed h.located (Or.inl hrefreshed)).1

/-- The cycle that stores a location brings the cache file into force. -/
theorem current_first (hstored : storedConfigs (report H d c).trace ≠ [])
    (hsettles : Settles H d c) : Current H (report H d c) ∧ InForce H (report H d c).disk := by
  rcases cycle_works H d c with ⟨-, -, -, -, hnone⟩ | ⟨cfg, refreshed, list, h⟩
  · exact absurd hnone hstored
  · rcases h.stored with ⟨-, hnone, -⟩ | ⟨hconfig, hdetects⟩ | ⟨hrefreshed, hfailed⟩
    · exact absurd hnone hstored
    · exact works_settled h hsettles hdetects hconfig
    · exact absurd hfailed (hsettles cfg refreshed h.located (Or.inl hrefreshed)).1

end Steps

section Storing
variable {H : Host}

/-- Once a cycle has stored a location, it and every cycle after it announce what the
settings then in the file ask for, as long as every detection settles. -/
theorem new_location_in_force {d : Daemon} {c : CycleJob} {later : List CycleJob}
    (hstored : storedConfigs (report H d c).trace ≠ [])
    (hsettles : Along (fun d c => step H d (.cycle c)) (Settles H) d (c :: later)) :
    ∀ r ∈ (runJobs H d ((c :: later).map .cycle)).past.drop d.past.length, Current H r := by
  obtain ⟨hcurrent, hforce⟩ := current_first hstored hsettles.1
  have hinv := hsettles.2.invariant
    (fun s => InForce H s.disk ∧ ∃ past, s.past = d.past ++ past ∧ ∀ r ∈ past, Current H r)
    (fun s j ⟨hforce, past, hpast, hall⟩ hs => by
      obtain ⟨hcur, hf⟩ := current_step hforce hs
      refine ⟨hf, past ++ [report H s j], ?_, ?_⟩
      · simp [DaemonRuns.step, hpast]
      · simpa [or_imp, forall_and] using ⟨hall, hcur⟩)
    ⟨hforce, [report H d c], rfl, by simpa using hcurrent⟩
  obtain ⟨-, past, hpast, hall⟩ := hinv
  have hrun : (runJobs H d ((c :: later).map .cycle)).past = d.past ++ past := by
    rw [← hpast]
    simp [runJobs, List.foldl_map]
  rw [hrun, List.drop_left]
  exact hall

/-- Where a location is set and not refreshed there is nothing to settle. -/
theorem settles_located {d : Daemon} {c : CycleJob}
    (hfresh : (located d.disk.config c.inputs c.nowEpoch d.retryAt).map Prod.snd = some false)
    (hset : (configLoad d.disk.config true).map configLocationNeedsDetect = some false) :
    Settles H d c := by
  rintro cfg refreshed hlocated (rfl | ⟨loaded, hload, hneeds⟩)
  · rw [hlocated] at hfresh
    cases hfresh
  · rw [hload, Option.map_some, hneeds] at hset
    cases hset

/-- No settings, and whatever is in the cache file. -/
def juneEmpty (cache : Option CString) : Daemon := ⟨⟨none, cache⟩, 0, 0, []⟩

/-- Without a cache file the first detection settles. -/
theorem new_location_in_force_june :
    storedConfigs (report (steadyHost juneTimes) (juneEmpty none)
        (juneCycle (juneTime 20621 23 50))).trace ≠ [] ∧
      ∀ r ∈ (runJobs (steadyHost juneTimes) (juneEmpty none)
          [.cycle (juneCycle (juneTime 20621 23 50)),
            .cycle (juneCycle (juneTime 20621 23 54))]).past,
        Current (steadyHost juneTimes) r := by
  have hstored : storedConfigs (report (steadyHost juneTimes) (juneEmpty none)
      (juneCycle (juneTime 20621 23 50))).trace ≠ [] := by decide +kernel
  have hfirst : Settles (steadyHost juneTimes) (juneEmpty none)
      (juneCycle (juneTime 20621 23 50)) := by
    intro cfg refreshed _ _
    refine ⟨not_failed_run (fun _ => rfl) ?_ _ _, Or.inr (Or.inr ?_), Or.inr rfl⟩
    · rintro ⟨_, hev, _⟩
      cases hev
    · rintro ⟨cache, hc, _⟩
      cases hc
  have hsecond : Settles (steadyHost juneTimes)
      (DaemonRuns.step (steadyHost juneTimes) (juneEmpty none)
        (.cycle (juneCycle (juneTime 20621 23 50)))) (juneCycle (juneTime 20621 23 54)) :=
    settles_located (by decide +kernel) (by decide +kernel)
  have hsteps : Along (fun d c => DaemonRuns.step (steadyHost juneTimes) d (.cycle c))
      (Settles (steadyHost juneTimes)) (juneEmpty none)
      [juneCycle (juneTime 20621 23 50), juneCycle (juneTime 20621 23 54)] :=
    ⟨hfirst, hsecond, trivial⟩
  exact ⟨hstored, new_location_in_force hstored hsteps⟩

/-- A list for today with a reminder 20 minutes before fajr. -/
def oldList : PrayerCache where
  date := copyString 16 (dateText (mtCivilFromDays 20621))
  triggers := ⟨[{
    prayer := copyString 16 (prayerGetName .fajr)
    adhan := copyString 512 (ascii "")
    minute := 1414
    minutesBefore := 20
    prayerTime := .ofRat (239 / 10)
    adhanEnabled := true }], by decide⟩

/-- The settings are gone and the cache file is still there: the cycle detects the
location, stores it, and announces the old list's reminder, which nothing in the
settings asks for. -/
theorem old_list_announced :
    storedConfigs (report (steadyHost juneTimes) (juneEmpty (some (cacheText oldList)))
        (juneCycle (juneTime 20621 23 40))).trace ≠ [] ∧
      ¬∀ r ∈ (runJobs (steadyHost juneTimes) (juneEmpty (some (cacheText oldList)))
          [.cycle (juneCycle (juneTime 20621 23 40))]).past, Current (steadyHost juneTimes) r := by
  obtain ⟨hstored, hsaid, hasked⟩ :
      storedConfigs (report (steadyHost juneTimes) (juneEmpty (some (cacheText oldList)))
          (juneCycle (juneTime 20621 23 40))).trace ≠ [] ∧
        ((notices (report (steadyHost juneTimes) (juneEmpty (some (cacheText oldList)))
          (juneCycle (juneTime 20621 23 40))).trace).any fun x => x.1.minutesBefore = 20) = true ∧
        (configLoad (report (steadyHost juneTimes) (juneEmpty (some (cacheText oldList)))
          (juneCycle (juneTime 20621 23 40))).disk.config true).map
            (fun cfg => prayerTypes.all fun p => (remindersOf cfg p).all fun r => r ≠ 20) =
              some true := by
    decide +kernel
  refine ⟨hstored, fun h => ?_⟩
  have hcurrent := h _ (List.mem_singleton.mpr rfl)
  obtain ⟨x, hx, hbefore⟩ := List.any_eq_true.mp hsaid
  obtain ⟨cfg, hload, hnone⟩ := Option.map_eq_some_iff.mp hasked
  obtain ⟨p, -, -, hzero | hmem⟩ := (hcurrent x hx).fromConfig.asked hload
  · simp [hzero] at hbefore
  · have hp := List.all_eq_true.mp (List.all_eq_true.mp hnone p (mem_prayerTypes p)) _ hmem
    simp_all

end Storing

end Muslimtify.NewLocation
