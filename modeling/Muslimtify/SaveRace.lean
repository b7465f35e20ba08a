import Muslimtify.DaemonRuns

/-!
# A save during a cycle

Another process saves settings while a cycle is under way, in any order of the
operations of both, any of which may fail. The save writes the settings and then
deletes the cache file, so that the triggers of the old settings are gone. They
come back when the cycle writes a list after the deletion that it built from
settings it had loaded before the save, or that it had read from the file before
the deletion.

What has happened between the two processes is read off the trace.
-/
namespace Muslimtify.SaveRace
open CText CDouble CivilDays Settings ConfigFile ConfigRoundTrip Schedule TriggerCache CacheFile
open CacheRoundTrip TriggerPartition Detection Program DaemonCycle SettingsSave CycleRun DaemonRuns

section Watching

/-- The cycle's settings are behind when they are not those in the file: it has
been saved since the cycle loaded or stored them, or the cycle could not store
them. The cache file is stale when the settings have been saved since it was
written, or it was written from settings that are behind or from a stale list. -/
structure Watch where
  behind : Bool
  heldOld : Bool
  stale : Bool
  deriving DecidableEq, Repr

def Watch.see (today : CString) (g : Watch) (ev : Event) : Watch :=
  match ev.party, ev.op with
  | .left, .loadConfig => { g with behind := false }
  | .left, .saveConfig _ =>
      if ev.input.works then { g with behind := false, stale := ev.disk.cache.isSome }
      else { g with behind := true }
  | .right, .saveConfig _ =>
      if ev.input.works then { g with behind := true, stale := ev.disk.cache.isSome } else g
  | .right, .invalidateCache =>
      if ev.input.works || ev.disk.cache.isNone then { g with stale := false } else g
  -- a list for today is kept as it is
  | .left, .loadCache =>
      { g with heldOld := g.stale &&
          (cacheLoad ev.disk.cache ev.input.works).any fun cache => cache.date.text = today }
  | .left, .saveCache _ => if ev.input.works then { g with stale := g.behind || g.heldOld } else g
  | _, _ => g

/-- Nothing is known of the files at first. -/
def watch (today : CString) (trace : List Event) : Watch :=
  trace.foldl (Watch.see today) ⟨true, false, true⟩

theorem watch_act (today : CString) (party : Side) (op : Op) (i : Input) (w : World) :
    watch today (act party op i w).2.trace =
      (watch today w.trace).see today ⟨party, op, i, w.disk⟩ := by
  simp [act, watch, List.foldl_append]

end Watching

section Assertions

/-- The settings are those in the file, as loaded or as written. -/
def Matches (file : Option CString) (cfg : Config) : Prop :=
  cfg.InRange ∧ (configLoad file true = some cfg ∨ file = some (configText cfg))

/-- The trigger is on a list built from the settings in the file, as far as the
cache file tells. -/
def FromConfig (H : Host) (file : Option CString) (t : CacheTrigger) : Prop :=
  ∃ cfg day m, Matches file cfg ∧
    ∃ u ∈ builtTriggers H cfg day m, storedTrigger u = storedTrigger t

/-- Every trigger in the cache file is from the settings in the file. -/
def Agreed (H : Host) (disk : Disk) : Prop :=
  ∀ cache, cacheLoad disk.cache true = some cache →
    ∀ t ∈ cache.triggers.items, FromConfig H disk.config t

theorem FromConfig.stored {H : Host} {file : Option CString} {t : CacheTrigger}
    (h : FromConfig H file t) : FromConfig H file (storedTrigger t) := by
  obtain ⟨cfg, day, m, hm, u, hu, hut⟩ := h
  exact ⟨cfg, day, m, hm, u, hu, by rw [hut, storedTrigger_idem]⟩

/-- What the settings in the file say about such a trigger. -/
theorem FromConfig.asked {H : Host} {file : Option CString} {t : CacheTrigger}
    (h : FromConfig H file t) {cfg : Config} (hload : configLoad file true = some cfg) :
    ∃ p, t.prayer.text = prayerGetName p ∧ prayerIsEnabled cfg p = true ∧
      (t.minutesBefore = 0 ∨ t.minutesBefore ∈ remindersOf cfg p) := by
  obtain ⟨cfg', day, m, ⟨hrange, hm⟩, u, hu, hut⟩ := h
  have hprayers : ∀ p, prayerGetConfig cfg' p = prayerGetConfig cfg p := by
    rcases hm with hm | rfl
    · rw [Option.some.inj (hm.symm.trans hload)]
      exact fun _ => rfl
    · rw [configLoad_configText hrange] at hload
      rw [← Option.some.inj hload]
      exact fun p => (storedConfig_prayers cfg' p).symm
  obtain ⟨o, r, hr, -, hst⟩ := mem_builtTriggers hu
  obtain ⟨hname, hbefore, -⟩ := Occurrence.isTrigger_iff.mp (hst id)
  have henabled := o.enabled
  have hname' : (storedTrigger t).prayer = (storedTrigger u).prayer := by rw [hut]
  have hbefore' : (storedTrigger t).minutesBefore = (storedTrigger u).minutesBefore := by rw [hut]
  dsimp only [storedTrigger] at hname' hbefore'
  refine ⟨o.prayer, by rw [hname', hname], ?_, ?_⟩
  · rw [prayerIsEnabled, ← hprayers]
    exact henabled
  · rw [hbefore', hbefore, remindersOf, ← hprayers]
    exact hr

theorem agreed_none {H : Host} {disk : Disk} (h : disk.cache = none) : Agreed H disk := by
  intro cache hc
  rw [h] at hc
  cases hc

theorem agreed_text {H : Host} {disk : Disk} {list : PrayerCache} (hr : CacheInRange list)
    (hc : disk.cache = some (cacheText list))
    (h : ∀ t ∈ list.triggers.items, FromConfig H disk.config t) : Agreed H disk := by
  intro cache hload t ht
  rw [hc, cacheLoad_cacheText hr] at hload
  obtain rfl := Option.some.inj hload
  obtain ⟨u, hu, rfl⟩ := List.mem_map.mp ht
  exact (h u hu).stored

variable (H : Host) (now : LocalTime)

/-- How far the cycle is. -/
inductive Progress
  | started
  | found (cfg : Config)
  | located (cfg : Config)
  | listed (list : PrayerCache)

/-- A cache file that is not stale agrees with the settings. -/
def Fresh (w : World) : Prop := (watch now.today w.trace).stale = false → Agreed H w.disk

/-- What the cycle relies on at each stage. -/
def During (p : Progress) (w : World) : Prop :=
  match p with
  | .started => Fresh H now w
  | .found cfg => cfg.InRange ∧ Fresh H now w
  | .located cfg => cfg.InRange ∧ Fresh H now w ∧
      ((watch now.today w.trace).behind = false → Matches w.disk.config cfg)
  | .listed list => CacheInRange list ∧ Fresh H now w ∧
      ((watch now.today w.trace).behind = false → (watch now.today w.trace).heldOld = false →
        ∀ t ∈ list.triggers.items, FromConfig H w.disk.config t)

end Assertions

section Saving
variable {H : Host} {now : LocalTime}

theorem During.fresh {p : Progress} {w : World} (h : During H now p w) : Fresh H now w := by
  cases p with
  | started => exact h
  | found cfg => exact h.2
  | located cfg => exact h.2.1
  | listed list => exact h.2.1

/-- A write of the settings by the other process leaves the cycle behind. -/
theorem saveConfig_keeps (cfg : Config) (i : Input) (w : World) :
    Keeps (During H now) w (act .right (.saveConfig cfg) i w).2 := by
  intro p hp
  cases hworks : i.works with
  | true =>
      have hcache : (act .right (.saveConfig cfg) i w).2.disk.cache = w.disk.cache := by
        simp [act, effect, hworks]
      have hfresh : Fresh H now (act .right (.saveConfig cfg) i w).2 := by
        intro hstale
        refine agreed_none ?_
        rw [hcache]
        simpa [watch_act, Watch.see, hworks] using hstale
      have hbehind : (watch now.today (act .right (.saveConfig cfg) i w).2.trace).behind = true := by
        simp [watch_act, Watch.see, hworks]
      cases p with
      | started => exact hfresh
      | found cfg => exact ⟨hp.1, hfresh⟩
      | located cfg => exact ⟨hp.1, hfresh, fun h => by rw [hbehind] at h; cases h⟩
      | listed list => exact ⟨hp.1, hfresh, fun h => by rw [hbehind] at h; cases h⟩
  | false =>
      have hdisk : (act .right (.saveConfig cfg) i w).2.disk = w.disk := by
        simp [act, effect, hworks]
      have hwatch : watch now.today (act .right (.saveConfig cfg) i w).2.trace =
          watch now.today w.trace := by
        simp [watch_act, Watch.see, hworks]
      cases p <;> simpa only [During, Fresh, hdisk, hwatch] using hp

theorem invalidate_keeps (i : Input) (w : World) :
    Keeps (During H now) w (act .right .invalidateCache i w).2 := by
  intro p hp
  have hconfig : (act .right .invalidateCache i w).2.disk.config = w.disk.config := by
    cases hworks : i.works <;> simp [act, effect, hworks]
  have hfresh : Fresh H now (act .right .invalidateCache i w).2 := by
    by_cases hgone : (i.works || w.disk.cache.isNone) = true
    · intro _
      refine agreed_none ?_
      cases hworks : i.works <;> simp_all [act, effect]
    · have hdisk : (act .right .invalidateCache i w).2.disk = w.disk := by
        cases hworks : i.works <;> simp_all [act, effect]
      have hwatch : watch now.today (act .right .invalidateCache i w).2.trace =
          watch now.today w.trace := by
        rw [watch_act]
        simp only [Watch.see]
        rw [if_neg hgone]
      simpa only [Fresh, hdisk, hwatch] using hp.fresh
  have hsame : (watch now.today (act .right .invalidateCache i w).2.trace).behind =
        (watch now.today w.trace).behind ∧
      (watch now.today (act .right .invalidateCache i w).2.trace).heldOld =
        (watch now.today w.trace).heldOld := by
    rw [watch_act]
    simp only [Watch.see]
    split_ifs <;> exact ⟨rfl, rfl⟩
  cases p with
  | started => exact hfresh
  | found cfg => exact ⟨hp.1, hfresh⟩
  | located cfg => exact ⟨hp.1, hfresh, by rw [hsame.1, hconfig]; exact hp.2.2⟩
  | listed list => exact ⟨hp.1, hfresh, by rw [hsame.1, hsame.2, hconfig]; exact hp.2.2⟩

end Saving

section Cycling
variable {H : Host} {now : LocalTime} {cfg : Config} {list : PrayerCache}

/-- The save relies on nothing that the cycle could change. -/
abbrev NoAssertion : Empty → World → Prop := nofun

/-- Whatever the save does meanwhile, the program takes the cycle from one stage
to the one that belongs to its value. -/
abbrev Stage {α : Type} (H : Host) (now : LocalTime) (p : Progress) (q : CycleProgram α)
    (next : α → Progress) : Prop :=
  Triple (act .left) (During H now) NoAssertion (During H now p) q fun a => During H now (next a)

theorem Stage.pure {α : Type} {p : Progress} {a : α} {next : α → Progress}
    (h : ∀ w, During H now p w → During H now (next a) w) :
    Stage H now p (.done a : CycleProgram α) next :=
  Triple.done p h

theorem Stage.op {p : Progress} {op : Op} {next : Answer op → Progress}
    (h : ∀ w i, During H now p w → During H now (next (act .left op i w).1) (act .left op i w).2) :
    Stage H now p (.step op .done) next :=
  Triple.step p (fun a => During H now (next a)) (fun w i hw => ⟨nofun, h w i hw⟩)
    fun _ => Stage.pure fun _ hw => hw

/-- An operation that touches no file and is not watched leaves every stage. -/
theorem Stage.other (p : Progress) {op : Op} (heffect : ∀ i disk, effect i disk op = disk)
    (hsee : ∀ g i disk, Watch.see now.today g ⟨.left, op, i, disk⟩ = g) :
    Stage H now p (.step op .done) fun _ => p := by
  refine Stage.op fun w i hw => ?_
  have hdisk : (act .left op i w).2.disk = w.disk := heffect i w.disk
  have hwatch : watch now.today (act .left op i w).2.trace = watch now.today w.trace := by
    rw [watch_act, hsee]
  cases p <;> simpa only [During, Fresh, hdisk, hwatch] using hw

theorem Stage.loadConfig : Stage H now .started loadConfig fun loaded =>
    match loaded with
    | none => .started
    | some cfg => .located cfg := by
  refine Stage.op fun w i hw => ?_
  have hanswer : (act .left .loadConfig i w).1 = configLoad w.disk.config i.works := rfl
  have hdisk : (act .left .loadConfig i w).2.disk = w.disk := rfl
  have hfresh : Fresh H now (act .left .loadConfig i w).2 := by
    simpa only [Fresh, watch_act, Watch.see, hdisk] using hw.fresh
  rw [hanswer]
  cases hload : configLoad w.disk.config i.works with
  | none => exact hfresh
  | some cfg =>
      have hopen := configLoad_open hload
      exact ⟨configLoad_inRange hopen, hfresh, fun _ => ⟨configLoad_inRange hopen, Or.inl hopen⟩⟩

theorem Stage.detectInto : Stage H now (.located cfg) (detectInto cfg) fun detected =>
    detected.elim (.located cfg) fun found => .found found.1 := by
  simp only [DaemonCycle.detectInto, detect, step_bind, done_bind, pure_eq]
  refine Triple.step (Progress.located cfg) (fun (detected : Option Config × GpsStatus) w =>
    During H now (.located cfg) w ∧ ∃ lookups, detected = locationDetect lookups cfg)
    (fun w i hw => ⟨?_, ?_, i.lookups, rfl⟩) ?_
  · intro h
    cases h
  · have hdisk : (act .left (.detect cfg) i w).2.disk = w.disk := rfl
    simpa only [During, Fresh, watch_act, Watch.see, hdisk] using hw
  · rintro detected w ⟨hw, lookups, rfl⟩ w' hk
    have hw' := hk _ hw
    cases hdetect : muslimtifyDetectLocationWith cfg (locationDetect lookups cfg) with
    | none => exact hw'
    | some found =>
        have hdetect : muslimtifyDetectLocationWith cfg (locationDetect lookups cfg) =
          some (found.1, found.2) := hdetect
        exact ⟨muslimtifyDetectLocationWith_inRange hdetect hw'.1, hw'.2.1⟩

theorem Stage.saveConfig : Stage H now (.found cfg) (saveConfig cfg) fun _ => .located cfg := by
  refine Stage.op fun w i hw => ?_
  cases hworks : i.works with
  | true =>
      have hcache : (act .left (.saveConfig cfg) i w).2.disk.cache = w.disk.cache := by
        simp [act, effect, hworks]
      refine ⟨hw.1, fun hstale => agreed_none ?_, fun _ => ⟨hw.1, Or.inr ?_⟩⟩
      · rw [hcache]
        simpa [watch_act, Watch.see, hworks] using hstale
      · simp [act, effect, hworks]
  | false =>
      have hdisk : (act .left (.saveConfig cfg) i w).2.disk = w.disk := by
        simp [act, effect, hworks]
      refine ⟨hw.1, ?_, fun hbehind => ?_⟩
      · simpa [Fresh, watch_act, Watch.see, hworks, hdisk] using hw.2
      · simp [watch_act, Watch.see, hworks] at hbehind

theorem Stage.firstDetection (cycle : MuslimtifyCycle) :
    Stage H now (.located cfg) (firstDetection cfg cycle) fun r => .located r.2.1 :=
  firstDetection_triple Stage.detectInto (fun _ => Stage.saveConfig) cycle

theorem Stage.refreshLocation (cycle : MuslimtifyCycle) (nowEpoch retryAt : ℤ) :
    Stage H now (.located cfg) (refreshLocation cfg cycle nowEpoch retryAt)
      fun r => .located r.1 :=
  refreshLocation_triple Stage.detectInto (fun _ => Stage.saveConfig) cycle nowEpoch retryAt

/-- A list built under the cycle's settings is from the file when those are. -/
theorem During.rebuild {w : World} (hw : During H now (.located cfg) w) (cache : PrayerCache)
    (refreshed : Bool) : During H now (.listed (rebuild H cache cfg now refreshed)) w := by
  have hitems := (rebuild_eq (H := H) cache cfg now refreshed).2
  refine ⟨fun t ht => ?_, hw.fresh, fun hbehind _ t ht => ?_⟩
  · rw [hitems] at ht
    exact builtTriggers_inRange hw.1 (List.mem_of_mem_filter ht)
  · rw [hitems] at ht
    exact ⟨cfg, now.day, now.currentMin, hw.2.2 hbehind, t, List.mem_of_mem_filter ht, rfl⟩

/-- A write of the cycle's list. -/
theorem Stage.saveCache : Stage H now (.listed list) (saveCache list) fun _ => .listed list := by
  refine Stage.op fun w i hw => ?_
  obtain ⟨hrange, hfresh, hfrom⟩ := hw
  have hconfig : (act .left (.saveCache list) i w).2.disk.config = w.disk.config := by
    simp only [act, effect]
    split_ifs <;> rfl
  cases hworks : i.works with
  | true =>
      refine ⟨hrange, fun hstale => ?_, ?_⟩
      · simp only [watch_act, Watch.see, hworks, if_true, Bool.or_eq_false_iff] at hstale
        refine agreed_text hrange (by simp [act, effect, hworks]) ?_
        rw [hconfig]
        exact hfrom hstale.1 hstale.2
      · rw [hconfig]
        simpa only [watch_act, Watch.see, hworks, if_true] using hfrom
  | false =>
      have hdisk : (act .left (.saveCache list) i w).2.disk = w.disk := by
        simp [act, effect, hworks]
      have hwatch : watch now.today (act .left (.saveCache list) i w).2.trace =
          watch now.today w.trace := by
        simp [watch_act, Watch.see, hworks]
      refine ⟨hrange, ?_, ?_⟩
      · simpa only [Fresh, hdisk, hwatch] using hfresh
      · simpa only [hdisk, hwatch] using hfrom

/-- A list for today is from the settings in the file unless it is read from a stale file. -/
theorem Stage.loadCache : Stage H now (.located cfg) loadCache fun loaded =>
    match loaded with
    | some cache => if cache.date.text = now.today then .listed cache else .located cfg
    | none => .located cfg := by
  refine Stage.op fun w i hw => ?_
  have hanswer : (act .left .loadCache i w).1 = cacheLoad w.disk.cache i.works := rfl
  have hdisk : (act .left .loadCache i w).2.disk = w.disk := rfl
  have hstill : During H now (.located cfg) (act .left .loadCache i w).2 := by
    simpa only [During, Fresh, watch_act, Watch.see, hdisk] using hw
  rw [hanswer]
  cases hload : cacheLoad w.disk.cache i.works with
  | none => exact hstill
  | some cache =>
      have hopen := cacheLoad_open hload
      dsimp only
      split_ifs with hday
      · refine ⟨cacheLoad_inRange hopen, hstill.fresh, fun _ hheld => ?_⟩
        have hfresh : (watch now.today w.trace).stale = false := by
          simpa [watch_act, Watch.see, hload, hday] using hheld
        exact hw.fresh hfresh cache hopen
      · exact hstill

theorem Stage.todaysCache (refreshed : Bool) :
    Stage H now (.located cfg) (todaysCache H cfg now refreshed) fun r => .listed r.1 := by
  have hbuilt : ∀ cache, Stage H now (.located cfg) (do
      let saved ← DaemonCycle.saveCache (rebuild H cache cfg now refreshed)
      return (rebuild H cache cfg now refreshed, !saved)) fun r => .listed r.1 := by
    intro cache w hw
    exact Triple.bind Stage.saveCache (fun _ => Stage.pure fun _ hw => hw) w
      (hw.rebuild cache refreshed)
  unfold DaemonCycle.todaysCache
  cases refreshed with
  | true =>
      simp only [if_true, pure_eq, done_bind, Bool.false_eq_true, if_false]
      exact hbuilt _
  | false =>
      simp only [Bool.false_eq_true, if_false]
      refine Triple.bind Stage.loadCache fun loaded => ?_
      match loaded with
      | none => exact hbuilt _
      | some cache =>
          by_cases hday : cache.date.text = now.today
          · simp only [hday, if_true, cacheIsValidForToday, decide_true, Option.getD_some]
            exact Stage.pure fun _ hw => hw
          · simp only [hday, if_false, cacheIsValidForToday, decide_false, Bool.false_eq_true]
            exact hbuilt _

theorem Stage.announceAll (m : ℤ) (ts : List CacheTrigger) (p : Progress) :
    Stage H now p (announceAll cfg m ts) fun _ => p := by
  induction ts with
  | nil => exact Stage.pure fun _ hw => hw
  | cons t ts ih =>
      exact Triple.bind (Stage.other p (fun _ _ => rfl) fun _ _ _ => rfl) fun _ => ih

/-- What is still ahead is part of the list. -/
theorem During.keepAhead {w : World} (hw : During H now (.listed list) w) (m : ℤ) :
    During H now (.listed (keepAhead m list)) w :=
  ⟨keepAhead_inRange hw.1, hw.2.1, fun hb hh t ht => hw.2.2 hb hh t (List.mem_of_mem_filter ht)⟩

theorem Stage.announcing (m : ℤ) (f : Firing) :
    Stage H now (.listed f.cache) (announcing cfg m f) fun o =>
      match o with
      | none => .started
      | some g => .listed g.cache := by
  have hafter : Stage H now (.listed f.cache) (do
      CycleRun.announceAll cfg m (due m f.cache)
      return some (settled m f)) fun o =>
        match o with
        | none => .started
        | some g => .listed g.cache :=
    Triple.bind (Stage.announceAll m _ _) fun _ => Stage.pure fun _ hw => During.keepAhead hw m
  unfold CycleRun.announcing
  split
  · exact hafter
  · refine Triple.bind (Stage.other _ (fun _ _ => rfl) fun _ _ _ => rfl) fun started => ?_
    cases started with
    | true => exact hafter
    | false => exact Stage.pure fun _ hw => hw.fresh

theorem Stage.writeBack (f : Firing) (writeFailed : Bool) :
    Stage H now (.listed f.cache) (writeBack f writeFailed) fun _ => .started := by
  have hback : Stage H now (.listed f.cache) (do
      if f.dirty then
        if ← cacheExists then
          let saved ← DaemonCycle.saveCache f.cache
          return !saved
        else return writeFailed
      else return writeFailed) fun _ => .started := by
    split
    · refine Triple.bind (Stage.other _ (fun _ _ => rfl) fun _ _ _ => rfl) fun there => ?_
      cases there with
      | true => exact Triple.bind Stage.saveCache fun _ => Stage.pure fun _ hw => hw.fresh
      | false => exact Stage.pure fun _ hw => hw.fresh
    · exact Stage.pure fun _ hw => hw.fresh
  cases hn : f.notified with
  | false =>
      simp only [DaemonCycle.writeBack, hn]
      exact hback
  | true =>
      simp only [DaemonCycle.writeBack, hn]
      exact Triple.bind (Stage.other _ (fun _ _ => rfl) fun _ _ _ => rfl) fun _ => hback

theorem Stage.announceDue (cycle : MuslimtifyCycle) (retryAt : ℤ) :
    Stage H now (.located cfg) (announceDue H cfg cycle now retryAt) fun _ => .started := by
  unfold DaemonCycle.announceDue
  refine Triple.bind (Stage.todaysCache _) fun r => ?_
  dsimp only
  rw [firingLoop_eq cfg (by simp) (by simp)]
  refine Triple.bind (Stage.announcing _ ⟨r.1, false, false, cycle.notifications⟩) fun o => ?_
  match o with
  | none => exact Stage.pure fun _ hw => hw
  | some f => exact Triple.bind (Stage.writeBack f _) fun _ => Stage.pure fun _ hw => hw

theorem Stage.muslimtifyRunCycleAt (nowEpoch retryAt : ℤ) :
    Stage H now .started (muslimtifyRunCycleAt H now nowEpoch retryAt) fun _ => .started := by
  unfold DaemonCycle.muslimtifyRunCycleAt
  refine Triple.bind Stage.loadConfig fun loaded => ?_
  match loaded with
  | none => exact Stage.pure fun _ hw => hw.fresh
  | some cfg =>
      refine Triple.bind (Stage.firstDetection _) fun r => ?_
      dsimp only
      split
      · exact Triple.bind (Stage.refreshLocation _ _ _) fun _ => Stage.announceDue _ _
      · exact Stage.pure fun _ hw => hw.fresh

end Cycling

section Racing
variable {H : Host} {now : LocalTime}

/-- The save keeps what the cycle relies on. -/
theorem muslimtifySave_meets (cfg : Config) (w : World) :
    Meets (act .right) NoAssertion (During H now) (fun _ _ => True) (muslimtifySave cfg) w := by
  intro w i _
  refine ⟨saveConfig_keeps cfg i w, ?_⟩
  cases (act .right (.saveConfig cfg) i w).1 with
  | false => exact fun _ _ => trivial
  | true => exact fun w i _ => ⟨invalidate_keeps i w, fun _ _ => trivial⟩

/-- In every order of the operations of a cycle and a save, whichever of them fail,
every trigger that is in the cache file in the end is from the settings in the
file unless the cache file is stale. -/
theorem no_stale_triggers {nowEpoch retryAt : ℤ} {cfg : Config} {disk : Disk}
    {turns : List (Side × Input)} {result : CycleResult} {err : MuslimtifyError} {w : World}
    (h : interleave act turns
      (muslimtifyRunCycleAt H now nowEpoch retryAt, muslimtifySave cfg, ⟨disk, []⟩) =
        (.done result, .done err, w))
    (hstale : (watch now.today w.trace).stale = false) : Agreed H w.disk := by
  have hcycle : Meets (act .left) (During H now) NoAssertion (fun _ => During H now .started)
      (muslimtifyRunCycleAt H now nowEpoch retryAt) ⟨disk, []⟩ :=
    Stage.muslimtifyRunCycleAt nowEpoch retryAt _ fun hstale => by simp [watch] at hstale
  exact (hcycle.interleave (muslimtifySave_meets cfg _) h).1 hstale

/-- The settings with fajr switched off. -/
def juneSave : Config := updatePrayer juneConfig (fun p => { p with enabled := false }) .fajr

/-- A cycle at 23:50 and the save, in the order given. -/
def juneRace (turns : List Side) :
    CycleProgram CycleResult × CycleProgram MuslimtifyError × World :=
  interleave act (turns.map fun side => (side, juneInput))
    (muslimtifyRunCycleAt (steadyHost juneTimes) (juneTime 20621 23 50) 0 0, muslimtifySave juneSave,
      ⟨⟨some juneFile, none⟩, []⟩)

/-- The save before the cycle: its list is from the new settings. -/
theorem no_stale_triggers_june :
    ∃ result w, juneRace (List.replicate 2 .right ++ List.replicate 9 .left) =
      (.done result, .done .ok, w) ∧ result.error = .ok ∧
        Agreed (steadyHost juneTimes) w.disk := by
  obtain ⟨result, w, hrun, hok, hstale⟩ := both_succeed
    (juneRace (List.replicate 2 .right ++ List.replicate 9 .left))
    (fun w => (watch (juneTime 20621 23 50).today w.trace).stale = false)
    (by decide +kernel)
  exact ⟨result, w, hrun, hok, no_stale_triggers hrun hstale⟩

/-- The cycle loads the settings, the save writes its own and deletes the cache, and
the cycle goes on: a list with fajr is in the file, although fajr is switched off. -/
theorem stale_fajr_survives :
    ∃ result w, juneRace (.left :: List.replicate 2 .right ++ List.replicate 9 .left) =
      (.done result, .done .ok, w) ∧ result.error = .ok ∧
        ¬Agreed (steadyHost juneTimes) w.disk := by
  obtain ⟨result, w, hrun, hok, hfajr, hoff⟩ := both_succeed
    (juneRace (.left :: List.replicate 2 .right ++ List.replicate 9 .left))
    (fun w => ((cacheLoad w.disk.cache true).any fun cache =>
        cache.triggers.items.any fun t => t.prayer.text = prayerGetName .fajr) = true ∧
      (configLoad w.disk.config true).map (prayerIsEnabled · .fajr) = some false)
    (by decide +kernel)
  refine ⟨result, w, hrun, hok, fun hagreed => ?_⟩
  obtain ⟨cfg, hload, hoff⟩ := Option.map_eq_some_iff.mp hoff
  cases hcache : cacheLoad w.disk.cache true with
  | none => simp [hcache] at hfajr
  | some cache =>
      simp only [hcache, Option.any_some, List.any_eq_true, decide_eq_true_eq] at hfajr
      obtain ⟨t, ht, hname⟩ := hfajr
      obtain ⟨p, hp, henabled, -⟩ := (hagreed cache hcache t ht).asked hload
      rw [← prayerGetName_injective (hname.symm.trans hp), hoff] at henabled
      cases henabled

end Racing

end Muslimtify.SaveRace
