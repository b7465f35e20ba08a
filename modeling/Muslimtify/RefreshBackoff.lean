import Muslimtify.DaemonRuns

/-!
# Failed refreshes

A cycle that finds the saved location stale looks it up again, unless a retry
time has been set that is still ahead. The retry time only moves forward, so
once it is set no cycle before it makes such a lookup, in whatever order the
clock is read.

It is set when the lookup fails. A location that was found and could not be
stored is reported as a failed refresh too, without setting it.
-/
namespace Muslimtify.RefreshBackoff
open CText CDouble CivilDays Settings ConfigFile Schedule TriggerCache TriggerPartition Detection
open Program DaemonCycle CycleRun DaemonRuns

section Lookups

def isLookup : Op → Bool
  | .detect _ => true
  | _ => false

def lookups (trace : List Event) : ℕ := trace.countP fun ev => isLookup ev.op

/-- The lookup of a first run follows right on the reading of settings that need it. -/
def firstRun : List Event → Bool
  | _ :: ev :: _ =>
      match ev.op with
      | .detect cfg => configLocationNeedsDetect cfg
      | _ => false
  | _ => false

/-- How often a cycle looks the location up for a refresh. -/
def refreshLookups (trace : List Event) : ℕ := lookups trace - if firstRun trace then 1 else 0

/-- In every pair of cycles the later one makes no lookup for a refresh while the failed
refresh of the earlier one is not long enough ago. -/
def BacksOff (d : Daemon) : Prop :=
  d.past.Pairwise fun r r' => r.result.cycle.refreshFailed = true →
    r.nowEpoch < r'.nowEpoch → r'.nowEpoch < r.nowEpoch + refreshRetrySec →
      refreshLookups r'.trace = 0

theorem lookups_append (l l' : List Event) : lookups (l ++ l') = lookups l + lookups l' :=
  List.countP_append

/-- A program without lookups adds none. -/
theorem lookups_run {α : Type} {p : CycleProgram α} (h : p.Uses (isLookup · = false))
    (party : Side) (e : ℕ → Input) (w : World) :
    lookups (run (act party) p e w).state.trace = lookups w.trace := by
  induction p generalizing e w with
  | done a => rfl
  | step op next ih =>
      rw [run_step, ih _ (h.2 _)]
      simp [act, lookups, h.1]

theorem firstRun_append {l : List Event} (h : firstRun l = true) (l' : List Event) :
    firstRun (l ++ l') = true := by
  match l, h with
  | _ :: _ :: _, h => exact h

/-- No lookup so far, but for that of a first run. -/
def NoRefresh (trace : List Event) : Prop :=
  lookups trace = 0 ∨ firstRun trace = true ∧ lookups trace = 1

theorem NoRefresh.refreshLookups {l : List Event} (h : NoRefresh l) : refreshLookups l = 0 := by
  unfold RefreshBackoff.refreshLookups
  rcases h with h | ⟨hfirst, h⟩
  · omega
  · rw [hfirst, if_pos rfl]
    omega

theorem NoRefresh.run {α : Type} {p : CycleProgram α} {w : World} (hw : NoRefresh w.trace)
    (h : p.Uses (isLookup · = false)) (party : Side) (e : ℕ → Input) :
    NoRefresh (run (act party) p e w).state.trace := by
  have hcount := lookups_run h party e w
  obtain ⟨l, hl⟩ := trace_run party p e w
  rcases hw with hw | ⟨hfirst, hw⟩
  · exact Or.inl (hcount.trans hw)
  · refine Or.inr ⟨?_, hcount.trans hw⟩
    rw [hl]
    exact firstRun_append hfirst l

end Lookups

section Refresh
variable {H : Host}

/-- The settings with which a cycle comes to its refresh, and the inputs left for it. -/
def beforeRefresh (file : Option CString) (e : ℕ → Input) : Option (Config × (ℕ → Input)) :=
  match configLoad file (e 0).works with
  | none => none
  | some cfg =>
      if configLocationNeedsDetect cfg then
        match muslimtifyDetectLocationWith cfg (locationDetect (e 1).lookups cfg) with
        | none => none
        | some (found, _) => if (e 2).works then some (found, fun n => e (n + 3)) else none
      else some (cfg, fun n => e (n + 1))

/-- What a refresh finds it can store. -/
def StoresRefresh (d : Daemon) : Job → Prop
  | .cycle c => ∀ cfg e, beforeRefresh d.disk.config c.inputs = some (cfg, e) →
      locationIsStale cfg c.nowEpoch = true → d.retryAt ≤ c.nowEpoch →
        (locationDetect (e 0).lookups cfg).1.isSome = true → (e 1).works = true
  | .save _ _ => True

/-- What a refresh leaves: its result, and the retry time. -/
theorem refreshLocation_backoff (party : Side) (cfg : Config) (e : ℕ → Input) (w : World)
    (cycle : MuslimtifyCycle) (nowEpoch retryAt : ℤ) :
    let o := run (act party) (refreshLocation cfg cycle nowEpoch retryAt) e w
    (nowEpoch < retryAt → o.state = w) ∧
      (o.value.2.1.refreshFailed = cycle.refreshFailed ∧ o.value.2.2 = retryAt ∨
        locationIsStale cfg nowEpoch = true ∧ retryAt ≤ nowEpoch ∧
          (o.value.2.2 = nowEpoch + refreshRetrySec ∨
            o.value.2.2 = retryAt ∧ (locationDetect (e 0).lookups cfg).1.isSome = true ∧
              (e 1).works = false)) := by
  unfold refreshLocation
  by_cases hstale : (locationIsStale cfg nowEpoch && decide (retryAt ≤ nowEpoch)) = true
  · have hboth := hstale
    rw [Bool.and_eq_true, decide_eq_true_eq] at hboth
    simp only [hstale, if_true, detectInto, detect, step_bind, done_bind, pure_eq, run_step, act,
      answer]
    refine ⟨fun h => absurd hboth.2 (not_le.mpr h), ?_⟩
    cases hfound : muslimtifyDetectLocationWith cfg (locationDetect (e 0).lookups cfg) with
    | none => exact Or.inr ⟨hboth.1, hboth.2, Or.inl rfl⟩
    | some found =>
        have hsome : (locationDetect (e 0).lookups cfg).1.isSome = true := by
          have := Option.isSome_of_eq_some hfound
          rwa [muslimtifyDetectLocationWith, Option.isSome_map] at this
        simp only [saveConfig, step_bind, done_bind, run_step]
        cases hworks : (e 1).works with
        | true => exact Or.inl (by simp [act, answer, hworks])
        | false =>
            exact Or.inr ⟨hboth.1, hboth.2, Or.inr ⟨by simp [act, answer, hworks], hsome, rfl⟩⟩
  · rw [if_neg hstale]
    exact ⟨fun _ => rfl, Or.inl ⟨rfl, rfl⟩⟩

/-- The first half of a cycle stops before the refresh, or comes to it. -/
theorem locate_refresh (party : Side) (disk : Disk) (e : ℕ → Input) (nowEpoch retryAt : ℤ) :
    let o := run (act party) (locate nowEpoch retryAt) e ⟨disk, []⟩
    (∃ result, o.value = .inl result ∧ result.retryAt = retryAt ∧
        result.cycle.refreshFailed = false ∧ NoRefresh o.state.trace) ∨
      ∃ cfg e' cycle w, beforeRefresh disk.config e = some (cfg, e') ∧
        cycle.refreshFailed = false ∧ NoRefresh w.trace ∧
        o.value = .inr (run (act party) (refreshLocation cfg cycle nowEpoch retryAt) e' w).value ∧
        o.state = (run (act party) (refreshLocation cfg cycle nowEpoch retryAt) e' w).state := by
  simp only [locate, loadConfig, step_bind, done_bind, run_step, beforeRefresh]
  have hanswer : (act party .loadConfig (e 0) ⟨disk, []⟩).1 = configLoad disk.config (e 0).works :=
    rfl
  rw [hanswer]
  cases hload : configLoad disk.config (e 0).works with
  | none => exact Or.inl ⟨_, rfl, rfl, rfl, Or.inl rfl⟩
  | some cfg =>
      cases hneeds : configLocationNeedsDetect cfg with
      | false =>
          simp only [firstDetection, hneeds, Bool.false_eq_true, if_false, pure_eq, done_bind,
            if_true, run_bind, run_done]
          exact Or.inr ⟨cfg, _, .zero, _, rfl, rfl, Or.inl rfl, rfl, rfl⟩
      | true =>
          have hfirst : ∀ l : List Event, lookups l = 0 → NoRefresh
              ((act party (.detect cfg) (e 1) (act party .loadConfig (e 0) ⟨disk, []⟩).2).2.trace ++
                l) := by
            intro l hl
            refine Or.inr ⟨hneeds, ?_⟩
            rw [lookups_append, hl]
            rfl
          have hfound : (act party (.detect cfg) (e 1)
              (act party .loadConfig (e 0) ⟨disk, []⟩).2).1 = locationDetect (e 1).lookups cfg := rfl
          simp only [firstDetection, hneeds, if_true, detectInto, detect, step_bind, done_bind,
            pure_eq, run_step, hfound]
          cases hdetect : muslimtifyDetectLocationWith cfg (locationDetect (e 1).lookups cfg) with
          | none =>
              refine Or.inl ⟨_, rfl, rfl, rfl, ?_⟩
              have := hfirst [] rfl
              rwa [List.append_nil] at this
          | some found =>
              obtain ⟨found, detection⟩ := found
              simp only [saveConfig, step_bind, done_bind, run_step]
              cases hworks : (e 2).works with
              | false =>
                  simp only [act, answer, hworks, Bool.false_eq_true, if_false]
                  exact Or.inl ⟨_, rfl, rfl, rfl, hfirst _ rfl⟩
              | true =>
                  simp only [act, answer, hworks, if_true, run_bind, run_done]
                  exact Or.inr ⟨found, _, _, _, rfl, rfl, hfirst _ rfl, rfl, rfl⟩

/-- The second half of a cycle looks nothing up. -/
theorem announceDue_uses (cfg : Config) (cycle : MuslimtifyCycle) (now : LocalTime)
    (retryAt : ℤ) : (announceDue H cfg cycle now retryAt).Uses (isLookup · = false) := by
  unfold announceDue
  refine Uses.bind (todaysCache_uses (P := (isLookup · = false)) rfl (fun _ => rfl) _ _ _ _)
    fun listed => ?_
  obtain ⟨cache, writeFailed⟩ := listed
  dsimp only
  rw [firingLoop_eq cfg (by simp) (by simp)]
  refine Uses.bind (announcing_uses (P := (isLookup · = false)) rfl (fun _ _ => rfl) _ _ _)
    fun fired => ?_
  cases fired with
  | none => trivial
  | some f =>
      exact Uses.bind (writeBack_uses (P := (isLookup · = false)) rfl (fun _ => rfl) rfl _ _)
        fun _ => trivial

/-- The second half of a cycle hands on what the refresh has left. -/
theorem announceDue_value (party : Side) (cfg : Config) (cycle : MuslimtifyCycle)
    (now : LocalTime) (retryAt : ℤ) (e : ℕ → Input) (w : World) :
    let o := run (act party) (announceDue H cfg cycle now retryAt) e w
    o.value.retryAt = retryAt ∧ o.value.cycle.refreshFailed = cycle.refreshFailed := by
  simp only [announceDue, run_bind]
  split <;> simp [run_bind]

/-- What one cycle does about refreshing: before the retry time it looks nothing up, it moves
the retry time only forward, and a refresh that fails sets it, unless it was to be stored. -/
theorem cycle_backoff (H : Host) (d : Daemon) (c : CycleJob) :
    (c.nowEpoch < d.retryAt → refreshLookups (report H d c).trace = 0) ∧
      d.retryAt ≤ (report H d c).result.retryAt ∧
      (StoresRefresh d (.cycle c) → (report H d c).result.cycle.refreshFailed = true →
        c.nowEpoch + refreshRetrySec ≤ (report H d c).result.retryAt) := by
  have hlocate := locate_refresh .left d.disk c.inputs c.nowEpoch d.retryAt
  simp only [report, runCycle, muslimtifyRunCycleAt_eq, run_bind]
  generalize run (act .left) (locate c.nowEpoch d.retryAt) c.inputs ⟨d.disk, []⟩ = o at hlocate ⊢
  obtain ⟨value, e₁, w₁⟩ := o
  simp only at hlocate ⊢
  rcases hlocate with ⟨result, rfl, hretry, hfailed, hquiet⟩ |
    ⟨cfg, e, cycle, w, hbefore, hfailed, hquiet, rfl, rfl⟩
  · exact ⟨fun _ => hquiet.refreshLookups, hretry.ge, fun _ h => absurd (hfailed.symm.trans h)
      (by decide)⟩
  · obtain ⟨hstill, hleft⟩ := refreshLocation_backoff .left cfg e w cycle c.nowEpoch d.retryAt
    generalize run (act .left) (refreshLocation cfg cycle c.nowEpoch d.retryAt) e w = o
      at hstill hleft ⊢
    obtain ⟨⟨cfg', cycle', again⟩, e₂, w₂⟩ := o
    simp only at hstill hleft ⊢
    obtain ⟨hretry, hreport⟩ := announceDue_value (H := H) .left cfg' cycle' c.now again e₁ w₂
    rw [hretry, hreport]
    refine ⟨fun h => ?_, ?_, fun hstores hf => ?_⟩
    · rw [hstill h]
      exact (hquiet.run (announceDue_uses _ _ _ _) .left e₁).refreshLookups
    · rcases hleft with ⟨-, h⟩ | ⟨-, hle, h | ⟨h, -⟩⟩
      · exact h.ge
      · rw [h, refreshRetrySec]
        omega
      · exact h.ge
    · rcases hleft with ⟨h, -⟩ | ⟨hstale, hle, h | ⟨-, hfound, hworks⟩⟩
      · rw [h, hfailed] at hf
        cases hf
      · exact h.ge
      · rw [hstores cfg e hbefore hstale hle hfound] at hworks
        cases hworks

end Refresh

section Runs
variable {H : Host}

/-- Every failed refresh is still waited for, and all have been so far. -/
structure Waits (d : Daemon) : Prop where
  backsOff : BacksOff d
  ahead : ∀ r ∈ d.past, r.result.cycle.refreshFailed = true →
    r.nowEpoch + refreshRetrySec ≤ d.retryAt

theorem waits_step {d : Daemon} {j : Job} (h : Waits d) (hj : StoresRefresh d j) :
    Waits (step H d j) := by
  cases j with
  | save cfg inputs => exact ⟨h.backsOff, h.ahead⟩
  | cycle c =>
      obtain ⟨hquiet, hforward, hset⟩ := cycle_backoff H d c
      refine ⟨?_, fun r hr hf => ?_⟩
      · refine List.pairwise_append.mpr ⟨h.backsOff, List.pairwise_singleton _ _, ?_⟩
        intro r hr r' hr' hf _ hlt
        obtain rfl := List.mem_singleton.mp hr'
        exact hquiet (hlt.trans_le (h.ahead r hr hf))
      · rcases List.mem_append.mp hr with hr | hr
        · exact (h.ahead r hr hf).trans hforward
        · obtain rfl := List.mem_singleton.mp hr
          exact hset hj hf

/-- In every run in which a refresh can store what it finds, a failed refresh backs off. -/
theorem refresh_backs_off (H : Host) {d : Daemon} {jobs : List Job} (hd : d.past = [])
    (hstores : Along (step H) StoresRefresh d jobs) : BacksOff (runJobs H d jobs) := by
  have hstart : Waits d :=
    ⟨by rw [BacksOff, hd]; exact List.Pairwise.nil, by rw [hd]; exact fun r hr => by cases hr⟩
  exact (hstores.invariant Waits (fun _ _ hs hj => waits_step hs hj) hstart).backsOff

/-- Where every operation works what is found is stored. -/
theorem storesRefresh_of_works {d : Daemon} {c : CycleJob} (h : ∀ n, (c.inputs n).works = true) :
    StoresRefresh d (.cycle c) := by
  intro cfg e hbefore _ _ _
  simp only [beforeRefresh, h, if_true] at hbefore
  cases hload : configLoad d.disk.config true with
  | none =>
      rw [hload] at hbefore
      cases hbefore
  | some loaded =>
      simp only [hload] at hbefore
      cases hneeds : configLocationNeedsDetect loaded with
      | false =>
          rw [hneeds, if_neg Bool.false_ne_true] at hbefore
          cases hbefore
          exact h 2
      | true =>
          rw [hneeds, if_pos rfl] at hbefore
          split at hbefore
          · cases hbefore
          · cases hbefore
            exact h 4

/-- A cycle in June, a long time after the location was stored, with what the network and the
disk have to say. -/
def staleCycle (now : LocalTime) (nowEpoch : ℤ) (ipinfo : Option Place) (works : ℕ → Bool) :
    CycleJob :=
  ⟨now, nowEpoch, fun n => ⟨works n, .ok, junePlace, ipinfo⟩⟩

/-- The network is gone: a minute later it is not asked again. -/
def offlineCycles : List Job :=
  [.cycle (staleCycle (juneTime 20621 23 40) 100000 none fun _ => true),
    .cycle (staleCycle (juneTime 20621 23 41) 100060 none fun _ => true)]

theorem refresh_backs_off_offline :
    ((runJobs (steadyHost juneTimes) juneStart offlineCycles).past.map
        fun r => r.result.cycle.refreshFailed) = [true, false] ∧
      BacksOff (runJobs (steadyHost juneTimes) juneStart offlineCycles) :=
  ⟨by decide +kernel, refresh_backs_off (steadyHost juneTimes) rfl
    ⟨storesRefresh_of_works fun _ => rfl, storesRefresh_of_works fun _ => rfl, trivial⟩⟩

/-- The same place, found at that time. -/
def junePlaceFound : Place :=
  { junePlace with
    updatedAt := 100000
    stamped := by decide }

/-- The location is found and cannot be stored: it is looked up again a minute later. -/
theorem unstored_refresh_repeated :
    ¬BacksOff (runJobs (steadyHost juneTimes) juneStart
      [.cycle (staleCycle (juneTime 20621 23 40) 100000 (some junePlaceFound) (· != 2)),
        .cycle (staleCycle (juneTime 20621 23 41) 100060 (some junePlaceFound) (· != 2))]) := by
  unfold BacksOff
  decide +kernel

end Runs

end Muslimtify.RefreshBackoff
