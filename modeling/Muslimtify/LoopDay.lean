import Muslimtify.AtMostOnce
import Muslimtify.DaemonLoop

/-!
# What the loop makes of its minutes

The steps of the loop, with signals and all, amount to a run of whole cycles, each
in a later minute than the one before. So what is known of such runs is known of
the loop without a word about time: that no cycle comes too early is its own doing.
On a day on which the loop also gets to every minute, each adhan is announced in
its own minute and not again.
-/
namespace Muslimtify.LoopDay
open Settings ConfigFile Schedule TriggerCache TriggerPartition CacheFile Detection Program
open DaemonCycle CycleRun DaemonRuns AtMostOnce DaemonLoop Transitions

section Jobs
variable {H : Host} {localtime : ℤ → LocalTime} {l l' : Loop} {e : LoopEvent}
  {es : List LoopEvent} {d : Daemon} {first last : ℤ}

/-- The job that the event completes. -/
def jobOf (localtime : ℤ → LocalTime) (l : Loop) : LoopEvent → Option Job
  | .finishCycle inputs =>
      match l.pc with
      | .cycle e => some (.cycle ⟨localtime e, e, inputs⟩)
      | _ => none
  | .save cfg inputs => some (.save cfg inputs)
  | _ => none

/-- The cycle that is running, by the time it read. -/
def running : Pc → List ℤ
  | .cycle e | .adhan e => [e]
  | _ => []

/-- A cycle comes in a later minute than the one before it. -/
def Later (d : Daemon) : Job → Prop
  | .cycle c => d.clock < c.now.moment
  | .save _ _ => True

/-- From `first` to `last` the local time goes forward with the minutes. -/
def ZoneForward (localtime : ℤ → LocalTime) (first last : ℤ) : Prop :=
  ∀ a b, first ≤ a → b ≤ last → a / 60 < b / 60 → (localtime a).moment < (localtime b).moment

theorem daemon_step (h : Happens H localtime l e l') :
    l'.daemon = ((jobOf localtime l e).map (DaemonRuns.step H l.daemon)).getD l.daemon := by
  cases h <;> simp_all [jobOf, handleStopSignal, Loop.await]

/-- The daemon's last cycle ended before the one that is running. -/
structure Clocked (localtime : ℤ → LocalTime) (d : Daemon) (first : ℤ) (l : Loop) : Prop where
  since : ∀ a ∈ l.starts, first ≤ a
  past : l.daemon.clock = d.clock ∨ ∃ a ∈ l.starts, l.daemon.clock = (localtime a).moment
  now : ∀ e ∈ running l.pc, l.daemon.clock < (localtime e).moment ∧ e ∈ l.starts
  done : l.daemon.past.map (·.nowEpoch) ++ running l.pc = d.past.map (·.nowEpoch) ++ l.starts

theorem Clocked.same (hc : Clocked localtime d first l) (hdaemon : l'.daemon.clock = l.daemon.clock)
    (hpast : l'.daemon.past = l.daemon.past) (hstarts : l'.starts = l.starts)
    (hpc : running l'.pc = running l.pc) : Clocked localtime d first l' := by
  constructor
  · rw [hstarts]
    exact hc.since
  · rw [hdaemon, hstarts]
    exact hc.past
  · rw [hdaemon, hstarts, hpc]
    exact hc.now
  · rw [hpast, hstarts, hpc]
    exact hc.done

theorem Clocked.step (hzone : ZoneForward localtime first last)
    (hearly : ∀ t, first ≤ t → t ≤ last → d.clock < (localtime t).moment)
    (hc : Clocked localtime d first l) (ha : Aligned l) (hfirst : first ≤ l.time)
    (hlast : l.time ≤ last) (h : Happens H localtime l e l') : Clocked localtime d first l' := by
  have hc' := hc
  obtain ⟨hsince, hpast, hnow, hdone⟩ := hc
  cases h with
  | starts hpc =>
      have hbefore := ha.onTheWay
      simp only [OnTheWay, hpc] at hbefore
      have hclock : l.daemon.clock < (localtime l.time).moment := by
        rcases hpast with hpast | ⟨a, hmem, hpast⟩
        · exact hpast ▸ hearly _ hfirst hlast
        · exact hpast ▸ hzone a l.time (hsince a hmem) hlast (hbefore a hmem)
      refine ⟨fun a hmem => ?_,
        hpast.imp_right (Exists.imp fun a h => ⟨List.mem_append_left _ h.1, h.2⟩),
        fun e he => ?_, ?_⟩
      · rcases List.mem_append.mp hmem with hmem | hmem
        · exact hsince a hmem
        · exact hfirst.trans_eq (List.mem_singleton.mp hmem).symm
      · obtain rfl := List.mem_singleton.mp he
        exact ⟨hclock, List.mem_append_right _ (List.mem_singleton_self _)⟩
      · rw [hpc] at hdone
        simp only [running, List.append_nil] at hdone ⊢
        rw [hdone, List.append_assoc]
  | finishes hpc =>
      rename_i epoch inputs
      rw [hpc] at hnow hdone
      refine ⟨hsince, Or.inr ⟨epoch, (hnow epoch (List.mem_singleton_self _)).2, rfl⟩,
        fun e he => (List.not_mem_nil he).elim, ?_⟩
      simpa [running, DaemonRuns.step, report] using hdone
  | saves hcycle => exact ⟨hsince, hpast, hnow, hdone⟩
  | _ =>
      exact hc'.same rfl rfl rfl (by simp_all [running, handleStopSignal, Loop.await])

theorem Clocked.later (hc : Clocked localtime d first l) {j : Job}
    (hj : jobOf localtime l e = some j) : Later l.daemon j := by
  cases e with
  | finishCycle inputs =>
      simp only [jobOf] at hj
      split at hj
      · rename_i epoch hpc
        obtain rfl := Option.some.inj hj
        have hnow := hc.now
        rw [hpc] at hnow
        exact (hnow epoch (List.mem_singleton_self _)).1
      · cases hj
  | save cfg inputs =>
      obtain rfl := Option.some.inj hj
      trivial
  | _ => cases hj

theorem wall_mono (hok : Forward l e) (h : Happens H localtime l e l') : l.wall ≤ l'.wall := by
  cases h with
  | clockSet => exact hok
  | passes => dsimp only; omega
  | _ => exact le_rfl

/-- What holds of the loop and of the jobs it has done. -/
structure Doing (H : Host) (localtime : ℤ → LocalTime) (ok : Daemon → Job → Prop) (d : Daemon)
    (first : ℤ) (l : Loop) : Prop where
  sound : Sound l
  aligned : Aligned l
  clocked : Clocked localtime d first l
  onward : first ≤ l.time
  jobs : ∃ jobs, l.daemon = runJobs H d jobs ∧
    Along (DaemonRuns.step H) (fun d j => ok d j ∧ Later d j) d jobs

/-- The clock is not set back and not past `last`, and the job that the event
completes, if there is one, is among those of interest. -/
structure Going (ok : Daemon → Job → Prop) (localtime : ℤ → LocalTime) (last : ℤ) (l : Loop)
    (e : LoopEvent) : Prop where
  forward : Forward l e
  time : l.time ≤ last
  job : ∀ j, jobOf localtime l e = some j → ok l.daemon j

theorem Doing.step {ok : Daemon → Job → Prop} (hzone : ZoneForward localtime first last)
    (hearly : ∀ t, first ≤ t → t ≤ last → d.clock < (localtime t).moment)
    (hd : Doing H localtime ok d first l) (hgoing : Going ok localtime last l e)
    (h : Happens H localtime l e l') : Doing H localtime ok d first l' := by
  refine ⟨hd.sound.step h, hd.aligned.step hgoing.forward h,
    hd.clocked.step hzone hearly hd.aligned hd.onward hgoing.time h,
    hd.onward.trans (time_mono (wall_mono hgoing.forward h)), ?_⟩
  obtain ⟨jobs, hjobs, halong⟩ := hd.jobs
  rw [daemon_step h]
  cases hj : jobOf localtime l e with
  | none => exact ⟨jobs, hjobs, halong⟩
  | some j =>
      refine ⟨jobs ++ [j], ?_, halong.append ?_⟩
      · rw [runJobs, List.foldl_append, hjobs]
        rfl
      · rw [← runJobs, ← hjobs]
        exact ⟨⟨hgoing.job j hj, hd.clocked.later hj⟩, trivial⟩

theorem doing_launched (H : Host) (localtime : ℤ → LocalTime) (ok : Daemon → Job → Prop)
    (d : Daemon) (wall monotonic : ℤ) :
    Doing H localtime ok d (wall / nsPerSec) (launched d wall monotonic) where
  sound := sound_launched d wall monotonic
  aligned := aligned_launched d wall monotonic
  clocked := ⟨fun _ h => (List.not_mem_nil h).elim, Or.inl rfl,
    fun _ h => (List.not_mem_nil h).elim, rfl⟩
  onward := le_rfl
  jobs := ⟨[], rfl, trivial⟩

/-- The steps of the loop, with signals, timers and the clock among them, are a run
of whole cycles, and the saves between them, in which every cycle comes in a later
minute than the one before. Each cycle that was started is among them, once and in
its turn, unless it is running still. From the start on the local time goes forward
with the minutes, so the clock is not set back and neither is the local time at the
end of a summer time, and it is later than the last cycle of the daemon before. Saves
are between cycles, as the loop's events have it. -/
theorem loop_is_job_run {ok : Daemon → Job → Prop} {wall monotonic last : ℤ}
    (hzone : ZoneForward localtime (wall / nsPerSec) last)
    (hearly : ∀ t, wall / nsPerSec ≤ t → t ≤ last → d.clock < (localtime t).moment)
    (hok : Allowed (occur H localtime) (Going ok localtime last) (launched d wall monotonic) es)
    (h : follow (occur H localtime) (launched d wall monotonic) es = some l) :
    (∃ jobs, l.daemon = runJobs H d jobs ∧
      Along (DaemonRuns.step H) (fun d j => ok d j ∧ Later d j) d jobs) ∧
      l.daemon.past.map (·.nowEpoch) ++ running l.pc = d.past.map (·.nowEpoch) ++ l.starts := by
  have hdoing := hok.invariant (Doing H localtime ok d (wall / nsPerSec))
    (fun l e l' hd hgoing hocc =>
      hd.step hzone hearly hgoing (occur_happens hd.sound.opened hocc))
    (doing_launched H localtime ok d wall monotonic) h
  exact ⟨hdoing.jobs, hdoing.clocked.done⟩

end Jobs

section Reached
variable {H : Host} {localtime : ℤ → LocalTime} {l l' : Loop} {e : LoopEvent}
  {es : List LoopEvent} {d : Daemon}

/-- A cycle starts before the minute after the one of an earlier cycle is over. -/
def Prompt (l : Loop) (e : LoopEvent) : Prop :=
  ∀ s, e = .run s → l.pc = .start → l.starts ≠ [] → ∃ a ∈ l.starts, l.time / 60 ≤ a / 60 + 1

/-- No minute between two cycles is without one. -/
def GapFree (starts : List ℤ) : Prop :=
  ∀ a ∈ starts, ∀ b ∈ starts, ∀ m, a / 60 ≤ m → m ≤ b / 60 → ∃ c ∈ starts, c / 60 = m

theorem GapFree.append {starts : List ℤ} {t : ℤ} (h : GapFree starts)
    (hsorted : ∀ a ∈ starts, a / 60 < t / 60)
    (hnext : starts ≠ [] → ∃ a ∈ starts, t / 60 ≤ a / 60 + 1) : GapFree (starts ++ [t]) := by
  intro a ha b hb m hle hge
  rcases (em (m = t / 60)) with rfl | hm
  · exact ⟨t, List.mem_append_right _ (List.mem_singleton_self t), rfl⟩
  · rcases List.mem_append.mp ha with ha | ha
    · obtain ⟨p, hp, hnext⟩ := hnext (List.ne_nil_of_mem ha)
      have hmax : b / 60 ≤ t / 60 := by
        rcases List.mem_append.mp hb with hb | hb
        · exact (hsorted b hb).le
        · rw [List.mem_singleton.mp hb]
      obtain ⟨c, hc, rfl⟩ := h a ha p hp m hle (by omega)
      exact ⟨c, List.mem_append_left _ hc, rfl⟩
    · obtain rfl := List.mem_singleton.mp ha
      rcases List.mem_append.mp hb with hb | hb
      · have := hsorted b hb
        omega
      · obtain rfl := List.mem_singleton.mp hb
        omega

/-- The reports are of the time at which their cycles started. -/
def Dated (localtime : ℤ → LocalTime) (d : Daemon) : Prop :=
  ∀ r ∈ d.past, r.now = localtime r.nowEpoch

theorem gapFree_step (ha : Aligned l) (hg : GapFree l.starts) (hp : Prompt l e)
    (h : Happens H localtime l e l') : GapFree l'.starts := by
  cases h with
  | starts hpc =>
      have hbefore := ha.onTheWay
      simp only [OnTheWay, hpc] at hbefore
      exact hg.append hbefore (hp _ rfl hpc)
  | _ => exact hg

theorem dated_step (hd : Dated localtime l.daemon) (h : Happens H localtime l e l') :
    Dated localtime l'.daemon := by
  cases h with
  | finishes hpc =>
      intro r hr
      rcases List.mem_append.mp hr with hr | hr
      · exact hd r hr
      · obtain rfl := List.mem_singleton.mp hr
        rfl
  | _ => exact hd

end Reached

section OneDay
variable {H : Host} {localtime : ℤ → LocalTime} {base : Config} {day : ℤ} {l : Loop}
  {es : List LoopEvent} {d : Daemon} {c : CycleJob}

/-- A cycle of the day in which everything works. Nothing is said about when it comes. -/
structure Smooth (H : Host) (base : Config) (day : ℤ) (d : Daemon) (c : CycleJob) : Prop where
  works : ∀ n, (c.inputs n).works = true
  today : c.now.day = day
  set : ∀ cfg, configLoad d.disk.config true = some cfg → configLocationNeedsDetect cfg = false
  times : ∀ cfg, configLoad d.disk.config true = some cfg → ∀ e,
    timesOfDay H (refreshOf cfg c.nowEpoch d.retryAt (c.inputs 1).lookups).1 e = timesOfDay H base e

def SmoothDay (H : Host) (base : Config) (day : ℤ) (d : Daemon) : Job → Prop
  | .cycle c => Smooth H base day d c
  | .save _ _ => False

theorem Smooth.onDay (h : Smooth H base day d c) (hlater : d.clock < c.now.moment) :
    OnDay H base day d c :=
  ⟨h.works, h.today, hlater.le, h.set, h.times, fun _ _ _ => hlater⟩

/-- Every adhan at the minute of a cycle was announced by that cycle. -/
def HeardInTime (H : Host) (base : Config) (day : ℤ) (d : Daemon) : Prop :=
  ∀ r ∈ d.past, ∀ o : Occurrence H base, o.day - day ∈ dayDeltas → 1440 * day ≤ o.minute →
    o.minute < 1440 * day + 1440 → r.now.moment = o.minute →
    ∃ x ∈ notices r.trace, stands o 0 (r.now.day, x.1) = true

theorem HeardInTime.cycle (hh : HeardInTime H base day d) (hr : DayRun H base day d)
    (hz : NoZeroReminder base) (h : Smooth H base day d c) (hlater : d.clock < c.now.moment) :
    HeardInTime H base day (DaemonRuns.step H d (.cycle c)) := by
  intro r hmem o hday h₀ h₁ hminute
  rcases List.mem_append.mp hmem with hmem | hmem
  · exact hh r hmem o hday h₀ h₁ hminute
  · obtain rfl := List.mem_singleton.mp hmem
    have hminute : c.now.moment = o.minute := hminute
    obtain ⟨cfg, list, -, hworks, hok, -, -, hsteady, -⟩ := (h.onDay hlater).ready hr
    have htoday := h.today
    -- nothing was announced at this minute before, so the trigger is on the list
    have hlist := hworks.lists hr.listed htoday hsteady hz (o := o) (by rwa [htoday])
      (by omega) (by rwa [htoday]) (by rwa [htoday]) (by simp only [catchupMaxMin]; omega)
      fun _ => hminute.le
    obtain ⟨t, ht, hst⟩ := List.countP_pos_iff.mp hlist
    obtain ⟨-, hbefore, -, htrigger⟩ := Occurrence.isTrigger_iff.mp hst
    rw [LocalTime.moment] at hminute
    dsimp only at hbefore htrigger
    have hdue : isDue c.now.currentMin t = true :=
      isDue_iff.mpr ⟨by omega, by simp only [catchupMaxMin]; omega, by omega⟩
    rcases hworks.notices with ⟨hn, -⟩ | ⟨-, herr⟩
    · rw [hn]
      exact ⟨_, List.mem_map_of_mem (List.mem_filter.mpr ⟨ht, hdue⟩), hst⟩
    · rw [hok] at herr
      cases herr

theorem HeardInTime.once (hh : HeardInTime H base day d) (hr : DayRun H base day d)
    (hbase : base.InRange) {o : Occurrence H base} (hday : o.day - day ∈ dayDeltas)
    (h₀ : 1440 * day ≤ o.minute) (h₁ : o.minute < 1440 * day + 1440) {r : Report}
    (hr' : r ∈ d.past) (hminute : r.now.moment = o.minute) :
    d.said.countP (stands o 0) = 1 ∧ ∃ x ∈ notices r.trace, stands o 0 (r.now.day, x.1) = true := by
  obtain ⟨x, hx, hst⟩ := hh r hr' o hday h₀ h₁ hminute
  have hsaid : (r.now.day, x.1) ∈ d.said :=
    List.mem_flatMap.mpr ⟨r, hr', List.mem_map.mpr ⟨x, hx, rfl⟩⟩
  have hpos : 0 < d.said.countP (stands o 0) := List.countP_pos_iff.mpr ⟨_, hsaid, hst⟩
  exact ⟨le_antisymm (Bounded.asAsked hr.bounded hbase o).1 hpos, x, hx, hst⟩

/-- What holds throughout a day of the loop. -/
structure LoopRun (H : Host) (localtime : ℤ → LocalTime) (base : Config) (day : ℤ) (d : Daemon)
    (first : ℤ) (l : Loop) : Prop where
  doing : Doing H localtime (SmoothDay H base day) d first l
  run : DayRun H base day l.daemon
  heard : HeardInTime H base day l.daemon
  gapFree : GapFree l.starts
  dated : Dated localtime l.daemon

theorem LoopRun.step {l' : Loop} {e : LoopEvent} {first last : ℤ} (hz : NoZeroReminder base)
    (hzone : ZoneForward localtime first last)
    (hearly : ∀ t, first ≤ t → t ≤ last → d.clock < (localtime t).moment)
    (hl : LoopRun H localtime base day d first l)
    (hgoing : Going (SmoothDay H base day) localtime last l e) (hprompt : Prompt l e)
    (h : Happens H localtime l e l') : LoopRun H localtime base day d first l' := by
  refine ⟨hl.doing.step hzone hearly hgoing h, ?_, ?_,
    gapFree_step hl.doing.aligned hl.gapFree hprompt h, dated_step hl.dated h⟩
  all_goals
    rw [daemon_step h]
    cases hj : jobOf localtime l e with
    | none => first | exact hl.run | exact hl.heard
    | some j =>
        have hlater := hl.doing.clocked.later hj
        have hsmooth := hgoing.job j hj
        cases j with
        | save cfg inputs => exact hsmooth.elim
        | cycle c =>
            first
            | exact hl.run.cycle hz (Smooth.onDay hsmooth hlater)
            | exact hl.heard.cycle hl.run hz hsmooth hlater

/-- From `first` to `last` the local time is the epoch's with an offset of whole minutes. -/
def ZoneOffset (localtime : ℤ → LocalTime) (first last offset : ℤ) : Prop :=
  ∀ t, first ≤ t → t ≤ last → (localtime t).moment = t / 60 + offset

theorem ZoneOffset.forward {first last offset : ℤ} (h : ZoneOffset localtime first last offset) :
    ZoneForward localtime first last := fun a b ha hb hab => by
  rw [h a ha (by omega), h b (by omega) hb]
  omega

/-- Every minute between two finished cycles has its report. -/
theorem LoopRun.reached {first last offset m : ℤ} (hzone : ZoneOffset localtime first last offset)
    (hnew : d.past = []) (hl : LoopRun H localtime base day d first l) (hlast : l.time ≤ last)
    {r r' : Report} (hr : r ∈ l.daemon.past) (hr' : r' ∈ l.daemon.past)
    (hle : r.now.moment ≤ m) (hge : m ≤ r'.now.moment) :
    ∃ q ∈ l.daemon.past, q.now.moment = m := by
  have hdone := hl.doing.clocked.done
  rw [hnew, List.map_nil, List.nil_append] at hdone
  have hstart : ∀ q ∈ l.daemon.past, q.nowEpoch ∈ l.starts := fun q hq =>
    hdone ▸ List.mem_append_left _ (List.mem_map_of_mem hq)
  have hmoment : ∀ q ∈ l.daemon.past, q.now.moment = q.nowEpoch / 60 + offset := fun q hq => by
    rw [hl.dated q hq]
    exact hzone _ (hl.doing.clocked.since _ (hstart q hq))
      ((hl.doing.aligned.started _ (hstart q hq)).trans hlast)
  rw [hmoment r hr] at hle
  rw [hmoment r' hr'] at hge
  obtain ⟨a, ha, hm⟩ := hl.gapFree _ (hstart r hr) _ (hstart r' hr') (m - offset)
    (by omega) (by omega)
  rw [← hdone] at ha
  rcases List.mem_append.mp ha with ha | ha
  · obtain ⟨q, hq, rfl⟩ := List.mem_map.mp ha
    exact ⟨q, hq, by rw [hmoment q hq]; omega⟩
  · -- a cycle that is still running started in a later minute than those that are done
    have hsorted := hl.doing.aligned.sorted
    rw [← hdone, List.map_append, List.pairwise_append] at hsorted
    have := hsorted.2.2 (r'.nowEpoch / 60)
      (List.mem_map_of_mem (List.mem_map_of_mem hr')) (a / 60) (List.mem_map_of_mem ha)
    omega

/-- On a day on which the loop gets to every minute and everything else works,
whatever signals and timers do, nothing is announced more often than asked, and
each adhan between the first cycle and the last is announced exactly once, in the
minute it is for.

The daemon starts without a list for the day. The location is set, nobody saves
settings, a refresh finds a place with the same prayer times, and throughout the run
the local time is the epoch's with one offset of whole minutes. -/
theorem each_adhan_in_its_minute {wall monotonic last offset : ℤ} (hs : Starts (· = day) d)
    (hload : configLoad d.disk.config true = some base) (hclock : d.clock < 1440 * day)
    (hzone : ZoneOffset localtime (wall / nsPerSec) last offset)
    (hwall : 1440 * day ≤ wall / nsPerSec / 60 + offset)
    (hok : Allowed (occur H localtime)
      (fun l e => Going (SmoothDay H base day) localtime last l e ∧ Prompt l e)
      (launched d wall monotonic) es)
    (h : follow (occur H localtime) (launched d wall monotonic) es = some l)
    (hlast : l.time ≤ last) :
    AsAsked H base l.daemon.said ∧
      ∀ o : Occurrence H base, o.day - day ∈ dayDeltas → 1440 * day ≤ o.minute →
        o.minute < 1440 * day + 1440 → (∃ r ∈ l.daemon.past, r.now.moment ≤ o.minute) →
        (∃ r ∈ l.daemon.past, o.minute ≤ r.now.moment) →
        l.daemon.said.countP (stands o 0) = 1 ∧
          ∃ r ∈ l.daemon.past, r.now.moment = o.minute ∧
            ∃ x ∈ notices r.trace, stands o 0 (r.now.day, x.1) = true := by
  have hbase := configLoad_inRange hload
  have hearly : ∀ t, wall / nsPerSec ≤ t → t ≤ last → d.clock < (localtime t).moment :=
    fun t ht ht' => by
      rw [hzone t ht ht']
      omega
  have hrun : LoopRun H localtime base day d (wall / nsPerSec) l := by
    refine hok.invariant (LoopRun H localtime base day d (wall / nsPerSec))
      (fun l e l' hl hallowed hocc => hl.step (noZeroReminder hbase) hzone.forward hearly hallowed.1
        hallowed.2 (occur_happens hl.doing.sound.opened hocc))
      ⟨doing_launched H localtime _ d wall monotonic, DayRun.start hs hload hclock,
        fun r hr => ?_, fun a ha => (List.not_mem_nil ha).elim, fun r hr => ?_⟩ h
    all_goals
      rw [show (launched d wall monotonic).daemon.past = [] from hs.past] at hr
      cases hr
  refine ⟨Bounded.asAsked hrun.run.bounded hbase,
    fun o hday h₀ h₁ ⟨r, hr, hle⟩ ⟨r', hr', hge⟩ => ?_⟩
  obtain ⟨q, hq, hminute⟩ := hrun.reached hzone hs.past hlast hr hr' hle hge
  obtain ⟨hone, hheard⟩ := hrun.heard.once hrun.run hbase hday h₀ h₁ hq hminute
  exact ⟨hone, q, hq, hminute, hheard⟩

end OneDay

section June

/-- The last hour of that day. -/
def juneHour (t : ℤ) : LocalTime := juneTime 20621 23 (Fin.ofNat 60 (t / 60 % 60).toNat)

theorem zoneOffset_june : ZoneOffset juneHour 1781737200 1781740799 0 := by
  intro t h₁ h₂
  have hmin : ((Fin.ofNat 60 (t / 60 % 60).toNat : Fin 60) : ℤ) = t / 60 % 60 := by
    simp only [Fin.ofNat, Int.natCast_emod]
    omega
  unfold juneHour LocalTime.moment LocalTime.currentMin juneTime
  dsimp only
  rw [hmin]
  show 1440 * 20621 + (23 * 60 + t / 60 % 60) = t / 60 + 0
  omega

/-- 23:53:30 -/
abbrev juneEvening : Loop := launched juneStart 1781740410000000000 0

theorem zoneOffset_evening : ZoneOffset juneHour (juneEvening.wall / nsPerSec) 1781740799 0 :=
  fun t h₁ h₂ => zoneOffset_june t (le_trans (by decide) h₁) h₂

theorem refreshOf_junePlace (nowEpoch retryAt : ℤ) :
    (refreshOf juneConfig nowEpoch retryAt juneInput.lookups).1 = juneConfig := by
  have hfound : (muslimtifyDetectLocationWith juneConfig
      (locationDetect juneInput.lookups juneConfig)).map Prod.fst = some juneConfig := by
    decide +kernel
  unfold refreshOf
  split_ifs
  · split
    · rfl
    · rename_i found detection h
      rw [h] at hfound
      exact Option.some.inj hfound
  · rfl

theorem smooth_june {d : Daemon} {epoch : ℤ}
    (hconfig : configLoad d.disk.config true = some juneConfig) :
    SmoothDay (steadyHost juneTimes) juneConfig 20621 d
      (.cycle ⟨juneHour epoch, epoch, fun _ => juneInput⟩) := by
  have honly : ∀ cfg, configLoad d.disk.config true = some cfg → cfg = juneConfig := fun cfg h => by
    rw [hconfig] at h
    exact (Option.some.inj h).symm
  refine ⟨fun _ => rfl, rfl, fun cfg h => ?_, fun cfg h e => ?_⟩
  · rw [honly cfg h]
    decide +kernel
  · rw [honly cfg h, refreshOf_junePlace]

/-- A cycle half a minute before fajr's minute, a sleep and a cycle in fajr's minute. -/
def juneMinutes : List LoopEvent :=
  [.run none, .run none, .finishCycle fun _ => juneInput, .run none, .run none, .run none,
    .run none, .pass 30000000000, .timeout, .run none, .run none, .run none,
    .finishCycle fun _ => juneInput]

abbrev juneOk (l : Loop) (e : LoopEvent) : Prop :=
  Going (SmoothDay (steadyHost juneTimes) juneConfig 20621) juneHour 1781740799 l e ∧ Prompt l e

theorem juneOk_quiet {l : Loop} {e : LoopEvent} (hforward : Forward l e)
    (htime : l.time ≤ 1781740799) (hjob : jobOf juneHour l e = none) (hpc : l.pc ≠ .start) :
    juneOk l e :=
  ⟨⟨hforward, htime, fun j hj => by rw [hjob] at hj; cases hj⟩,
    fun _ _ hstart => absurd hstart hpc⟩

theorem juneOk_start {l : Loop} {s : Option StopSignal} (htime : l.time ≤ 1781740799)
    (h : l.starts ≠ [] → ∃ a ∈ l.starts, l.time / 60 ≤ a / 60 + 1) : juneOk l (.run s) :=
  ⟨⟨trivial, htime, fun j hj => by cases hj⟩, fun _ _ _ => h⟩

theorem juneOk_finish {l : Loop} {epoch : ℤ} (htime : l.time ≤ 1781740799)
    (hpc : l.pc = .cycle epoch) (hconfig : configLoad l.daemon.disk.config true = some juneConfig) :
    juneOk l (.finishCycle fun _ => juneInput) := by
  refine ⟨⟨trivial, htime, fun j hj => ?_⟩, fun _ hrun => by cases hrun⟩
  simp only [jobOf, hpc] at hj
  obtain rfl := Option.some.inj hj
  exact smooth_june hconfig

theorem juneMinutes_ok :
    Allowed (occur (steadyHost juneTimes) juneHour) juneOk juneEvening juneMinutes := by
  refine .cons (juneOk_quiet trivial (by decide) rfl (by decide)) rfl <|
    .cons (juneOk_start (by decide) fun h => absurd rfl h) rfl <|
    .cons (juneOk_finish (by decide) rfl configLoad_june) rfl <|
    .cons (juneOk_quiet trivial (by decide) rfl (by decide)) rfl <|
    .cons (juneOk_quiet trivial (by decide) rfl (by decide)) rfl <|
    .cons (juneOk_quiet trivial (by decide) rfl (by decide)) rfl <|
    .cons (juneOk_quiet trivial (by decide) rfl (by decide)) rfl <|
    .cons (juneOk_quiet trivial (by decide) rfl (by decide)) rfl <|
    .cons (juneOk_quiet trivial (by decide) rfl (by decide)) rfl <|
    .cons (juneOk_quiet trivial (by decide) rfl (by decide)) rfl <|
    .cons (juneOk_quiet trivial (by decide) rfl (by decide)) rfl <|
    .cons (juneOk_start (by decide) fun _ => ⟨_, List.mem_cons_self, by decide⟩) rfl <|
    .cons (juneOk_finish (by decide) rfl (by decide +kernel)) rfl trivial

theorem loop_is_job_run_june :
    ∃ l, follow (occur (steadyHost juneTimes) juneHour) juneEvening juneMinutes = some l ∧
      (∃ jobs, l.daemon = runJobs (steadyHost juneTimes) juneStart jobs ∧
        Along (DaemonRuns.step (steadyHost juneTimes))
          (fun d j => SmoothDay (steadyHost juneTimes) juneConfig 20621 d j ∧ Later d j)
          juneStart jobs) ∧
      l.daemon.past.map (·.nowEpoch) = l.starts := by
  have h : follow (occur (steadyHost juneTimes) juneHour) juneEvening juneMinutes = some _ := rfl
  obtain ⟨hjobs, hdone⟩ := loop_is_job_run zoneOffset_evening.forward (fun t ht ht' => by
    have hlate : (1781740410 : ℤ) ≤ t := le_trans (by decide) ht
    rw [zoneOffset_evening t ht ht']
    show (0 : ℤ) < _
    omega) (juneMinutes_ok.mono fun _ _ h => h.1) h
  exact ⟨_, h, hjobs, (List.append_nil _).symm.trans hdone⟩

theorem each_adhan_in_its_minute_june :
    ∃ l, follow (occur (steadyHost juneTimes) juneHour) juneEvening juneMinutes = some l ∧
      l.daemon.said.countP (stands juneFajr 0) = 1 := by
  have h : follow (occur (steadyHost juneTimes) juneHour) juneEvening juneMinutes = some _ := rfl
  refine ⟨_, h, ?_⟩
  exact ((each_adhan_in_its_minute (juneStart_starts _) configLoad_june (by decide)
    zoneOffset_evening (by decide) juneMinutes_ok h (by decide)).2 juneFajr (by decide +kernel)
    (by decide +kernel) (by decide +kernel) (by decide +kernel) (by decide +kernel)).1

end June
end Muslimtify.LoopDay
