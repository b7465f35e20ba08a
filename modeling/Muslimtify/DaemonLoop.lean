import Mathlib.Data.Finset.Card
import Muslimtify.DaemonRuns
import Muslimtify.Transitions

/-!
# The daemon's loop

`run_daemon_loop`, one step at a time, among everything else that can happen:
signals at any moment, the passing of time, a clock that is set, the end of an
adhan and saves by other processes between two cycles. A cycle is taken as a
whole, so a save that overlaps one is no event here: what the two then do to the
files, operation by operation, is the matter of `SaveRace`. A stop signal is pending until its handler
runs. While it is blocked it stays pending; a call that puts a mask in force
which lets it through delivers one before it returns; otherwise it may be
delivered at any later moment.

Times are in nanoseconds. The sleep is measured on a clock that nobody sets.
-/
namespace Muslimtify.DaemonLoop
open Settings Schedule TriggerPartition DaemonCycle DaemonRuns Transitions

/-- `seconds_until_next_minute`. The remainder has the sign of `now`. -/
def secondsUntilNextMinute (now : ℤ) : ℤ := 60 - now.tmod 60

/-- The sleep ends in a later minute than it was computed in. -/
theorem minute_lt_wake (now : ℤ) : now / 60 < (now + secondsUntilNextMinute now) / 60 := by
  have := Int.tmod_lt_of_pos now (show (0 : ℤ) < 60 by decide)
  have := Int.tmod_eq_emod (a := now) (b := 60)
  unfold secondsUntilNextMinute
  split_ifs at this <;> omega

inductive StopSignal
  | sigterm
  | sigint
  deriving DecidableEq, Repr

/-- What the daemon does next, or is in the middle of. -/
inductive Pc
  | test
  /-- The cycle's start, where it reads the clock. -/
  | start
  | cycle (epoch : ℤ)
  /-- The main loop of `notify_adhan`, within the cycle. -/
  | adhan (epoch : ℤ)
  | block
  | retest
  | readClock
  | select (secs : ℤ)
  | asleep (due : ℤ)
  | restore
  | stopped
  deriving DecidableEq, Repr

structure Loop where
  pc : Pc
  /-- `g_stop` -/
  stop : Bool
  /-- `g_adhan_interrupt` -/
  adhanInterrupt : Bool
  blocked : Bool
  duringCycle : Bool
  pending : Finset StopSignal
  wall : ℤ
  monotonic : ℤ
  daemon : Daemon
  /-- The times the cycles read when they started. -/
  starts : List ℤ

inductive LoopEvent
  | send (s : StopSignal)
  | deliver (s : StopSignal)
  | pass (ns : ℕ)
  | setClock (wall : ℤ)
  /-- The next step of the loop, with the signal its system call delivers. -/
  | run (s : Option StopSignal)
  | startAdhan
  | pollAdhan (playing : Bool)
  /-- The notification was closed or its Stop button pressed. -/
  | closeAdhan
  | finishCycle (inputs : ℕ → Input)
  | timeout
  /-- A save by another process that does not overlap a cycle. -/
  | save (cfg : Config) (inputs : ℕ → Input)

def nsPerSec : ℤ := 1000000000

section Steps

/-- `time(NULL)`. -/
def Loop.time (l : Loop) : ℤ := l.wall / nsPerSec

def handleStopSignal (l : Loop) (s : StopSignal) : Loop :=
  { l with stop := true, adhanInterrupt := true, pending := l.pending.erase s }

/-- The end of a call that leaves a mask in force. -/
def returnWith (mask : Bool) (l : Loop) : Option StopSignal → Option Loop
  | none => if mask || decide (l.pending = ∅) then some l else none
  | some s => if !mask && decide (s ∈ l.pending) then some (handleStopSignal l s) else none

/-- The next step of `run_daemon_loop` and `sleep_to_next_minute`. -/
def runDaemonLoop (l : Loop) (s : Option StopSignal) : Option Loop :=
  match l.pc with
  | .test => some { l with pc := if l.stop then .stopped else .start }
  | .start => some { l with pc := .cycle l.time, starts := l.starts ++ [l.time] }
  | .block => some { l with duringCycle := l.blocked, blocked := true, pc := .retest }
  | .retest => some { l with pc := if l.stop then .restore else .readClock }
  | .readClock => some { l with pc := .select (secondsUntilNextMinute l.time) }
  | .select secs =>
      match s with
      -- a signal that is pending when `pselect` opens the mask ends it at once
      | some s => returnWith l.duringCycle { l with pc := .restore } (some s)
      | none => returnWith l.duringCycle
          { l with pc := .asleep (l.monotonic + secs * nsPerSec) } none
  | .restore => returnWith l.duringCycle { l with blocked := l.duringCycle, pc := .test } s
  | .cycle _ | .adhan _ | .asleep _ | .stopped => none

def Loop.await (l : Loop) (s : StopSignal) : Loop := { l with pending := insert s l.pending }

/-- A signal comes in. The sleep that lets it through ends with its handler. -/
def send (l : Loop) (s : StopSignal) : Loop :=
  match l.pc with
  | .asleep _ =>
      if l.duringCycle then l.await s else handleStopSignal { l.await s with pc := .restore } s
  | _ => l.await s

/-- `adhan_poll_cb`, every 200 ms: what it finds and whether it quits. -/
def adhanPollCb (adhanInterrupt playing : Bool) : Bool := adhanInterrupt || !playing

variable (H : Host) (localtime : ℤ → LocalTime)

def occur (l : Loop) : LoopEvent → Option Loop
  | .send s => some (send l s)
  | .deliver s =>
      if !l.blocked && decide (s ∈ l.pending) then some (handleStopSignal l s) else none
  | .pass ns => some { l with wall := l.wall + ns, monotonic := l.monotonic + ns }
  | .setClock wall => some { l with wall }
  | .run s => runDaemonLoop l s
  | .startAdhan =>
      match l.pc with
      | .cycle e => some { l with pc := .adhan e }
      | _ => none
  | .pollAdhan playing =>
      match l.pc with
      | .adhan e =>
          some { l with pc := if adhanPollCb l.adhanInterrupt playing then .cycle e else .adhan e }
      | _ => none
  | .closeAdhan =>
      match l.pc with
      | .adhan e => some { l with pc := .cycle e }
      | _ => none
  | .finishCycle inputs =>
      match l.pc with
      | .cycle e =>
          some { l with
            pc := .block
            daemon := step H l.daemon (.cycle ⟨localtime e, e, inputs⟩) }
      | _ => none
  | .timeout =>
      match l.pc with
      | .asleep due => if due ≤ l.monotonic then some { l with pc := .restore } else none
      | _ => none
  | .save cfg inputs =>
      match l.pc with
      | .cycle _ | .adhan _ => none
      | _ => some { l with daemon := step H l.daemon (.save cfg inputs) }

/-- The daemon before its first cycle, with the stop signals not blocked. -/
def launched (daemon : Daemon) (wall monotonic : ℤ) : Loop where
  pc := .test
  stop := false
  adhanInterrupt := false
  blocked := false
  duringCycle := false
  pending := ∅
  wall := wall
  monotonic := monotonic
  daemon := daemon
  starts := []

end Steps

section Signals
variable {H : Host} {localtime : ℤ → LocalTime} {l l' : Loop} {e : LoopEvent}
  {es : List LoopEvent}

/-- The places between the two changes of the signal mask. -/
def Pc.masked : Pc → Bool
  | .retest | .readClock | .select _ | .asleep _ | .restore => true
  | _ => false

/-- The loop has found no stop signal and is about to sleep, or sleeps. -/
def Pc.sleepy : Pc → Bool
  | .readClock | .select _ | .asleep _ => true
  | _ => false

theorem Pc.masked_of_sleepy {pc : Pc} (h : pc.sleepy = true) : pc.masked = true := by
  cases pc <;> first | rfl | cases h

/-- What holds throughout, given that the stop signals were not blocked at the start. -/
structure Sound (l : Loop) : Prop where
  blocked : l.blocked = l.pc.masked
  opened : l.duringCycle = false
  awake : l.pc.sleepy = true → l.stop = false
  asleep : ∀ due, l.pc = .asleep due → l.pending = ∅
  stopped : l.pc = .stopped → l.stop = true
  interrupt : l.stop = true → l.adhanInterrupt = true

theorem sound_launched (d : Daemon) (wall monotonic : ℤ) : Sound (launched d wall monotonic) := by
  constructor <;> simp [launched, Pc.masked, Pc.sleepy]

/-- What an event does where the stop signals are not blocked from outside, a
case for each place it can happen in. -/
inductive Happens (H : Host) (localtime : ℤ → LocalTime) (l : Loop) :
    LoopEvent → Loop → Prop
  | sent {s : StopSignal} (hawake : ∀ due, l.pc ≠ .asleep due) :
      Happens H localtime l (.send s) (l.await s)
  | wakes {s : StopSignal} {due : ℤ} (hpc : l.pc = .asleep due) :
      Happens H localtime l (.send s) (handleStopSignal { l.await s with pc := .restore } s)
  | delivered {s : StopSignal} (hopen : l.blocked = false) (hs : s ∈ l.pending) :
      Happens H localtime l (.deliver s) (handleStopSignal l s)
  | passes {ns : ℕ} : Happens H localtime l (.pass ns)
      { l with wall := l.wall + ns, monotonic := l.monotonic + ns }
  | clockSet {wall : ℤ} : Happens H localtime l (.setClock wall) { l with wall }
  | leaves {s : Option StopSignal} (hpc : l.pc = .test) (hstop : l.stop = true) :
      Happens H localtime l (.run s) { l with pc := .stopped }
  | begins {s : Option StopSignal} (hpc : l.pc = .test) (hstop : l.stop = false) :
      Happens H localtime l (.run s) { l with pc := .start }
  | starts {s : Option StopSignal} (hpc : l.pc = .start) :
      Happens H localtime l (.run s) { l with pc := .cycle l.time, starts := l.starts ++ [l.time] }
  | blocks {s : Option StopSignal} (hpc : l.pc = .block) :
      Happens H localtime l (.run s)
        { l with duringCycle := l.blocked, blocked := true, pc := .retest }
  | skips {s : Option StopSignal} (hpc : l.pc = .retest) (hstop : l.stop = true) :
      Happens H localtime l (.run s) { l with pc := .restore }
  | goesOn {s : Option StopSignal} (hpc : l.pc = .retest) (hstop : l.stop = false) :
      Happens H localtime l (.run s) { l with pc := .readClock }
  | computes {s : Option StopSignal} (hpc : l.pc = .readClock) :
      Happens H localtime l (.run s) { l with pc := .select (secondsUntilNextMinute l.time) }
  | interrupted {s : StopSignal} {secs : ℤ} (hpc : l.pc = .select secs) (hs : s ∈ l.pending) :
      Happens H localtime l (.run (some s)) (handleStopSignal { l with pc := .restore } s)
  | sleeps {secs : ℤ} (hpc : l.pc = .select secs) (hnone : l.pending = ∅) :
      Happens H localtime l (.run none)
        { l with pc := .asleep (l.monotonic + secs * nsPerSec) }
  | restoresTo {s : StopSignal} (hpc : l.pc = .restore) (hs : s ∈ l.pending) :
      Happens H localtime l (.run (some s))
        (handleStopSignal { l with blocked := l.duringCycle, pc := .test } s)
  | restores (hpc : l.pc = .restore) (hnone : l.pending = ∅) :
      Happens H localtime l (.run none) { l with blocked := l.duringCycle, pc := .test }
  | adhanStarts {epoch : ℤ} (hpc : l.pc = .cycle epoch) :
      Happens H localtime l .startAdhan { l with pc := .adhan epoch }
  | adhanGoesOn {epoch : ℤ} {playing : Bool} (hpc : l.pc = .adhan epoch)
      (hpoll : adhanPollCb l.adhanInterrupt playing = false) :
      Happens H localtime l (.pollAdhan playing) l
  | adhanEnds {epoch : ℤ} {playing : Bool} (hpc : l.pc = .adhan epoch)
      (hpoll : adhanPollCb l.adhanInterrupt playing = true) :
      Happens H localtime l (.pollAdhan playing) { l with pc := .cycle epoch }
  | adhanCloses {epoch : ℤ} (hpc : l.pc = .adhan epoch) :
      Happens H localtime l .closeAdhan { l with pc := .cycle epoch }
  | finishes {epoch : ℤ} {inputs : ℕ → Input} (hpc : l.pc = .cycle epoch) :
      Happens H localtime l (.finishCycle inputs)
        { l with
          pc := .block
          daemon := step H l.daemon (.cycle ⟨localtime epoch, epoch, inputs⟩) }
  | timesOut {due : ℤ} (hpc : l.pc = .asleep due) (hdue : due ≤ l.monotonic) :
      Happens H localtime l .timeout { l with pc := .restore }
  | saves {cfg : Config} {inputs : ℕ → Input}
      (hcycle : ∀ epoch, l.pc ≠ .cycle epoch ∧ l.pc ≠ .adhan epoch) :
      Happens H localtime l (.save cfg inputs)
        { l with daemon := step H l.daemon (.save cfg inputs) }

theorem returnWith_opened {mask : Bool} (hopened : mask = false) {s : Option StopSignal}
    (h : returnWith mask l s = some l') :
    (∃ x ∈ l.pending, s = some x ∧ l' = handleStopSignal l x) ∨
      (l.pending = ∅ ∧ s = none ∧ l' = l) := by
  subst hopened
  cases s with
  | some s =>
      simp only [returnWith, Bool.not_false, Bool.true_and, decide_eq_true_eq] at h
      split_ifs at h with hs
      exact Or.inl ⟨s, hs, rfl, (Option.some.inj h).symm⟩
  | none =>
      simp only [returnWith, Bool.false_or, decide_eq_true_eq] at h
      split_ifs at h with hnone
      exact Or.inr ⟨hnone, rfl, (Option.some.inj h).symm⟩

theorem run_happens (hopened : l.duringCycle = false) {s : Option StopSignal}
    (h : runDaemonLoop l s = some l') : Happens H localtime l (.run s) l' := by
  unfold runDaemonLoop at h
  split at h
  · rename_i hpc
    obtain rfl := Option.some.inj h
    split_ifs with hstop
    · exact .leaves hpc hstop
    · exact .begins hpc (by simpa using hstop)
  · obtain rfl := Option.some.inj h
    exact .starts ‹_›
  · obtain rfl := Option.some.inj h
    exact .blocks ‹_›
  · rename_i hpc
    obtain rfl := Option.some.inj h
    split_ifs with hstop
    · exact .skips hpc hstop
    · exact .goesOn hpc (by simpa using hstop)
  · obtain rfl := Option.some.inj h
    exact .computes ‹_›
  · rename_i hpc
    cases s with
    | some s =>
        rcases returnWith_opened hopened h with ⟨x, hx, hs, rfl⟩ | ⟨-, hs, -⟩
        · obtain rfl := Option.some.inj hs
          exact .interrupted hpc hx
        · cases hs
    | none =>
        rcases returnWith_opened hopened h with ⟨x, -, hs, -⟩ | ⟨hnone, -, rfl⟩
        · cases hs
        · exact .sleeps hpc hnone
  · rename_i hpc
    rcases returnWith_opened hopened h with ⟨x, hx, rfl, rfl⟩ | ⟨hnone, rfl, rfl⟩
    · exact .restoresTo hpc hx
    · exact .restores hpc hnone
  all_goals cases h

theorem occur_happens (hopened : l.duringCycle = false)
    (h : occur H localtime l e = some l') : Happens H localtime l e l' := by
  cases e with
  | send s =>
      obtain rfl := Option.some.inj h
      unfold send
      split
      · rename_i due hpc
        rw [hopened]
        exact .wakes hpc
      · rename_i hawake
        exact .sent hawake
  | deliver s =>
      simp only [occur, Bool.and_eq_true, Bool.not_eq_true', decide_eq_true_eq] at h
      split_ifs at h with hopen
      obtain rfl := Option.some.inj h
      exact .delivered hopen.1 hopen.2
  | pass ns =>
      obtain rfl := Option.some.inj h
      exact .passes
  | setClock wall =>
      obtain rfl := Option.some.inj h
      exact .clockSet
  | run s => exact run_happens hopened h
  | startAdhan =>
      simp only [occur] at h
      split at h
      · obtain rfl := Option.some.inj h
        exact .adhanStarts ‹_›
      · cases h
  | pollAdhan playing =>
      simp only [occur] at h
      split at h
      · rename_i e hpc
        obtain rfl := Option.some.inj h
        split_ifs with hpoll
        · exact .adhanEnds hpc hpoll
        · rw [← hpc]
          exact .adhanGoesOn hpc (by simpa using hpoll)
      · cases h
  | closeAdhan =>
      simp only [occur] at h
      split at h
      · obtain rfl := Option.some.inj h
        exact .adhanCloses ‹_›
      · cases h
  | finishCycle inputs =>
      simp only [occur] at h
      split at h
      · obtain rfl := Option.some.inj h
        exact .finishes ‹_›
      · cases h
  | timeout =>
      simp only [occur] at h
      split at h
      · split_ifs at h with hdue
        obtain rfl := Option.some.inj h
        exact .timesOut ‹_› hdue
      · cases h
  | save cfg inputs =>
      simp only [occur] at h
      split at h
      · cases h
      · cases h
      · rename_i hcycle hadhan
        obtain rfl := Option.some.inj h
        exact .saves fun e => ⟨hcycle e, hadhan e⟩

theorem Sound.not_sleepy (hs : Sound l) (hstop : l.stop = true) : l.pc.sleepy = false := by
  cases hpc : l.pc.sleepy with
  | false => rfl
  | true =>
      rw [hs.awake hpc] at hstop
      cases hstop

theorem Sound.step (hs : Sound l) (h : Happens H localtime l e l') : Sound l' := by
  obtain ⟨hblocked, hopened, hawake, hasleep, hstopped, hinterrupt⟩ := hs
  cases h with
  | delivered hopen hs =>
      have hpc : l.pc.masked = false := hblocked.symm.trans hopen
      refine ⟨hblocked, hopened, fun hsleepy => ?_, fun due hdue => ?_, fun _ => rfl, fun _ => rfl⟩
      · have hmasked : l.pc.masked = true := Pc.masked_of_sleepy hsleepy
        rw [hpc] at hmasked
        cases hmasked
      · rw [show l.pc = .asleep due from hdue] at hpc
        cases hpc
  | _ => constructor <;> simp_all [handleStopSignal, Loop.await, Pc.masked, Pc.sleepy]

theorem Sound.follow (hs : Sound l) (h : follow (occur H localtime) l es = some l') :
    Sound l' :=
  invariant Sound (fun _ _ _ hs ht => hs.step (occur_happens hs.opened ht)) hs h

/-- A stop signal waits for its handler, or the handler has run. -/
def Told (l : Loop) : Prop := l.stop = true ∨ l.pending.Nonempty

theorem Told.step (ht : Told l) (h : Happens H localtime l e l') : Told l' := by
  cases h with
  | sent hawake => exact ht.imp_right fun _ => Finset.insert_nonempty _ _
  | wakes | delivered | interrupted | restoresTo => exact Or.inl rfl
  | _ => exact ht

theorem told_send (l : Loop) (s : StopSignal) : Told (send l s) := by
  unfold send
  split
  · split_ifs
    · exact Or.inr (Finset.insert_nonempty _ _)
    · exact Or.inl rfl
  · exact Or.inr (Finset.insert_nonempty _ _)

theorem Told.follow (ht : Told l) (hs : Sound l)
    (h : follow (occur H localtime) l es = some l') : Told l' :=
  (invariant (fun l => Sound l ∧ Told l) (fun _ _ _ hst hocc =>
    ⟨hst.1.step (occur_happens hst.1.opened hocc),
      hst.2.step (occur_happens hst.1.opened hocc)⟩) ⟨hs, ht⟩ h).2

theorem untold_launched (d : Daemon) (wall monotonic : ℤ) : ¬Told (launched d wall monotonic) := by
  rintro (h | ⟨s, h⟩)
  · cases h
  · simp [launched] at h

/-- Only a signal tells the daemon to stop. -/
theorem not_told_step (ht : ¬Told l) (hsend : ∀ s, e ≠ .send s)
    (h : Happens H localtime l e l') : ¬Told l' := by
  obtain ⟨hstop, hpending⟩ := not_or.mp ht
  cases h with
  | sent | wakes => exact absurd rfl (hsend _)
  | delivered _ hs | interrupted _ hs | restoresTo _ hs => exact absurd ⟨_, hs⟩ hpending
  | _ => exact not_or.mpr ⟨hstop, hpending⟩

/-- A daemon that starts with the stop signals not blocked does not sleep once one has
been sent, whenever that was and whatever happened since, and it stops only after one
was sent. -/
theorem no_lost_signal {d : Daemon} {wall monotonic : ℤ}
    (h : follow (occur H localtime) (launched d wall monotonic) es = some l) :
    ((∃ s, LoopEvent.send s ∈ es) → ∀ due, l.pc ≠ .asleep due) ∧
      (l.pc = .stopped → ∃ s, LoopEvent.send s ∈ es) := by
  have hs := sound_launched d wall monotonic
  refine ⟨fun ⟨s, hmem⟩ due hdue => ?_, fun hpc => ?_⟩
  · obtain ⟨before, after, rfl⟩ := List.append_of_mem hmem
    obtain ⟨u, hbefore, hafter⟩ := follow_append.mp h
    obtain ⟨v, hsend, hafter⟩ := follow_cons.mp hafter
    obtain rfl := Option.some.inj hsend
    have hsound := hs.follow hbefore
    have hsound' := hsound.step (occur_happens hsound.opened hsend)
    have hl := hsound'.follow hafter
    rcases (told_send u s).follow hsound' hafter with hstop | hpending
    · rw [hl.awake (by rw [hdue]; rfl)] at hstop
      cases hstop
    · rw [hl.asleep due hdue] at hpending
      exact Finset.not_nonempty_empty hpending
  · by_contra hnone
    have hquiet : Allowed (occur H localtime) (fun _ e => ∀ s, e ≠ .send s)
        (launched d wall monotonic) es :=
      .of_mem fun e he _ s hsend => hnone ⟨s, hsend ▸ he⟩
    obtain ⟨hl, huntold⟩ := hquiet.invariant (fun l => Sound l ∧ ¬Told l)
      (fun l e l' hst hsend hocc =>
        have hhappens := occur_happens hst.1.opened hocc
        ⟨hst.1.step hhappens, not_told_step hst.2 hsend hhappens⟩)
      ⟨hs, untold_launched d wall monotonic⟩ h
    exact huntold (Or.inl (hl.stopped hpc))

/-- A signal that comes after the test that precedes the sleep, and before the sleep. -/
def signalBeforeSleep : List LoopEvent :=
  [.run none, .run none, .finishCycle fun _ => juneInput, .run none, .run none, .run none,
    .send .sigterm, .run (some .sigterm), .run none, .run none]

/-- A run from a given time on. -/
abbrev juneLoop (wall : ℤ) (es : List LoopEvent) : Option Loop :=
  follow (occur (steadyHost juneTimes) fun _ => juneTime 20621 23 54) (launched juneStart wall 0) es

theorem no_lost_signal_before_sleep :
    ∃ l, juneLoop 0 signalBeforeSleep = some l ∧ l.pc = .stopped ∧
      ∃ s, LoopEvent.send s ∈ signalBeforeSleep := by
  have h : juneLoop 0 signalBeforeSleep = some _ := rfl
  exact ⟨_, h, rfl, (no_lost_signal h).2 rfl⟩

/-- How many more cycles a daemon starts that has been sent a stop signal. -/
def cyclesLeft (l : Loop) : ℕ :=
  match l.pc with
  | .test => if l.stop then 0 else 1
  | .start => 1
  | _ => 0

theorem cyclesLeft_of_pc (h : l.pc ≠ .test ∧ l.pc ≠ .start) : cyclesLeft l = 0 := by
  unfold cyclesLeft
  split <;> simp_all

theorem cyclesLeft_le (l : Loop) :
    cyclesLeft l ≤ if l.pc = .test ∨ l.pc = .start then 1 else 0 := by
  split_ifs with h
  · unfold cyclesLeft
    split <;> (try split_ifs) <;> omega
  · exact (cyclesLeft_of_pc (not_or.mp h)).le

theorem cyclesLeft_step (ht : Told l) (h : Happens H localtime l e l') :
    l'.starts.length + cyclesLeft l' ≤ l.starts.length + cyclesLeft l := by
  cases h with
  | sent | passes | clockSet | saves => exact le_rfl
  | delivered =>
      refine Nat.add_le_add_left ?_ _
      show cyclesLeft (handleStopSignal l _) ≤ cyclesLeft l
      unfold cyclesLeft handleStopSignal
      split <;> simp_all
  | begins hpc hstop => simp [cyclesLeft, hpc, hstop]
  | starts hpc => simp [cyclesLeft, hpc]
  | restores hpc hnone =>
      -- a signal that is no longer pending has been handled
      have hstop : l.stop = true := ht.resolve_right (by simp [hnone])
      simp [cyclesLeft, hpc, hstop]
  | _ => simp_all [cyclesLeft, handleStopSignal, Loop.await]

theorem cyclesLeft_send (l : Loop) (s : StopSignal) :
    (send l s).starts.length + cyclesLeft (send l s) ≤
      l.starts.length + (if l.pc = .test ∨ l.pc = .start then 1 else 0) := by
  unfold send
  split
  · split_ifs <;> simp_all [cyclesLeft, handleStopSignal, Loop.await]
  · exact Nat.add_le_add_left (cyclesLeft_le l) _

/-- After a stop signal was sent no further cycle starts, but for one if the signal was
sent at the loop's test or between it and the start of the cycle. -/
theorem cycles_after_signal {d : Daemon} {wall monotonic : ℤ} {s : StopSignal} {l₀ : Loop}
    {fs : List LoopEvent} (h₀ : follow (occur H localtime) (launched d wall monotonic) es = some l₀)
    (h : follow (occur H localtime) l₀ (.send s :: fs) = some l) :
    l.starts.length ≤ l₀.starts.length + (if l₀.pc = .test ∨ l₀.pc = .start then 1 else 0) := by
  obtain ⟨l₁, hsend, hrest⟩ := follow_cons.mp h
  have hs₀ := (sound_launched d wall monotonic).follow h₀
  have hs₁ := hs₀.step (occur_happens hs₀.opened hsend)
  obtain rfl := Option.some.inj hsend
  obtain ⟨-, -, hleft⟩ := invariant
    (fun t => Sound t ∧ Told t ∧ t.starts.length + cyclesLeft t ≤
      l₀.starts.length + (if l₀.pc = .test ∨ l₀.pc = .start then 1 else 0))
    (fun t e u ht hu =>
      have hhappens := occur_happens ht.1.opened hu
      ⟨ht.1.step hhappens, ht.2.1.step hhappens, (cyclesLeft_step ht.2.1 hhappens).trans ht.2.2⟩)
    ⟨hs₁, told_send l₀ s, cyclesLeft_send l₀ s⟩ hrest
  omega

/-- A signal before the first cycle whose handler only runs in the cycle. -/
theorem cycles_after_signal_at_start :
    ∃ l, juneLoop 0 [.send .sigterm, .run none, .run none, .deliver .sigterm] = some l ∧
      l.starts.length = 1 ∧ l.starts.length ≤ 0 + 1 := by
  have h₀ : juneLoop 0 [] = some _ := rfl
  have h : juneLoop 0 [.send .sigterm, .run none, .run none, .deliver .sigterm] = some _ := rfl
  exact ⟨_, h, rfl, cycles_after_signal h₀ h⟩

/-- The loop's own steps. -/
def isOwn : LoopEvent → Bool
  | .run _ | .finishCycle _ => true
  | _ => false

def isPoll : LoopEvent → Bool
  | .pollAdhan _ => true
  | _ => false

def isAdhanStart : LoopEvent → Bool
  | .startAdhan => true
  | _ => false

/-- The steps to the end of the loop once the handler has run. -/
def stepsLeft (l : Loop) : ℕ :=
  match l.pc with
  | .stopped => 0
  | .test => 1
  | .restore => 2
  | .retest => 3
  | .block => 4
  | .cycle _ | .adhan _ => 5
  | .start => 6
  | .readClock | .select _ | .asleep _ => 0

def pollsLeft (l : Loop) : ℕ :=
  match l.pc with
  | .adhan _ => 1
  | _ => 0

theorem stop_step (h : Happens H localtime l e l') (hstop : l.stop = true) : l'.stop = true := by
  cases h <;> first | exact hstop | rfl

theorem stepsLeft_step (hs : Sound l) (hstop : l.stop = true) (h : Happens H localtime l e l') :
    stepsLeft l' + (if isOwn e then 1 else 0) ≤ stepsLeft l := by
  have hawake : l.pc.sleepy = false := hs.not_sleepy hstop
  cases h <;>
    simp_all [stepsLeft, isOwn, handleStopSignal, Loop.await, Pc.sleepy]

theorem pollsLeft_step (hs : Sound l) (hstop : l.stop = true) (h : Happens H localtime l e l') :
    pollsLeft l' + (if isPoll e then 1 else 0) ≤
      pollsLeft l + (if isAdhanStart e then 1 else 0) := by
  have hinterrupt := hs.interrupt hstop
  cases h <;>
    simp_all [pollsLeft, isPoll, isAdhanStart, handleStopSignal, Loop.await, adhanPollCb]

/-- As long as it has not stopped the loop can take a step, or a poll ends its adhan. -/
theorem can_step (hs : Sound l) (hstop : l.stop = true) (hpc : l.pc ≠ .stopped) :
    ∃ e, (isOwn e = true ∨ isPoll e = true) ∧ (occur H localtime l e).isSome = true := by
  have hawake : l.pc.sleepy = false := hs.not_sleepy hstop
  cases hp : l.pc with
  | test | start | block | retest =>
      exact ⟨.run none, Or.inl rfl, by simp [occur, runDaemonLoop, hp]⟩
  | cycle => exact ⟨.finishCycle fun _ => juneInput, Or.inl rfl, by simp [occur, hp]⟩
  | adhan => exact ⟨.pollAdhan true, Or.inr rfl, by simp [occur, hp]⟩
  | readClock | select | asleep =>
      rw [hp] at hawake
      cases hawake
  | restore =>
      rcases l.pending.eq_empty_or_nonempty with hnone | ⟨s, hs'⟩
      · exact ⟨.run none, Or.inl rfl, by simp [occur, runDaemonLoop, hp, returnWith, hnone]⟩
      · exact ⟨.run (some s), Or.inl rfl,
          by simp [occur, runDaemonLoop, hp, returnWith, hs', hs.opened]⟩
  | stopped => exact absurd hp hpc

/-- Once the handler of a stop signal has run the loop stops after at most six
more steps of its own, the rest of a cycle among them. An adhan that plays, or
starts after that, ends at the first poll, and nothing can keep the loop from
its next step. -/
theorem stops_in_six {d : Daemon} {wall monotonic : ℤ} {l₀ : Loop} {fs : List LoopEvent}
    (h₀ : follow (occur H localtime) (launched d wall monotonic) es = some l₀)
    (hstop : l₀.stop = true) (h : follow (occur H localtime) l₀ fs = some l) :
    fs.countP isOwn ≤ 6 ∧ fs.countP isPoll ≤ fs.countP isAdhanStart + 1 ∧
      (l.pc ≠ .stopped →
        ∃ e, (isOwn e = true ∨ isPoll e = true) ∧ (occur H localtime l e).isSome = true) := by
  have hs₀ := (sound_launched d wall monotonic).follow h₀
  have hstep : ∀ s e t, Sound s ∧ s.stop = true → occur H localtime s e = some t →
      Sound t ∧ t.stop = true := fun s e t hst hocc =>
    have hhappens := occur_happens hst.1.opened hocc
    ⟨hst.1.step hhappens, stop_step hhappens hst.2⟩
  have hinv := invariant (fun t => Sound t ∧ t.stop = true) hstep ⟨hs₀, hstop⟩ h
  have hown := countP_le (fun t => Sound t ∧ t.stop = true) stepsLeft isOwn (fun _ => false)
    (fun s e t hst hocc => ⟨hstep s e t hst hocc,
      by simpa using stepsLeft_step hst.1 hst.2 (occur_happens hst.1.opened hocc)⟩)
    ⟨hs₀, hstop⟩ h
  have hpolls := countP_le (fun t => Sound t ∧ t.stop = true) pollsLeft isPoll isAdhanStart
    (fun s e t hst hocc => ⟨hstep s e t hst hocc,
      pollsLeft_step hst.1 hst.2 (occur_happens hst.1.opened hocc)⟩) ⟨hs₀, hstop⟩ h
  have hsix : stepsLeft l₀ ≤ 6 := by
    unfold stepsLeft
    split <;> decide
  have hone : pollsLeft l₀ ≤ 1 := by
    unfold pollsLeft
    split <;> decide
  have hnone : fs.countP (fun _ => false) = 0 := by simp
  exact ⟨by omega, by omega, can_step hinv.1 hinv.2⟩

/-- The rest of a cycle, after a poll that found the signal. -/
def restOfCycle : List LoopEvent :=
  [.pollAdhan true, .finishCycle fun _ => juneInput, .run none, .run none, .run none, .run none]

/-- A signal while an adhan plays. -/
theorem stops_in_six_adhan :
    ∃ l, juneLoop 0 ([.run none, .run none, .startAdhan, .pollAdhan true, .send .sigint,
        .deliver .sigint] ++ restOfCycle) = some l ∧ l.pc = .stopped ∧
      restOfCycle.countP isOwn ≤ 6 := by
  have h₀ : juneLoop 0 [.run none, .run none, .startAdhan, .pollAdhan true, .send .sigint,
      .deliver .sigint] = some _ := rfl
  exact ⟨_, rfl, rfl, (stops_in_six h₀ rfl rfl).1⟩

end Signals

section Minutes
variable {H : Host} {localtime : ℤ → LocalTime} {l l' : Loop} {e : LoopEvent}
  {es : List LoopEvent}

/-- The clock is never set back. -/
def Forward (l : Loop) : LoopEvent → Prop
  | .setClock wall => l.wall ≤ wall
  | _ => True

/-- The wall clock at the end of a sleep, if nobody sets it. -/
def Loop.wakeTime (l : Loop) (due : ℤ) : ℤ := (l.wall + (due - l.monotonic)) / nsPerSec

/-- Every cycle so far started before this minute. -/
def Before (l : Loop) (minute : ℤ) : Prop := ∀ a ∈ l.starts, a / 60 < minute

/-- The next cycle starts in a later minute than those before it. -/
def OnTheWay (l : Loop) : Prop :=
  match l.pc with
  | .start => Before l (l.time / 60)
  | .test | .restore => l.stop = false → Before l (l.time / 60)
  | .select secs => Before l ((l.time + secs) / 60)
  | .asleep due => Before l (l.wakeTime due / 60)
  | _ => True

structure Aligned (l : Loop) : Prop where
  sorted : (l.starts.map (· / 60)).Pairwise (· < ·)
  started : ∀ a ∈ l.starts, a ≤ l.time
  onTheWay : OnTheWay l

theorem time_mono {w w' : ℤ} (h : w ≤ w') : w / nsPerSec ≤ w' / nsPerSec :=
  Int.ediv_le_ediv (by decide) h

theorem Before.mono {m m' : ℤ} (h : Before l m) (hle : m ≤ m') : Before l m' :=
  fun a ha => lt_of_lt_of_le (h a ha) hle

/-- The passing of time brings no cycle before its minute. -/
theorem Aligned.later (ha : Aligned l) {wall monotonic : ℤ} (hwall : l.wall ≤ wall)
    (hdrift : wall - l.wall ≥ monotonic - l.monotonic) :
    Aligned { l with wall, monotonic } := by
  have htime : l.time ≤ wall / nsPerSec := time_mono hwall
  refine ⟨ha.sorted, fun a h => (ha.started a h).trans htime, ?_⟩
  have hway := ha.onTheWay
  have hminute : l.time / 60 ≤ wall / nsPerSec / 60 := Int.ediv_le_ediv (by decide) htime
  unfold OnTheWay at hway ⊢
  cases hpc : l.pc with
  | start => 
      simp only [hpc] at hway
      exact hway.mono hminute
  | test | restore =>
      simp only [hpc] at hway
      exact fun hstop => (hway hstop).mono hminute
  | select secs =>
      simp only [hpc] at hway
      exact hway.mono (Int.ediv_le_ediv (by decide) (Int.add_le_add_right htime secs))
  | asleep due =>
      simp only [hpc] at hway
      exact hway.mono (Int.ediv_le_ediv (by decide) (time_mono (by dsimp only; omega)))
  | _ => trivial

theorem Aligned.same (ha : Aligned l) (hstarts : l'.starts = l.starts) (hwall : l'.wall = l.wall)
    (hway : OnTheWay l') : Aligned l' :=
  ⟨hstarts ▸ ha.sorted, fun a h => by
    rw [hstarts] at h
    exact (ha.started a h).trans_eq (by rw [Loop.time, Loop.time, hwall]), hway⟩

theorem OnTheWay.handled (h : OnTheWay l) (s : StopSignal) : OnTheWay (handleStopSignal l s) := by
  unfold OnTheWay handleStopSignal at *
  cases hpc : l.pc <;> simp_all [Before, Loop.time, Loop.wakeTime]

theorem wakeTime_due (l : Loop) (secs : ℤ) :
    l.wakeTime (l.monotonic + secs * nsPerSec) = l.time + secs := by
  rw [Loop.wakeTime, add_sub_cancel_left, Int.add_mul_ediv_right _ _ (by decide)]
  rfl

theorem Aligned.step (ha : Aligned l) (hok : Forward l e) (h : Happens H localtime l e l') :
    Aligned l' := by
  have hway := ha.onTheWay
  cases h with
  | sent => exact ha.same rfl rfl hway
  | delivered => exact ha.same rfl rfl (hway.handled _)
  | passes => exact ha.later (by omega) (by omega)
  | clockSet =>
      have hforward : l.wall ≤ _ := hok
      exact ha.later hforward (by omega)
  | wakes => exact ha.same rfl rfl fun hstop => by cases hstop
  | interrupted => exact ha.same rfl rfl fun hstop => by cases hstop
  | restoresTo => exact ha.same rfl rfl fun hstop => by cases hstop
  | skips hpc hstop =>
      refine ha.same rfl rfl fun hrun => ?_
      rw [show l.stop = false from hrun] at hstop
      cases hstop
  | begins hpc hstop =>
      simp only [OnTheWay, hpc] at hway
      exact ha.same rfl rfl (hway hstop)
  | starts hpc =>
      simp only [OnTheWay, hpc] at hway
      refine ⟨?_, fun a hmem => ?_, trivial⟩
      · rw [List.map_append, List.pairwise_append]
        refine ⟨ha.sorted, List.pairwise_singleton _ _, fun m hm m' hm' => ?_⟩
        obtain ⟨a, hmem, rfl⟩ := List.mem_map.mp hm
        obtain rfl := List.mem_singleton.mp hm'
        exact hway a hmem
      · rcases List.mem_append.mp hmem with hmem | hmem
        · exact ha.started a hmem
        · exact (List.mem_singleton.mp hmem).le
  | computes hpc =>
      refine ha.same rfl rfl fun a hmem => ?_
      exact lt_of_le_of_lt (Int.ediv_le_ediv (by decide) (ha.started a hmem))
        (minute_lt_wake l.time)
  | sleeps hpc =>
      simp only [OnTheWay, hpc] at hway
      refine ha.same rfl rfl fun a hmem => ?_
      exact lt_of_lt_of_eq (hway a hmem) (congrArg (· / 60) (wakeTime_due l _).symm)
  | restores hpc =>
      simp only [OnTheWay, hpc] at hway
      exact ha.same rfl rfl hway
  | timesOut hpc hdue =>
      simp only [OnTheWay, hpc] at hway
      refine ha.same rfl rfl fun _ => hway.mono (Int.ediv_le_ediv (by decide) (time_mono ?_))
      dsimp only
      omega
  | saves => exact ha.same rfl rfl hway
  | adhanGoesOn => exact ha
  | leaves | blocks | goesOn | adhanStarts | adhanEnds | adhanCloses | finishes =>
      exact ha.same rfl rfl trivial

theorem aligned_launched (d : Daemon) (wall monotonic : ℤ) :
    Aligned (launched d wall monotonic) :=
  ⟨.nil, fun _ ha => (List.not_mem_nil ha).elim, fun _ _ ha => (List.not_mem_nil ha).elim⟩

/-- No minute has two cycles, unless the clock is set back: each cycle starts in a
later minute than the one before it. -/
theorem one_cycle_a_minute {d : Daemon} {wall monotonic : ℤ}
    (hok : Allowed (occur H localtime) Forward (launched d wall monotonic) es)
    (h : follow (occur H localtime) (launched d wall monotonic) es = some l) :
    (l.starts.map (· / 60)).Pairwise (· < ·) := by
  exact (hok.invariant (fun l => Sound l ∧ Aligned l) (fun l e l' hst hf hocc =>
    have hhappens := occur_happens hst.1.opened hocc
    ⟨hst.1.step hhappens, hst.2.step hf hhappens⟩)
    ⟨sound_launched d wall monotonic, aligned_launched d wall monotonic⟩ h).2.sorted

/-- Two cycles, with the clock set forward while the loop sleeps. -/
def twoCycles : List LoopEvent :=
  [.run none, .run none, .finishCycle fun _ => juneInput, .run none, .run none, .run none,
    .run none, .setClock 50000000000, .pass 30000000000, .timeout, .run none, .run none, .run none]

theorem one_cycle_a_minute_twice :
    ∃ l, juneLoop 30000000000 twoCycles = some l ∧ l.starts = [30, 80] ∧
      (l.starts.map (· / 60)).Pairwise (· < ·) := by
  have h : juneLoop 30000000000 twoCycles = some _ := rfl
  refine ⟨_, h, rfl, one_cycle_a_minute ?_ h⟩
  refine .cons trivial rfl <| .cons trivial rfl <| .cons trivial rfl <| .cons trivial rfl <|
    .cons trivial rfl <| .cons trivial rfl <| .cons trivial rfl <| .cons ?_ rfl <|
    .cons trivial rfl <| .cons trivial rfl <| .cons trivial rfl <| .cons trivial rfl <|
    .cons trivial rfl trivial
  exact (by decide : (30000000000 : ℤ) ≤ 50000000000)

end Minutes

end Muslimtify.DaemonLoop
