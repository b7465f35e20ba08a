import Muslimtify.DaemonRuns

/-!
# What the announcing loop asks of the notifier

The loop takes elements out of the array it runs over, so an element that follows
a removed one is met at the same index. It comes to the end of every list, it
announces what is due in the order of the list, and what it leaves are the
triggers ahead. The notifier is started for the first announcement and cleaned up
after the last.

A list that is built late lacks what has expired by then. The loop would have
dropped that from a list built at midnight.
-/
namespace Muslimtify.FiringLoop
open CText CDouble CivilDays Settings Schedule TriggerCache TriggerPartition CacheFile Program
open DaemonCycle CycleRun DaemonRuns

section Filter

/-- The turns of the loop when notifications start, to where the index has left the list. -/
inductive FiringExec (m : ℤ) : ℕ → Firing → Firing → Prop
  | leave {i : ℕ} {f : Firing} : f.cache.triggers.items[i]? = none → FiringExec m i f f
  | keep {i : ℕ} {f g : Firing} {t : CacheTrigger} : f.cache.triggers.items[i]? = some t →
      triggerCatchupAction t.minute t.minutesBefore m = .keep →
      FiringExec m (i + 1) f g → FiringExec m i f g
  | drop {i : ℕ} {f g : Firing} {t : CacheTrigger} : f.cache.triggers.items[i]? = some t →
      triggerCatchupAction t.minute t.minutesBefore m = .drop →
      FiringExec m i (f.consume i) g → FiringExec m i f g
  | fire {i : ℕ} {f g : Firing} {t : CacheTrigger} : f.cache.triggers.items[i]? = some t →
      triggerCatchupAction t.minute t.minutesBefore m = .fire →
      FiringExec m i
        ({ f with notified := true, notifications := f.notifications + 1 }.consume i) g →
      FiringExec m i f g

variable {m : ℤ} {cfg : Config}

/-- The loop ends, with the variables it has when everything due is announced. -/
theorem firing_exec {n i : ℕ} {f : Firing} (hn : f.cache.triggers.items.length ≤ n + i)
    (hi : ∀ t ∈ f.cache.triggers.items.take i, isAhead m t = true) :
    FiringExec m i f (settled m f) := by
  induction n generalizing i f with
  | zero =>
      have hnone : f.cache.triggers.items[i]? = none := List.getElem?_eq_none_iff.mpr (by omega)
      rw [settled_of_ahead fun t ht => hi t (by rwa [List.take_of_length_le (by omega)])]
      exact .leave hnone
  | succ n ih =>
      cases ht : f.cache.triggers.items[i]? with
      | none =>
          have hlen := List.getElem?_eq_none_iff.mp ht
          rw [settled_of_ahead fun t ht => hi t (by rwa [List.take_of_length_le hlen])]
          exact .leave ht
      | some t =>
          have hlen := FixedArray.length_remove ht
          have hfront : ∀ u ∈ (f.cache.triggers.remove i).items.take i, isAhead m u = true := by
            rwa [FixedArray.take_remove]
          cases hact : triggerCatchupAction t.minute t.minutesBefore m with
          | keep =>
              exact .keep ht hact
                (ih (by omega) (FixedArray.forall_take_succ ht hi (by simp [isAhead, hact])))
          | drop =>
              rw [← settled_drop ht hact]
              exact .drop ht hact
                (ih (by simp only [Firing.consume, cacheRemoveTrigger]; omega) hfront)
          | fire =>
              rw [← settled_fire ht hi hact]
              exact .fire ht hact
                (ih (by simp only [Firing.consume, cacheRemoveTrigger]; omega) hfront)

end Filter

section Protocol

/-- The operations of the notifier. -/
def isHook : Op → Bool
  | .notifyInit | .notify _ _ | .notifyCleanup => true
  | _ => false

/-- The calls of the notifier in a trace, in their order. -/
def hooks (trace : List Event) : List Op := (trace.map Event.op).filter isHook

variable (party : Side)

theorem hooks_act (op : Op) (i : Input) (w : World) :
    hooks (act party op i w).2.trace = hooks w.trace ++ [op].filter isHook := by
  simp [hooks, act]

theorem hooks_run {α : Type} {p : CycleProgram α} (h : p.Uses (isHook · = false)) (e : ℕ → Input)
    (w : World) : hooks (run (act party) p e w).state.trace = hooks w.trace := by
  induction p generalizing e w with
  | done a => rfl
  | step op next ih =>
      have hop : isHook op = false := h.1
      rw [run_step, ih _ (h.2 _), hooks_act]
      simp [hop]

variable (cfg : Config) (m : ℤ)

theorem announceAll_hooks (ts : List CacheTrigger) (e : ℕ → Input) (w : World) :
    hooks (run (act party) (announceAll cfg m ts) e w).state.trace =
      hooks w.trace ++ ts.map fun t => .notify t (announcement cfg m t) := by
  induction ts generalizing e w with
  | nil => exact (List.append_nil _).symm
  | cons t ts ih =>
      simp only [announceAll, notify, step_bind, done_bind, run_step]
      rw [ih, hooks_act, List.append_assoc]
      rfl

/-- The notifier is started first, unless it runs already or nothing is due. -/
theorem announcing_started (f : Firing) (e : ℕ → Input) (w : World)
    (hinit : ¬Failed isStart (run (act party) (announcing cfg m f) e w).state.trace) :
    let o := run (act party) (announcing cfg m f) e w
    o.value = some (settled m f) ∧
      notices o.state.trace =
        notices w.trace ++ (due m f.cache).map (fun t => (t, announcement cfg m t)) ∧
      hooks o.state.trace = hooks w.trace ++
        ((if f.notified || (due m f.cache).isEmpty then [] else [.notifyInit]) ++
          (due m f.cache).map fun t => .notify t (announcement cfg m t)) := by
  obtain ⟨hvalue, hsaid⟩ : (run (act party) (announcing cfg m f) e w).value = some (settled m f) ∧
      notices (run (act party) (announcing cfg m f) e w).state.trace =
        notices w.trace ++ (due m f.cache).map fun t => (t, announcement cfg m t) := by
    rcases (announcing_run party cfg e w m f).2.2 with h | ⟨-, -, hfailed⟩
    · exact h
    · exact absurd hfailed hinit
  refine ⟨hvalue, hsaid, ?_⟩
  cases hstart : f.notified || (due m f.cache).isEmpty with
  | true =>
      simp only [announcing, hstart, if_true, run_bind, pure_eq, run_done]
      exact announceAll_hooks party cfg m _ e w
  | false =>
      have hanswer : (act party .notifyInit (e 0) w).1 = (e 0).works := rfl
      simp only [announcing, hstart, notifyInit, if_false, Bool.false_eq_true, step_bind, done_bind,
        run_step, hanswer] at hvalue ⊢
      cases hworks : (e 0).works with
      | true =>
          simp only [if_true, run_bind, pure_eq, run_done]
          rw [announceAll_hooks, hooks_act, List.append_assoc]
          rfl
      | false =>
          rw [hworks] at hvalue
          cases hvalue

/-- The notifier is cleaned up if it was started. -/
theorem writeBack_hooks (f : Firing) (writeFailed : Bool) (e : ℕ → Input) (w : World) :
    hooks (run (act party) (writeBack f writeFailed) e w).state.trace =
      hooks w.trace ++ if f.notified then [.notifyCleanup] else [] := by
  have hback : Uses (isHook · = false) (do
      if f.dirty then
        if ← cacheExists then
          let saved ← saveCache f.cache
          return !saved
        else return writeFailed
      else return writeFailed : CycleProgram Bool) := by
    split
    · refine ⟨rfl, fun there => ?_⟩
      cases there with
      | true => exact ⟨rfl, fun _ => trivial⟩
      | false => trivial
    · trivial
  cases hn : f.notified with
  | false =>
      simp only [writeBack, hn]
      exact (hooks_run party hback e w).trans (List.append_nil _).symm
  | true =>
      simp only [writeBack, hn]
      exact (hooks_run party hback _ _).trans (hooks_act party .notifyCleanup (e 0) w)

/-- The rest of a cycle from the loop on, with the variables the loop ends with. -/
def announceList (cfg : Config) (m : ℤ) (cache : PrayerCache) (turns : ℕ) (writeFailed : Bool) :
    CycleProgram (Option (Firing × Bool)) := do
  match ← firingLoop cfg m turns 0 ⟨cache, false, false, 0⟩ with
  | none => return none
  | some f =>
      let writeFailed ← writeBack f writeFailed
      return some (f, writeFailed)

/-- The loop announces what is due, once each and in the order of the list, and leaves what
is ahead. The notifier is started before the first announcement and cleaned up after the
last, and neither when there is none. -/
theorem loop_announces_exactly (cache : PrayerCache) (turns : ℕ) (writeFailed : Bool)
    (hturns : cache.triggers.items.length ≤ turns) (disk : Disk) (e : ℕ → Input)
    (hinit : ¬Failed isStart (run (act .left) (announceList cfg m cache turns writeFailed) e
      ⟨disk, []⟩).state.trace) :
    let o := run (act .left) (announceList cfg m cache turns writeFailed) e ⟨disk, []⟩
    let fired := cache.triggers.items.filter fun t =>
      triggerCatchupAction t.minute t.minutesBefore m = .fire
    ∃ f failed, o.value = some (f, failed) ∧ FiringExec m 0 ⟨cache, false, false, 0⟩ f ∧
      f.cache.triggers.items = (cache.triggers.items.filter fun t =>
        triggerCatchupAction t.minute t.minutesBefore m = .keep) ∧
      hooks o.state.trace = (if fired = [] then [] else
        .notifyInit :: (fired.map fun t => .notify t (announcement cfg m t)) ++ [.notifyCleanup]) ∧
      f.notifications = (notices o.state.trace).length := by
  intro o fired
  have hloop : firingLoop cfg m turns 0 ⟨cache, false, false, 0⟩ =
      announcing cfg m ⟨cache, false, false, 0⟩ := firingLoop_eq cfg hturns (by simp)
  have hrun : o = run (act .left) (announceList cfg m cache turns writeFailed) e ⟨disk, []⟩ := rfl
  simp only [announceList, hloop, run_bind] at hinit hrun
  obtain ⟨hvalue, hsaid, hhooks⟩ := announcing_started .left cfg m ⟨cache, false, false, 0⟩ e
    ⟨disk, []⟩ fun h => hinit (h.run _ _ _)
  generalize run (act .left) (announcing cfg m ⟨cache, false, false, 0⟩) e ⟨disk, []⟩ = o₁
    at hrun hvalue hsaid hhooks
  have hdue : due m cache = fired := rfl
  rw [hvalue] at hrun
  simp only [run_bind, pure_eq, run_done] at hrun
  refine ⟨settled m ⟨cache, false, false, 0⟩, _, by rw [hrun], firing_exec (by omega) (by simp),
    rfl, ?_, ?_⟩
  · have hnotified : (settled m ⟨cache, false, false, 0⟩).notified = !fired.isEmpty := by
      simp [settled, hdue]
    rw [hrun]
    simp only
    rw [writeBack_hooks, hhooks, hnotified]
    cases hf : fired with
    | nil => simp [hdue, hf, hooks]
    | cons t ts => simp [hdue, hf, hooks]
  · have hquiet := (writeBack_run .left o₁.inputs o₁.state (settled m ⟨cache, false, false, 0⟩)
      writeFailed).quiet
    rw [hrun]
    simp only
    rw [hquiet, hsaid, hdue]
    simp [settled, hdue, notices]

/-- An exact trigger of fajr. -/
def fajrTrigger (minute : ℤ) : CacheTrigger where
  prayer := copyString 16 (ascii "Fajr")
  adhan := .empty 512
  minute := minute
  minutesBefore := 0
  prayerTime := .zero
  adhanEnabled := false

/-- Two triggers due side by side, after one that has expired and before one ahead. -/
def crowdedList : PrayerCache :=
  ⟨.empty 16, FixedArray.empty.pushAll ([690, 705, 706, 730].map fajrTrigger)⟩

theorem loop_announces_exactly_crowded :
    ∃ f failed, (run (act .left) (announceList juneConfig 712 crowdedList 4 false)
        (fun _ => juneInput) ⟨⟨none, none⟩, []⟩).value = some (f, failed) ∧
      f.cache.triggers.items = [fajrTrigger 730] ∧ f.notifications = 2 := by
  have hinit : ¬Failed isStart (run (act .left) (announceList juneConfig 712 crowdedList 4 false)
      (fun _ => juneInput) ⟨⟨none, none⟩, []⟩).state.trace :=
    not_failed_run (fun _ => rfl) (fun ⟨_, h, _⟩ => by cases h) .left _
  obtain ⟨f, failed, hvalue, -, hleft, -, hcount⟩ := loop_announces_exactly juneConfig 712
    crowdedList 4 false (by decide) ⟨none, none⟩ (fun _ => juneInput) hinit
  refine ⟨f, failed, hvalue, hleft.trans (by decide +kernel), hcount.trans ?_⟩
  decide +kernel

end Protocol

section Rebuilding
variable {cfg : Config} {m : ℤ}

/-- The trigger is not yet too old for a list built in minute `m`. -/
def inReach (m : ℤ) (t : CacheTrigger) : Bool := m - catchupMaxMin ≤ t.minute

theorem onDay_late (minute m : ℤ) :
    onDay minute m = (onDay minute 0 && decide (m - catchupMaxMin ≤ minute)) := by
  have hwindow : catchupMaxMin = 15 := rfl
  rw [Bool.eq_iff_iff]
  simp only [onDay, Bool.and_eq_true, decide_eq_true_eq]
  omega

theorem offersAhead_late {make : PrayerType → Double → ℤ → ℤ → CacheTrigger} (hm : Makes make)
    (ahead : PrayerType → List ℤ) (source : PrayerTimes) (δ m : ℤ) (type : PrayerType) :
    offersAhead cfg make ahead source δ m type =
      (offersAhead cfg make ahead source δ 0 type).filter (inReach m) := by
  unfold offersAhead
  split_ifs
  · rfl
  · cases prayerGetTime source type with
    | fin pt h =>
        simp only [List.filter_filterMap]
        refine List.filterMap_congr fun r _ => ?_
        have hreach : inReach m (make type (.fin pt h) r (instantMin pt δ - r)) =
            decide (m - catchupMaxMin ≤ instantMin pt δ - r) := by
          rw [inReach, hm.minute]
        rw [onDay_late]
        cases onDay (instantMin pt δ - r) 0 with
        | true => simp only [Bool.true_and, if_true, Option.filter, hreach]
        | false => rfl
    | inf neg => rfl
    | nan => rfl

theorem passOffers_late {offers : PrayerTimes → ℤ → ℤ → PrayerType → List CacheTrigger}
    (h : ∀ source δ type, offers source δ m type = (offers source δ 0 type).filter (inReach m))
    (source : ℤ → PrayerTimes) :
    passOffers offers source m = (passOffers offers source 0).filter (inReach m) := by
  simp only [passOffers, List.filter_flatMap]
  exact List.flatMap_congr fun δ _ => List.flatMap_congr fun type _ => h (source δ) δ type

/-- What a late build lacks has expired. -/
theorem candidates_late (source : ℤ → PrayerTimes) :
    candidates cfg source m = (candidates cfg source 0).filter (inReach m) := by
  have hexact : ∀ source δ type, exactOffer cfg source δ m type =
      (exactOffer cfg source δ 0 type).filter (inReach m) := fun source δ type => by
    rw [exactOffer_eq, exactOffer_eq]
    exact offersAhead_late (exactTrigger_makes cfg) _ source δ m type
  have hreminders : ∀ source δ type, reminderOffers cfg source δ m type =
      (reminderOffers cfg source δ 0 type).filter (inReach m) := fun source δ type => by
    rw [reminderOffers_eq, reminderOffers_eq]
    exact offersAhead_late reminderTrigger_makes _ source δ m type
  rw [candidates, candidates, List.filter_append, exactOffers, exactOffers, remindersOffered,
    remindersOffered, passOffers_late hexact, passOffers_late hreminders]

/-- Where there is room for every candidate, the late list is the early one without what
has expired. -/
theorem built_late (H : Host) (cache : PrayerCache) (times : PrayerTimes) (day : ℤ)
    (hroom : (candidates cfg (sourceTimes H cfg times day) 0).length ≤ maxTriggers) :
    (cacheBuildTriggers H cache cfg times m
        (dateText (mtCivilFromDays day))).1.triggers.items.Perm
      ((cacheBuildTriggers H cache cfg times 0
        (dateText (mtCivilFromDays day))).1.triggers.items.filter (inReach m)) := by
  have hlate : (candidates cfg (sourceTimes H cfg times day) m).length ≤ maxTriggers := by
    rw [candidates_late]
    exact (List.length_filter_le _ _).trans hroom
  have hbuilt := cacheBuildTriggers_perm H cache cfg times day m
  have hearly := cacheBuildTriggers_perm H cache cfg times day 0
  rw [List.take_of_length_le hlate, candidates_late] at hbuilt
  rw [List.take_of_length_le hroom] at hearly
  exact hbuilt.trans (hearly.filter _).symm

/-- A filter that lets through only what is in reach does not see the difference. -/
theorem filter_late {p : CacheTrigger → Bool} (h : ∀ t, p t = true → inReach m t = true)
    {late early : List CacheTrigger} (hl : late.Perm (early.filter (inReach m))) :
    (late.filter p).Perm (early.filter p) := by
  refine (hl.filter p).trans (.of_eq ?_)
  rw [List.filter_filter]
  refine List.filter_congr fun t _ => ?_
  cases hp : p t with
  | true => simp [h t hp]
  | false => rfl

theorem inReach_of_due {t : CacheTrigger} (h : isDue m t = true) : inReach m t = true := by
  have := (isDue_iff.mp h).2.1
  simp only [inReach, decide_eq_true_eq]
  omega

theorem inReach_of_ahead {t : CacheTrigger} (h : isAhead m t = true) : inReach m t = true := by
  have := isAhead_iff.mp h
  have hwindow : catchupMaxMin = 15 := rfl
  simp only [inReach, decide_eq_true_eq]
  omega

variable (cfg m) in
/-- What a loop that has announced nothing yet comes to. -/
theorem announcing_outcome (cache : PrayerCache) (e : ℕ → Input) (disk : Disk) :
    let o := run (act .left) (announcing cfg m ⟨cache, false, false, 0⟩) e ⟨disk, []⟩
    if (due m cache).isEmpty || (e 0).works then
      o.value = some (settled m ⟨cache, false, false, 0⟩) ∧
        notices o.state.trace = (due m cache).map fun t => (t, announcement cfg m t)
    else o.value = none ∧ notices o.state.trace = [] := by
  have hrun := (announcing_run .left cfg e ⟨disk, []⟩ m ⟨cache, false, false, 0⟩).2.2
  cases hdue : (due m cache).isEmpty with
  | true =>
      simp only [Bool.true_or, if_true]
      rcases hrun with h | ⟨hnone, -⟩
      · exact h
      · simp [announcing, hdue, run_bind] at hnone
  | false =>
      cases hworks : (e 0).works with
      | true =>
          simp only [Bool.or_true, if_true]
          rcases hrun with h | ⟨hnone, -⟩
          · exact h
          · simp [announcing, hdue, notifyInit, run_step, act, answer, hworks, run_bind] at hnone
      | false =>
          simp only [Bool.or_false, Bool.false_eq_true, if_false]
          rcases hrun with ⟨hsome, -⟩ | ⟨hnone, hsaid, -⟩
          · simp [announcing, hdue, notifyInit, run_step, act, answer, hworks] at hsome
          · exact ⟨hnone, hsaid⟩

/-- A list built in minute `m` makes the loop of that minute announce and leave what a list
built at midnight would. -/
theorem late_rebuild_same (H : Host) (cache : PrayerCache) (cfg : Config) (times : PrayerTimes)
    (day m : ℤ) (hroom : (candidates cfg (sourceTimes H cfg times day) 0).length ≤ maxTriggers)
    (e : ℕ → Input) (disk : Disk) :
    let list c := (cacheBuildTriggers H cache cfg times c (dateText (mtCivilFromDays day))).1
    let loop c := run (act .left) (firingLoop cfg m (list c).triggers.items.length 0
      ⟨list c, false, false, 0⟩) e ⟨disk, []⟩
    (notices (loop m).state.trace).Perm (notices (loop 0).state.trace) ∧
      ((∃ f g, (loop m).value = some f ∧ (loop 0).value = some g ∧
          f.cache.triggers.items.Perm g.cache.triggers.items) ∨
        (loop m).value = none ∧ (loop 0).value = none) := by
  intro list loop
  have hlists : (list m).triggers.items.Perm ((list 0).triggers.items.filter (inReach m)) :=
    built_late H cache times day hroom
  have hdue : (due m (list m)).Perm (due m (list 0)) := filter_late (fun _ => inReach_of_due) hlists
  have hahead := filter_late (fun _ => inReach_of_ahead) hlists
  have hloop : ∀ c, loop c =
      run (act .left) (announcing cfg m ⟨list c, false, false, 0⟩) e ⟨disk, []⟩ := fun c =>
    congrArg (fun p => run (act .left) p e ⟨disk, []⟩) (firingLoop_eq cfg (Nat.le_refl _) (by simp))
  have hempty : (due m (list m)).isEmpty = (due m (list 0)).isEmpty := hdue.isEmpty_eq
  have hlate := announcing_outcome cfg m (list m) e disk
  have hearly := announcing_outcome cfg m (list 0) e disk
  rw [← hloop] at hlate hearly
  rw [hempty] at hlate
  split_ifs at hlate hearly with hstarts
  · rw [hlate.2, hearly.2]
    exact ⟨hdue.map _, Or.inl ⟨_, _, hlate.1, hearly.1, hahead⟩⟩
  · rw [hlate.2, hearly.2]
    exact ⟨.refl _, Or.inr ⟨hlate.1, hearly.1⟩⟩

theorem late_rebuild_same_june :
    let list c := (cacheBuildTriggers (steadyHost juneTimes) .zero juneConfig juneTimes c
      (dateText (mtCivilFromDays 20621))).1
    let loop c := run (act .left) (firingLoop juneConfig 805 (list c).triggers.items.length 0
      ⟨list c, false, false, 0⟩) (fun _ => juneInput) ⟨⟨none, none⟩, []⟩
    (notices (loop 805).state.trace).Perm (notices (loop 0).state.trace) := by
  have hdays : sourceTimes (steadyHost juneTimes) juneConfig juneTimes 20621 =
      fun _ => juneTimes := by
    funext δ
    unfold sourceTimes
    rw [timesOfDay_june, ite_self]
  have hroom : (candidates juneConfig (sourceTimes (steadyHost juneTimes) juneConfig juneTimes
      20621) 0).length ≤ maxTriggers := by
    rw [hdays]
    decide +kernel
  exact (late_rebuild_same (steadyHost juneTimes) .zero juneConfig juneTimes 20621 805 hroom
    (fun _ => juneInput) ⟨none, none⟩).1

end Rebuilding

end Muslimtify.FiringLoop
