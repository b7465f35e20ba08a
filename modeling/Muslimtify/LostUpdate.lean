import Muslimtify.DaemonRuns

/-!
# A setting changed during a detection

A cycle that detects the location and a frontend that changes a setting both
read the settings, change a part of them and write them back whole. There is no
lock and nothing is merged: a frontend is told to reread the file, because the
daemon rewrites it. As long as neither process writes the file between the
other's reading and writing, the file ends up with the setter's value and the
detected location. Otherwise the later write undoes the earlier one.

Each side has its own view of the file, which its own reads and writes
establish and the other side's writes end.
-/
namespace Muslimtify.LostUpdate
open CText CDouble Settings ConfigFile ConfigRoundTrip Schedule TriggerCache TriggerPartition
open Detection Program DaemonCycle SettingsSave CycleRun DaemonRuns

section Overlapping

/-- A process is behind when the other has written the settings since it read
them. An update is lost when a process that is behind writes. `sought` is the
answer of the cycle's last detection and `found` the one it stored. -/
structure Overlap where
  cycleBehind : Bool
  saveBehind : Bool
  sought : Option Config
  found : Option Config
  saved : Bool
  lost : Bool

def Overlap.see (g : Overlap) (ev : Event) : Overlap :=
  match ev.party, ev.op with
  | .left, .loadConfig => { g with cycleBehind := false }
  | .left, .detect cfg =>
      { g with sought :=
          (muslimtifyDetectLocationWith cfg (locationDetect ev.input.lookups cfg)).map Prod.fst }
  | .left, .saveConfig _ =>
      if ev.input.works then
        { g with saveBehind := true, found := g.sought, lost := g.lost || g.cycleBehind }
      else g
  | .right, .loadConfig => { g with saveBehind := false }
  | .right, .saveConfig _ =>
      if ev.input.works then
        { g with cycleBehind := true, saved := true, lost := g.lost || g.saveBehind }
      else g
  | _, _ => g

def overlap (trace : List Event) : Overlap :=
  trace.foldl Overlap.see ⟨true, true, none, none, false, false⟩

theorem overlap_act (party : Side) (op : Op) (i : Input) (w : World) :
    overlap (act party op i w).2.trace = (overlap w.trace).see ⟨party, op, i, w.disk⟩ := by
  simp [act, overlap, List.foldl_append]

end Overlapping

section Views
variable (setting : Setting)

/-- What a reader finds in the file. -/
def Loads (file : Option CString) (P : Config → Prop) : Prop :=
  ∃ cfg, configLoad file true = some cfg ∧ P cfg

/-- The location as it is once it is stored. -/
def SameLocation (cfg found : Config) : Prop := locationOf cfg = locationOf (storedConfig found)

/-- Unless an update is lost, the file has what was stored in it so far. -/
def Kept (w : World) : Prop :=
  (overlap w.trace).lost = false →
    ((overlap w.trace).saved = true → Loads w.disk.config setting.Shows) ∧
      ∀ found, (overlap w.trace).found = some found →
        Loads w.disk.config (SameLocation · found)

/-- How far the cycle is. -/
inductive CycleView
  | started
  | found (cfg : Config)
  | located (cfg : Config)

/-- The cycle's settings have the setter's value unless it is behind. -/
def Carries (cfg : Config) (w : World) : Prop :=
  cfg.InRange ∧ ((overlap w.trace).lost = false → (overlap w.trace).cycleBehind = false →
    (overlap w.trace).saved = true → setting.Shows cfg)

def CycleView.Holds (w : World) : CycleView → Prop
  | .started => Kept setting w
  | .found cfg => Kept setting w ∧ Carries setting cfg w ∧ (overlap w.trace).sought = some cfg
  | .located cfg => Kept setting w ∧ Carries setting cfg w

/-- How far the frontend is. -/
inductive SaveView
  | started
  | opened (cfg : Config)
  | changed (cfg : Config)
  | saved

/-- The frontend's settings have the detected location unless it is behind. -/
def Knows (cfg : Config) (w : World) : Prop :=
  cfg.InRange ∧ ((overlap w.trace).lost = false → (overlap w.trace).saveBehind = false →
    ∀ found, (overlap w.trace).found = some found → SameLocation cfg found)

def SaveView.Holds (w : World) : SaveView → Prop
  | .started => Kept setting w
  | .opened cfg => Kept setting w ∧ Knows cfg w
  | .changed cfg => Kept setting w ∧ Knows cfg w ∧ setting.Shows cfg
  | .saved => Kept setting w ∧ (overlap w.trace).saved = true

variable {setting}

theorem CycleView.Holds.kept {p : CycleView} {w : World} (h : p.Holds setting w) :
    Kept setting w := by
  cases p with
  | started => exact h
  | found cfg => exact h.1
  | located cfg => exact h.1

theorem SaveView.Holds.kept {p : SaveView} {w : World} (h : p.Holds setting w) :
    Kept setting w := by
  cases p with
  | started => exact h
  | opened cfg => exact h.1
  | changed cfg => exact h.1
  | saved => exact h.1

/-- Detecting the location changes no other setting. -/
theorem shows_detected {lookups : Lookups} {cfg found : Config}
    {detection : MuslimtifyDetection} (h : setting.Shows cfg)
    (hdetect : muslimtifyDetectLocationWith cfg (locationDetect lookups cfg) =
      some (found, detection)) : setting.Shows found := by
  have hprayers := muslimtifyDetectLocationWith_prayers hdetect
  obtain ⟨place, useGps, rfl⟩ := muslimtifyDetectLocationWith_eq hdetect
  exact h.congr rfl rfl rfl hprayers rfl rfl

theorem shows_stored {cfg : Config} (h : setting.Shows cfg) : setting.Shows (storedConfig cfg) :=
  h.congr rfl rfl rfl (storedConfig_prayers cfg) rfl rfl

/-- Storing a location that is a stored one already leaves it as it is. -/
theorem SameLocation.stored {cfg found : Config} (h : SameLocation cfg found) :
    SameLocation (storedConfig cfg) found := by
  simp only [SameLocation, locationOf, storedConfig, StoredLocation.mk.injEq] at h ⊢
  obtain ⟨hlat, hlon, hzone, hoffset, hrest⟩ := h
  exact ⟨by rw [hlat, Double.rounded_idem], by rw [hlon, Double.rounded_idem], hzone,
    by rw [hoffset, Double.rounded_idem], hrest⟩

/-- What was just written loads. -/
theorem loads_saved {party : Side} {cfg : Config} {i : Input} {w : World} {P : Config → Prop}
    (hc : cfg.InRange) (hworks : i.works = true) (h : P (storedConfig cfg)) :
    Loads (act party (.saveConfig cfg) i w).2.disk.config P := by
  refine ⟨storedConfig cfg, ?_, h⟩
  have hconfig : (act party (.saveConfig cfg) i w).2.disk.config = some (configText cfg) := by
    simp [act, effect, hworks]
  rw [hconfig, configLoad_configText hc]

end Views

section Cycling
variable {setting : Setting} {H : Host} {now : LocalTime} {cfg : Config}

abbrev Cycling (setting : Setting) (p : CycleView) (w : World) : Prop := p.Holds setting w

abbrev Saving (setting : Setting) (p : SaveView) (w : World) : Prop := p.Holds setting w

variable {w w' : World}

theorem cycling_keeps (hconfig : w'.disk.config = w.disk.config)
    (hbehind : (overlap w'.trace).cycleBehind = (overlap w.trace).cycleBehind)
    (hsought : (overlap w'.trace).sought = (overlap w.trace).sought)
    (hfound : (overlap w'.trace).found = (overlap w.trace).found)
    (hsaved : (overlap w'.trace).saved = (overlap w.trace).saved)
    (hlost : (overlap w'.trace).lost = (overlap w.trace).lost) :
    Keeps (Cycling setting) w w' := by
  intro p hp
  cases p <;>
    simpa only [Cycling, CycleView.Holds, Kept, Carries, hconfig, hbehind, hsought, hfound,
      hsaved, hlost] using hp

theorem saving_keeps (hconfig : w'.disk.config = w.disk.config)
    (hbehind : (overlap w'.trace).saveBehind = (overlap w.trace).saveBehind)
    (hfound : (overlap w'.trace).found = (overlap w.trace).found)
    (hsaved : (overlap w'.trace).saved = (overlap w.trace).saved)
    (hlost : (overlap w'.trace).lost = (overlap w.trace).lost) :
    Keeps (Saving setting) w w' := by
  intro p hp
  cases p <;>
    simpa only [Saving, SaveView.Holds, Kept, Knows, hconfig, hbehind, hfound, hsaved, hlost]
      using hp

/-- What leaves the file and the overlap as they were leaves both views. -/
theorem quiet (hconfig : w'.disk.config = w.disk.config)
    (hoverlap : overlap w'.trace = overlap w.trace) :
    Keeps (Cycling setting) w w' ∧ Keeps (Saving setting) w w' := by
  refine ⟨cycling_keeps hconfig ?_ ?_ ?_ ?_ ?_, saving_keeps hconfig ?_ ?_ ?_ ?_⟩ <;> rw [hoverlap]

/-- Whatever the frontend does meanwhile, the program takes the cycle from one view
to the one that belongs to its value. -/
abbrev CycleStage {α : Type} (setting : Setting) (p : CycleView) (q : CycleProgram α)
    (next : α → CycleView) : Prop :=
  Triple (act .left) (Cycling setting) (Saving setting) (Cycling setting p) q
    fun a => Cycling setting (next a)

theorem CycleStage.pure {α : Type} {p : CycleView} {a : α} {next : α → CycleView}
    (h : ∀ w, Cycling setting p w → Cycling setting (next a) w) :
    CycleStage setting p (.done a : CycleProgram α) next :=
  Triple.done p h

theorem CycleStage.op {p : CycleView} {op : Op} {next : Answer op → CycleView}
    (h : ∀ w i, Cycling setting p w → Keeps (Saving setting) w (act .left op i w).2 ∧
      Cycling setting (next (act .left op i w).1) (act .left op i w).2) :
    CycleStage setting p (.step op .done) next :=
  Triple.step p (fun a => Cycling setting (next a)) h fun _ => CycleStage.pure fun _ hw => hw

theorem CycleStage.loadConfig : CycleStage setting .started loadConfig fun loaded =>
    match loaded with
    | none => .started
    | some cfg => .located cfg := by
  refine CycleStage.op fun w i hw => ?_
  have hoverlap := overlap_act .left .loadConfig i w
  have hdisk : (act .left .loadConfig i w).2.disk = w.disk := rfl
  have hkept : Kept setting (act .left .loadConfig i w).2 := by
    simpa only [Kept, hoverlap, Overlap.see, hdisk] using hw.kept
  have hanswer : (act .left .loadConfig i w).1 = configLoad w.disk.config i.works := rfl
  refine ⟨?_, ?_⟩
  · refine saving_keeps rfl ?_ ?_ ?_ ?_ <;> rw [hoverlap] <;> rfl
  · rw [hanswer]
    cases hload : configLoad w.disk.config i.works with
    | none => exact hkept
    | some cfg =>
        have hopen := configLoad_open hload
        refine ⟨hkept, configLoad_inRange hopen, fun hlost _ hsaved => ?_⟩
        obtain ⟨cfg', hload', hshows⟩ := (hkept hlost).1 hsaved
        rw [Option.some.inj (hopen.symm.trans hload')]
        exact hshows

theorem CycleStage.detectInto :
    CycleStage setting (.located cfg) (detectInto cfg) fun detected =>
      detected.elim (.located cfg) fun found => .found found.1 := by
  simp only [DaemonCycle.detectInto, detect, step_bind, done_bind, pure_eq]
  refine Triple.step (CycleView.located cfg) (fun (detected : Option Config × GpsStatus) w =>
    Cycling setting (.located cfg) w ∧ ∃ lookups, detected = locationDetect lookups cfg ∧
      (overlap w.trace).sought = (muslimtifyDetectLocationWith cfg detected).map Prod.fst)
    (fun w i hw => ⟨?_, ?_, i.lookups, rfl, ?_⟩) ?_
  · refine saving_keeps rfl ?_ ?_ ?_ ?_ <;> rw [overlap_act] <;> rfl
  · have hdisk : (act .left (.detect cfg) i w).2.disk = w.disk := rfl
    simpa only [Cycling, CycleView.Holds, Kept, Carries, overlap_act, Overlap.see, hdisk] using hw
  · rw [overlap_act]
    rfl
  · rintro detected w ⟨hw, lookups, rfl, hsought⟩ w' hk
    cases hdetect : muslimtifyDetectLocationWith cfg (locationDetect lookups cfg) with
    | none => exact hk _ hw
    | some found =>
        have hdetect : muslimtifyDetectLocationWith cfg (locationDetect lookups cfg) =
          some (found.1, found.2) := hdetect
        have hcarries : Carries setting found.1 w :=
          ⟨muslimtifyDetectLocationWith_inRange hdetect hw.2.1, fun hlost hbehind hsaved =>
            shows_detected (hw.2.2 hlost hbehind hsaved) hdetect⟩
        refine hk (.found found.1) ⟨hw.1, hcarries, ?_⟩
        rw [hsought, hdetect]
        rfl

theorem CycleStage.saveConfig :
    CycleStage setting (.found cfg) (saveConfig cfg) fun _ => .located cfg := by
  refine CycleStage.op fun w i ⟨hkept, hcarries, hsought⟩ => ?_
  cases hworks : i.works with
  | true =>
      have hoverlap := overlap_act .left (.saveConfig cfg) i w
      simp only [Overlap.see, hworks, if_true, hsought] at hoverlap
      have hkept' : Kept setting (act .left (.saveConfig cfg) i w).2 := by
        simp only [Kept, hoverlap, Bool.or_eq_false_iff, and_imp]
        refine fun hlost hbehind => ⟨fun hsaved => ?_, fun found hfound => ?_⟩
        · exact loads_saved hcarries.1 hworks (shows_stored (hcarries.2 hlost hbehind hsaved))
        · obtain rfl := Option.some.inj hfound
          exact loads_saved hcarries.1 hworks rfl
      refine ⟨fun p hp => ?_, hkept', hcarries.1, ?_⟩
      · cases p with
        | started => exact hkept'
        | opened c => exact ⟨hkept', hp.2.1, by simp [hoverlap]⟩
        | changed c => exact ⟨hkept', ⟨hp.2.1.1, by simp [hoverlap]⟩, hp.2.2⟩
        | saved => exact ⟨hkept', by simpa only [hoverlap] using hp.2⟩
      · simp only [hoverlap, Bool.or_eq_false_iff, and_imp]
        exact fun hlost hbehind _ hsaved => hcarries.2 hlost hbehind hsaved
  | false =>
      have hquiet : Keeps (Cycling setting) w (act .left (.saveConfig cfg) i w).2 ∧
          Keeps (Saving setting) w (act .left (.saveConfig cfg) i w).2 :=
        quiet (by simp [act, effect, hworks]) (by simp [overlap_act, Overlap.see, hworks])
      exact ⟨hquiet.2, hquiet.1 (.located cfg) ⟨hkept, hcarries⟩⟩

theorem CycleStage.firstDetection (cycle : MuslimtifyCycle) :
    CycleStage setting (.located cfg) (firstDetection cfg cycle) fun r => .located r.2.1 :=
  firstDetection_triple CycleStage.detectInto (fun _ => CycleStage.saveConfig) cycle

theorem CycleStage.refreshLocation (cycle : MuslimtifyCycle) (nowEpoch retryAt : ℤ) :
    CycleStage setting (.located cfg) (refreshLocation cfg cycle nowEpoch retryAt)
      fun r => .located r.1 :=
  refreshLocation_triple CycleStage.detectInto (fun _ => CycleStage.saveConfig) cycle nowEpoch
    retryAt

/-- The operations that have to do with neither the settings nor the location. -/
def isApart : Op → Bool
  | .loadConfig | .saveConfig _ | .detect _ => false
  | _ => true

theorem todaysCache_uses (refreshed : Bool) :
    (todaysCache H cfg now refreshed).Uses (isApart · = true) := by
  cases refreshed with
  | true => exact ⟨rfl, fun _ => trivial⟩
  | false =>
      refine Uses.bind (p := DaemonCycle.loadCache) ⟨rfl, fun _ => trivial⟩ fun loaded => ?_
      dsimp only
      split_ifs
      · trivial
      · exact ⟨rfl, fun _ => trivial⟩

theorem announceDue_uses (cycle : MuslimtifyCycle) (retryAt : ℤ) :
    (announceDue H cfg cycle now retryAt).Uses (isApart · = true) := by
  unfold DaemonCycle.announceDue
  refine Uses.bind (todaysCache_uses _) fun r => ?_
  dsimp only
  rw [firingLoop_eq cfg (by simp) (by simp)]
  refine Uses.bind (announcing_uses (P := (isApart · = true)) rfl (fun _ _ => rfl) _ _ _) fun o => ?_
  match o with
  | none => trivial
  | some f =>
      exact Uses.bind (writeBack_uses (P := (isApart · = true)) rfl (fun _ => rfl) rfl f _)
        fun _ => trivial

theorem CycleStage.apart {α : Type} {q : CycleProgram α} (h : q.Uses (isApart · = true))
    (p : CycleView) : CycleStage setting p q fun _ => p := by
  refine Uses.triple h p fun op hop w i hw => ?_
  have hconfig : (act .left op i w).2.disk.config = w.disk.config := by
    cases op <;> simp_all [isApart, act, effect] <;> split_ifs <;> rfl
  have hoverlap : overlap (act .left op i w).2.trace = overlap w.trace := by
    rw [overlap_act]
    cases op <;> first | rfl | cases hop
  exact ⟨(quiet hconfig hoverlap).2, (quiet hconfig hoverlap).1 p hw⟩

theorem CycleStage.muslimtifyRunCycleAt (nowEpoch retryAt : ℤ) :
    CycleStage setting .started (muslimtifyRunCycleAt H now nowEpoch retryAt)
      fun _ => .started := by
  unfold DaemonCycle.muslimtifyRunCycleAt
  refine Triple.bind CycleStage.loadConfig fun loaded => ?_
  match loaded with
  | none => exact CycleStage.pure fun _ hw => hw.kept
  | some cfg =>
      refine Triple.bind (CycleStage.firstDetection _) fun r => ?_
      dsimp only
      split
      · exact Triple.bind (CycleStage.refreshLocation _ _ _) fun _ w hw =>
          CycleStage.apart (announceDue_uses _ _) .started w hw.kept
      · exact CycleStage.pure fun _ hw => hw.kept

end Cycling

section Changing
variable {setting : Setting} {cfg : Config}

/-- The same for the frontend. -/
abbrev SaveStage {α : Type} (setting : Setting) (p : SaveView) (q : CycleProgram α)
    (next : α → SaveView) : Prop :=
  Triple (act .right) (Saving setting) (Cycling setting) (Saving setting p) q
    fun a => Saving setting (next a)

theorem SaveStage.pure {α : Type} {p : SaveView} {a : α} {next : α → SaveView}
    (h : ∀ w, Saving setting p w → Saving setting (next a) w) :
    SaveStage setting p (.done a : CycleProgram α) next :=
  Triple.done p h

theorem SaveStage.op {p : SaveView} {op : Op} {next : Answer op → SaveView}
    (h : ∀ w i, Saving setting p w → Keeps (Cycling setting) w (act .right op i w).2 ∧
      Saving setting (next (act .right op i w).1) (act .right op i w).2) :
    SaveStage setting p (.step op .done) next :=
  Triple.step p (fun a => Saving setting (next a)) h fun _ => SaveStage.pure fun _ hw => hw

theorem SaveStage.loadConfig : SaveStage setting .started loadConfig fun loaded =>
    match loaded with
    | none => .started
    | some cfg => .opened cfg := by
  refine SaveStage.op fun w i hw => ?_
  have hoverlap := overlap_act .right .loadConfig i w
  have hdisk : (act .right .loadConfig i w).2.disk = w.disk := rfl
  have hkept : Kept setting (act .right .loadConfig i w).2 := by
    simpa only [Kept, hoverlap, Overlap.see, hdisk] using hw.kept
  have hanswer : (act .right .loadConfig i w).1 = configLoad w.disk.config i.works := rfl
  refine ⟨?_, ?_⟩
  · refine cycling_keeps rfl ?_ ?_ ?_ ?_ ?_ <;> rw [hoverlap] <;> rfl
  · rw [hanswer]
    cases hload : configLoad w.disk.config i.works with
    | none => exact hkept
    | some cfg =>
        have hopen := configLoad_open hload
        refine ⟨hkept, configLoad_inRange hopen, fun hlost _ found hfound => ?_⟩
        obtain ⟨cfg', hload', hsame⟩ := (hkept hlost).2 found hfound
        rw [Option.some.inj (hopen.symm.trans hload')]
        exact hsame

theorem SaveStage.saveConfig : SaveStage setting (.changed cfg) (saveConfig cfg) fun saved =>
    if saved then .saved else .started := by
  refine SaveStage.op fun w i ⟨hkept, hknows, hshows⟩ => ?_
  have hanswer : (act .right (.saveConfig cfg) i w).1 = i.works := rfl
  rw [hanswer]
  cases hworks : i.works with
  | true =>
      have hoverlap := overlap_act .right (.saveConfig cfg) i w
      simp only [Overlap.see, hworks, if_true] at hoverlap
      have hkept' : Kept setting (act .right (.saveConfig cfg) i w).2 := by
        simp only [Kept, hoverlap, Bool.or_eq_false_iff, and_imp]
        refine fun hlost hbehind => ⟨fun _ => ?_, fun found hfound => ?_⟩
        · exact loads_saved hknows.1 hworks (shows_stored hshows)
        · exact loads_saved hknows.1 hworks (hknows.2 hlost hbehind found hfound).stored
      refine ⟨fun p hp => ?_, hkept', by simp [hoverlap]⟩
      cases p with
      | started => exact hkept'
      | found c => exact ⟨hkept', ⟨hp.2.1.1, by simp [hoverlap]⟩, by simpa [hoverlap] using hp.2.2⟩
      | located c => exact ⟨hkept', hp.2.1, by simp [hoverlap]⟩
  | false =>
      have hquiet : Keeps (Cycling setting) w (act .right (.saveConfig cfg) i w).2 ∧
          Keeps (Saving setting) w (act .right (.saveConfig cfg) i w).2 :=
        quiet (by simp [act, effect, hworks]) (by simp [overlap_act, Overlap.see, hworks])
      exact ⟨hquiet.1, hquiet.2 .started hkept⟩

theorem SaveStage.invalidateCache :
    SaveStage setting .saved invalidateCache fun _ => .saved := by
  refine SaveStage.op fun w i hw => ?_
  have hconfig : (act .right .invalidateCache i w).2.disk.config = w.disk.config := by
    cases hworks : i.works <;> simp [act, effect, hworks]
  have hquiet : Keeps (Cycling setting) w (act .right .invalidateCache i w).2 ∧
      Keeps (Saving setting) w (act .right .invalidateCache i w).2 :=
    quiet hconfig (by rw [overlap_act]; rfl)
  exact ⟨hquiet.1, hquiet.2 .saved hw⟩

theorem SaveStage.muslimtifySave :
    SaveStage setting (.changed cfg) (muslimtifySave cfg) fun err =>
      if err = .ok then .saved else .started := by
  unfold SettingsSave.muslimtifySave
  refine Triple.bind SaveStage.saveConfig fun saved => ?_
  cases saved with
  | true => exact Triple.bind SaveStage.invalidateCache fun _ => SaveStage.pure fun _ hw => hw
  | false => exact SaveStage.pure fun _ hw => hw

/-- The setter has its value in the frontend's settings and leaves the location. -/
theorem SaveView.Holds.change {changed : Config} {w : World} (h : setting.set cfg = .ok changed)
    (hw : Saving setting (.opened cfg) w) : Saving setting (.changed changed) w := by
  obtain ⟨hshown, hrange, hlocation⟩ := Setting.set_changes h
  refine ⟨hw.1, ⟨hrange hw.2.1, fun hlost hbehind found hfound => ?_⟩, hshown⟩
  rw [SameLocation, hlocation]
  exact hw.2.2 hlost hbehind found hfound

theorem SaveStage.changeSetting :
    SaveStage setting .started (changeSetting setting) fun err =>
      if err = .ok then .saved else .started := by
  unfold SettingsSave.changeSetting muslimtifyOpen
  refine Triple.bind SaveStage.loadConfig fun loaded => ?_
  match loaded with
  | none => exact SaveStage.pure fun _ hw => hw
  | some cfg =>
      dsimp only
      cases hset : setting.set cfg with
      | error err =>
          have herr : err ≠ .ok := fun herr => Setting.set_ne_ok (herr ▸ hset)
          dsimp only [pure_eq]
          exact SaveStage.pure fun _ hw => by
            rw [if_neg herr]
            exact hw.kept
      | ok changed => exact fun w hw => SaveStage.muslimtifySave w (hw.change hset)

end Changing

section Racing
variable {setting : Setting} {H : Host} {now : LocalTime}

/-- In every order of the operations of a cycle and of a frontend that changes a
setting, whichever of them fail, the file has the setter's value and the location
that the cycle found and stored, unless one of them wrote behind the other. -/
theorem no_update_lost {nowEpoch retryAt : ℤ} {disk : Disk} {turns : List (Side × Input)}
    {result : CycleResult} {w : World} {found : Config}
    (h : interleave act turns
      (muslimtifyRunCycleAt H now nowEpoch retryAt, changeSetting setting, ⟨disk, []⟩) =
        (.done result, .done .ok, w))
    (hlost : (overlap w.trace).lost = false) (hfound : (overlap w.trace).found = some found) :
    ∃ cfg, configLoad w.disk.config true = some cfg ∧ setting.Shows cfg ∧
      SameLocation cfg found := by
  have hstart : Kept setting ⟨disk, []⟩ := by
    refine fun _ => ⟨fun hsaved => ?_, fun found hfound => ?_⟩
    · simp [overlap] at hsaved
    · simp [overlap] at hfound
  have hcycle : Meets (act .left) (Cycling setting) (Saving setting)
      (fun _ => Cycling setting .started) (muslimtifyRunCycleAt H now nowEpoch retryAt)
      ⟨disk, []⟩ := CycleStage.muslimtifyRunCycleAt nowEpoch retryAt _ hstart
  have hsave : Meets (act .right) (Saving setting) (Cycling setting)
      (fun err => Saving setting (if err = .ok then .saved else .started)) (changeSetting setting)
      ⟨disk, []⟩ := SaveStage.changeSetting _ hstart
  obtain ⟨hkept, hsaved⟩ : Saving setting .saved w := (hcycle.interleave hsave h).2
  obtain ⟨cfg, hload, hshows⟩ := (hkept hlost).1 hsaved
  obtain ⟨cfg', hload', hsame⟩ := (hkept hlost).2 found hfound
  obtain rfl := Option.some.inj (hload.symm.trans hload')
  exact ⟨cfg, hload, hshows, hsame⟩

/-- A first cycle at 23:50 and a change to the 12-hour clock, in the order given. -/
def juneChange (turns : List Side) :
    CycleProgram CycleResult × CycleProgram MuslimtifyError × World :=
  interleave act (turns.map fun side => (side, juneInput))
    (muslimtifyRunCycleAt (steadyHost juneTimes) (juneTime 20621 23 50) 0 0,
      changeSetting (.timeFormat 12), ⟨⟨none, none⟩, []⟩)

/-- The change before the cycle: both are in the file. -/
theorem no_update_lost_june :
    ∃ result w, juneChange (List.replicate 3 .right ++ List.replicate 12 .left) =
      (.done result, .done .ok, w) ∧ result.error = .ok ∧
        ∃ found, (overlap w.trace).found = some found ∧
          ∃ cfg, configLoad w.disk.config true = some cfg ∧
            Setting.Shows cfg (.timeFormat 12) ∧ SameLocation cfg found := by
  obtain ⟨result, w, hrun, hok, hlost, hfound⟩ := both_succeed
    (juneChange (List.replicate 3 .right ++ List.replicate 12 .left))
    (fun w => (overlap w.trace).lost = false ∧ (overlap w.trace).found.isSome = true)
    (by decide +kernel)
  obtain ⟨found, hfound⟩ := Option.isSome_iff_exists.mp hfound
  exact ⟨result, w, hrun, hok, found, hfound, no_update_lost hrun hlost hfound⟩

/-- The frontend opens the settings, the cycle detects the location and stores it, and
the frontend saves its copy: the location is gone. -/
theorem location_lost :
    ∃ result w, juneChange (.right :: List.replicate 12 .left ++ List.replicate 2 .right) =
      (.done result, .done .ok, w) ∧ result.error = .ok ∧
        ∃ found, (overlap w.trace).found = some found ∧
          ¬∃ cfg, configLoad w.disk.config true = some cfg ∧
            Setting.Shows cfg (.timeFormat 12) ∧ SameLocation cfg found := by
  obtain ⟨result, w, hrun, hok, hgone⟩ := both_succeed
    (juneChange (.right :: List.replicate 12 .left ++ List.replicate 2 .right))
    (fun w => ((overlap w.trace).found.any fun found =>
      (configLoad w.disk.config true).all fun cfg =>
        locationOf cfg ≠ locationOf (storedConfig found)) = true)
    (by decide +kernel)
  obtain ⟨found, hfound, hgone⟩ := (Option.any_eq_true _ _).mp hgone
  refine ⟨result, w, hrun, hok, found, hfound, fun ⟨cfg, hload, _, hsame⟩ => ?_⟩
  rw [hload] at hgone
  simp only [Option.all_some, decide_eq_true_eq] at hgone
  exact hgone hsame

end Racing

end Muslimtify.LostUpdate
