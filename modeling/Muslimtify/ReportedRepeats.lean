import Muslimtify.CycleRun

/-!
# Announcements that may repeat

A trigger is announced again by a later cycle when it is still in the cache file.
What a cycle has announced is therefore gone from the file, or the file itself is
gone, or the cycle reports that it could not write it. Someone else may delete
the file while a notification is shown, which is how saved settings are
announced, and every access to the file may fail.

Up to the first notification and after the last one nobody deletes the file, so
what is known of the stages of a cycle by itself holds of them here.
-/
namespace Muslimtify.ReportedRepeats
open CText Settings Schedule TriggerCache CacheFile CacheRoundTrip Detection Program DaemonCycle
open CycleRun

section Meddling

def isNotice : Op → Bool
  | .notify _ _ => true
  | _ => false

/-- An operation of the cycle. Someone else may delete the cache file during a notification. -/
def actMeddled (op : Op) (i : Input × Bool) (w : World) : Answer op × World :=
  let r := act .left op i.1 w
  if isNotice op && i.2 then (r.1, (act .right .invalidateCache ⟨true, i.1.lookups⟩ r.2).2) else r

def isDeletion (ev : Event) : Bool :=
  match ev.party, ev.op with
  | .right, .invalidateCache => true
  | _, _ => false

/-- Someone else has deleted the cache file. -/
def Deleted (trace : List Event) : Prop := ∃ ev ∈ trace, isDeletion ev = true

/-- A program without notifications does what it does by itself. -/
theorem run_meddled {α : Type} {p : CycleProgram α} (h : p.Uses (isNotice · = false))
    (e : ℕ → Input × Bool) (w : World) :
    (run actMeddled p e w).value = (run (act .left) p (fun n => (e n).1) w).value ∧
      (run actMeddled p e w).state = (run (act .left) p (fun n => (e n).1) w).state := by
  induction p generalizing e w with
  | done a => exact ⟨rfl, rfl⟩
  | step op next ih =>
      have hact : actMeddled op (e 0) w = act .left op (e 0).1 w := by simp [actMeddled, h.1]
      rw [run_step, run_step, hact]
      exact ih _ (h.2 _) _ _

theorem Deleted.append {l : List Event} (h : Deleted l) (l' : List Event) : Deleted (l ++ l') := by
  obtain ⟨ev, hev, hdel⟩ := h
  exact ⟨ev, List.mem_append_left _ hev, hdel⟩

end Meddling

section Stages
variable {H : Host} {cfg : Config} {e : ℕ → Input × Bool} {w : World}

/-- What notifications leave of the state: the file stays or is deleted. -/
structure Shown (before after : World) (said : List (CacheTrigger × Call)) : Prop where
  notices : CycleRun.notices after.trace = CycleRun.notices before.trace ++ said
  cache : after.disk.cache = before.disk.cache ∨ after.disk.cache = none ∧ Deleted after.trace
  adds : ∃ l, after.trace = before.trace ++ l

theorem shown_notify (t : CacheTrigger) (call : Call) (i : Input × Bool) (w : World) :
    Shown w (actMeddled (.notify t call) i w).2 [(t, call)] := by
  unfold actMeddled
  cases hi : i.2 with
  | false =>
      simp only [isNotice, Bool.and_false, Bool.false_eq_true, if_false]
      exact ⟨by simp [act, CycleRun.notices], Or.inl rfl, _, rfl⟩
  | true =>
      simp only [isNotice, Bool.and_true, if_true]
      refine ⟨by simp [act, CycleRun.notices], Or.inr ⟨rfl, ?_⟩, _, List.append_assoc _ _ _⟩
      exact ⟨_, List.mem_append_right _ List.mem_cons_self, rfl⟩

theorem Shown.trans {w₁ w₂ w₃ : World} {said said' : List (CacheTrigger × Call)}
    (h : Shown w₁ w₂ said) (h' : Shown w₂ w₃ said') : Shown w₁ w₃ (said ++ said') := by
  obtain ⟨l, hl⟩ := h.adds
  obtain ⟨l', hl'⟩ := h'.adds
  refine ⟨by rw [h'.notices, h.notices, List.append_assoc], ?_, l ++ l', by
    rw [hl', hl, List.append_assoc]⟩
  rcases h'.cache with hsame | hgone
  · rcases h.cache with hsame' | ⟨hnone, hdel⟩
    · exact Or.inl (hsame.trans hsame')
    · exact Or.inr ⟨hsame.trans hnone, hl' ▸ hdel.append l'⟩
  · exact Or.inr hgone

variable (cfg e w) in
theorem announceAll_meddled (m : ℤ) (ts : List CacheTrigger) :
    Shown w (run actMeddled (announceAll cfg m ts) e w).state
      (ts.map fun t => (t, announcement cfg m t)) := by
  induction ts generalizing e w with
  | nil => exact ⟨(List.append_nil _).symm, Or.inl rfl, [], (List.append_nil _).symm⟩
  | cons t ts ih =>
      exact (shown_notify t (announcement cfg m t) (e 0) w).trans (ih (fun n => e (n + 1)) _)

variable (cfg e w) in
/-- Everything due is announced, or notifications do not start and nothing else happens. -/
theorem announcing_meddled (m : ℤ) (f : Firing) :
    let o := run actMeddled (announcing cfg m f) e w
    o.value = some (settled m f) ∧
        Shown w o.state ((due m f.cache).map fun t => (t, announcement cfg m t)) ∨
      o.value = none ∧ ∃ i, o.state = (act .left .notifyInit i w).2 := by
  cases hstart : f.notified || (due m f.cache).isEmpty with
  | true =>
      simp only [announcing, hstart, if_true, run_bind, pure_eq, run_done]
      exact Or.inl ⟨trivial, announceAll_meddled cfg e w m _⟩
  | false =>
      have hquiet : Shown w (actMeddled .notifyInit (e 0) w).2 [] :=
        ⟨by simp [actMeddled, isNotice, act, CycleRun.notices], Or.inl rfl, _, rfl⟩
      have hanswer : (actMeddled .notifyInit (e 0) w).1 = (e 0).1.works := rfl
      simp only [announcing, hstart, notifyInit, if_false, Bool.false_eq_true, step_bind, done_bind,
        run_step, hanswer]
      cases hworks : (e 0).1.works with
      | true =>
          simp only [if_true, run_bind, pure_eq, run_done]
          exact Or.inl ⟨trivial, hquiet.trans (announceAll_meddled cfg _ _ m _)⟩
      | false =>
          simp only [Bool.false_eq_true, if_false, pure_eq, run_done]
          exact Or.inr ⟨trivial, (e 0).1, rfl⟩

/-- The first half of a cycle does not report that notifications do not start. -/
theorem locate_yields (nowEpoch retryAt : ℤ) : (locate nowEpoch retryAt).Yields
    fun value => ∀ result, value = .inl result → result.error ≠ .notifyInit := by
  have hfirst : ∀ cfg cycle, (firstDetection cfg cycle).Yields fun r => r.1 ≠ .notifyInit := by
    intro cfg cycle
    unfold firstDetection
    split
    · refine Yields.bind (P := fun _ => True) (p := detectInto cfg) (fun _ => trivial)
        fun detected _ => ?_
      match detected with
      | none => exact fun h => by cases h
      | some found =>
          intro saved
          cases saved <;> exact fun h => by cases h
    · exact fun h => by cases h
  unfold locate
  refine Yields.bind (P := fun _ => True) (p := loadConfig) (fun _ => trivial) fun loaded _ => ?_
  match loaded with
  | none =>
      intro result h
      cases h
      exact fun h => by cases h
  | some cfg =>
      refine Yields.bind (hfirst cfg _) fun r hr => ?_
      dsimp only
      split
      · have htrue : ∀ p : CycleProgram (Config × MuslimtifyCycle × ℤ), p.Yields fun _ => True := by
          intro p
          induction p with
          | done a => trivial
          | step op next ih => exact ih
        refine Yields.bind (htrue _) fun settled _ => ?_
        intro result h
        cases h
      · intro result h
        cases h
        exact hr

end Stages

section Cycles
variable {H : Host}

/-- The cache file is for today and no longer holds what was announced. -/
def Consumed (now : LocalTime) (w : World) : Prop :=
  ∃ c, cacheLoad w.disk.cache true = some c ∧ c.date.text = now.today ∧
    ∀ x ∈ notices w.trace, ∀ t ∈ c.triggers.items, storedTrigger t ≠ storedTrigger x.1

/-- The cache file has everything that is due on the list. -/
def Retained (now : LocalTime) (list : PrayerCache) (w : World) : Prop :=
  ∃ c, cacheLoad w.disk.cache true = some c ∧
    ∀ t ∈ due now.currentMin list, storedTrigger t ∈ c.triggers.items.map storedTrigger

/-- What is ahead is none of what is announced. -/
theorem consumed_of_text {now : LocalTime} {list : PrayerCache} {w : World}
    (hrange : CacheInRange list) (htoday : list.date.text = now.today)
    (hcache : w.disk.cache = some (cacheText (keepAhead now.currentMin list)))
    (hsaid : ∀ x ∈ notices w.trace, x.1 ∈ due now.currentMin list) : Consumed now w := by
  refine ⟨storedCache (keepAhead now.currentMin list), ?_, htoday, ?_⟩
  · rw [hcache]
    exact cacheLoad_cacheText (keepAhead_inRange hrange)
  · intro x hx t ht heq
    obtain ⟨u, hu, rfl⟩ := List.mem_map.mp ht
    have hahead := isAhead_iff.mp (List.mem_filter.mp hu).2
    have hdue := (isDue_iff.mp (List.mem_filter.mp (hsaid x hx)).2).1
    have hminute := congrArg CacheTrigger.minute heq
    simp only [storedTrigger] at hminute
    omega

theorem retained_of_lists {cfg : Config} {now : LocalTime} {refreshed : Bool} {before after : World}
    {list : PrayerCache} (h : Lists H cfg now refreshed before after list false)
    (hrange : CacheInRange list) : Retained now list after := by
  obtain ⟨c, hc, -, hitems⟩ := h.holds hrange
  refine ⟨c, hc, fun t ht => ?_⟩
  rw [hitems]
  exact List.mem_map_of_mem (List.mem_of_mem_filter ht)

/-- A list with something due on it is not the same afterwards. -/
theorem settled_dirty_of_due {m n : ℤ} {list : PrayerCache} {t : CacheTrigger} (ht : t ∈ due m list) :
    (settled m ⟨list, false, false, n⟩).dirty = true := by
  have hahead : isAhead m t = false := by
    cases h : isAhead m t with
    | false => rfl
    | true => exact absurd ((not_isDue_of_isAhead h).symm.trans (List.mem_filter.mp ht).2) (by decide)
  simp only [settled, Bool.false_or]
  exact List.any_eq_true.mpr ⟨t, List.mem_of_mem_filter ht, by simp [hahead]⟩

/-- What a cycle that works under the settings `cfg` comes to, with the file it started from. -/
structure Reported (H : Host) (cfg : Config) (now : LocalTime) (refreshed : Bool)
    (file : Option CString) (w : World) (error : MuslimtifyError) : Prop where
  sent : notices w.trace ≠ [] →
    Consumed now w ∨ Deleted w.trace ∧ w.disk.cache = none ∨ error = .cacheSave
  unsent : error = .notifyInit → notices w.trace = [] ∧
    (¬Failed isCacheWrite w.trace → ∃ readable, (readable = false ↔ Failed isCacheRead w.trace) ∧
      Retained now (dayList H cfg now refreshed file readable) w)

/-- All that is due has been announced and the file has been dealt with. -/
theorem sent_reported {cfg : Config} {now : LocalTime} {refreshed writeFailed failed : Bool}
    {before w₁ w₂ w₃ : World} {list : PrayerCache} {n : ℤ}
    (hlists : Lists H cfg now refreshed before w₁ list writeFailed) (hrange : CacheInRange list)
    (htoday : list.date.text = now.today) (hquiet : notices before.trace = [])
    (hshown : Shown w₁ w₂ ((due now.currentMin list).map
      fun t => (t, announcement cfg now.currentMin t)))
    (hback : WrittenBack (settled now.currentMin ⟨list, false, false, n⟩) writeFailed w₂ w₃ failed)
    (hadds : ∃ l, w₃.trace = w₂.trace ++ l) (hsent : notices w₃.trace ≠ []) :
    Consumed now w₃ ∨ Deleted w₃.trace ∧ w₃.disk.cache = none ∨ failed = true := by
  have hsaid : notices w₃.trace =
      (due now.currentMin list).map fun t => (t, announcement cfg now.currentMin t) := by
    rw [hback.quiet, hshown.notices, hlists.quiet, hquiet, List.nil_append]
  rcases hback.cache with ⟨hcache, rfl, hclean⟩ | ⟨-, hcache, -⟩ | ⟨-, hfailed, -⟩
  · cases failed with
    | true => exact Or.inr (Or.inr rfl)
    | false =>
        obtain ⟨t, ht⟩ : ∃ t, t ∈ due now.currentMin list :=
          List.exists_mem_of_ne_nil _ fun hnil => hsent (by rw [hsaid, hnil]; rfl)
        rcases hclean with hclean | hgone
        · exact absurd (hclean.symm.trans (settled_dirty_of_due ht)) (by decide)
        · -- the first stage left a file, so someone has deleted it
          have hfile : w₁.disk.cache ≠ none := by
            rcases hlists.written rfl with hc | ⟨hc, hload⟩
            · rw [hc]
              exact Option.some_ne_none _
            · rw [hc]
              rintro hnone
              rw [hnone] at hload
              cases hload
          rcases hshown.cache with hsame | ⟨-, hdel⟩
          · exact absurd (hsame.symm.trans hgone) hfile
          · obtain ⟨l, hl⟩ := hadds
            exact Or.inr (Or.inl ⟨hl ▸ hdel.append l, hcache.trans hgone⟩)
  · refine Or.inl (consumed_of_text hrange htoday hcache fun x hx => ?_)
    rw [hsaid] at hx
    obtain ⟨t, ht, rfl⟩ := List.mem_map.mp hx
    exact ht
  · exact Or.inr (Or.inr hfailed)

variable (H) in
/-- The second half of a cycle. -/
theorem announceDue_meddled {cfg : Config} (hcfg : cfg.InRange) (cycle : MuslimtifyCycle)
    (now : LocalTime) (retryAt : ℤ) (e : ℕ → Input × Bool) (w : World)
    (hquiet : notices w.trace = []) (hunfailed : ¬Failed isCacheRead w.trace) :
    let o := run actMeddled (announceDue H cfg cycle now retryAt) e w
    Reported H cfg now cycle.refreshed w.disk.cache o.state o.value.error := by
  obtain ⟨hvalue₁, hstate₁⟩ := run_meddled (todaysCache_uses (P := (isNotice · = false)) rfl
    (fun _ => rfl) H cfg now cycle.refreshed) e w
  have hlists := todaysCache_run H .left cfg (fun n => (e n).1) w now cycle.refreshed
  simp only [← hvalue₁, ← hstate₁] at hlists
  simp only [announceDue, run_bind]
  generalize run actMeddled (todaysCache H cfg now cycle.refreshed) e w = o₁ at hlists ⊢
  obtain ⟨⟨list, writeFailed⟩, e₁, w₁⟩ := o₁
  simp only at hlists ⊢
  obtain ⟨readable, hlist, hread, hunread⟩ := hlists.origin
  have hrange : CacheInRange list := hlist ▸ dayList_inRange hcfg now cycle.refreshed _ readable
  have htoday : list.date.text = now.today := hlist ▸ dayList_today _ _ _ _ _ _
  rw [firingLoop_eq cfg (by simp) (by simp)]
  have hann := announcing_meddled cfg e₁ w₁ now.currentMin ⟨list, false, false, cycle.notifications⟩
  generalize run actMeddled (announcing cfg now.currentMin
    ⟨list, false, false, cycle.notifications⟩) e₁ w₁ = o₂ at hann ⊢
  obtain ⟨value₂, e₂, w₂⟩ := o₂
  simp only at hann ⊢
  rcases hann with ⟨rfl, hshown⟩ | ⟨rfl, i, rfl⟩
  · obtain ⟨hvalue₃, hstate₃⟩ := run_meddled (writeBack_uses (P := (isNotice · = false)) rfl
      (fun _ => rfl) rfl (settled now.currentMin ⟨list, false, false, cycle.notifications⟩)
      writeFailed) e₂ w₂
    have hback := writeBack_run .left (fun n => (e₂ n).1) w₂
      (settled now.currentMin ⟨list, false, false, cycle.notifications⟩) writeFailed
    have hadds := trace_run .left (writeBack
      (settled now.currentMin ⟨list, false, false, cycle.notifications⟩) writeFailed)
      (fun n => (e₂ n).1) w₂
    simp only [← hvalue₃, ← hstate₃] at hback hadds
    simp only [run_bind]
    generalize run actMeddled (writeBack (settled now.currentMin
      ⟨list, false, false, cycle.notifications⟩) writeFailed) e₂ w₂ = o₃ at hback hadds ⊢
    obtain ⟨failed, e₃, w₃⟩ := o₃
    simp only [pure_eq, run_done] at hback hadds ⊢
    refine ⟨fun hsent => ?_, fun herror => ?_⟩
    · refine (sent_reported hlists hrange htoday hquiet hshown hback hadds hsent).imp_right
        (Or.imp_right fun hfailed => ?_)
      rw [hfailed, if_pos rfl]
    · cases failed <;> cases herror
  · simp only [pure_eq, run_done]
    have hsilent : notices (act .left .notifyInit i w₁).2.trace = [] := by
      rw [notices_act (by simp), hlists.quiet, hquiet]
    refine ⟨fun hsent => absurd hsilent hsent, fun _ => ⟨hsilent, fun hwritten => ?_⟩⟩
    have hsaved : writeFailed = false := by
      cases writeFailed with
      | false => rfl
      | true => exact absurd (hlists.unwritten rfl).2.append hwritten
    subst hsaved
    refine ⟨readable, ⟨fun h => (hread h).append, fun h => ?_⟩, ?_⟩
    · exact (hunread (h.of_act rfl)).resolve_right hunfailed
    · rw [← hlist]
      exact (retained_of_lists hlists hrange : Retained now list w₁)

/-- Under any failures, and with the file deleted by someone else during any notification: once
a cycle has announced something, the cache file no longer holds it, or someone has deleted the
file, or the cycle reports that it could not write it. A cycle that could not start
notifications has announced nothing, and what is due is in the file unless it could not be
written. -/
theorem repeats_reported (H : Host) (now : LocalTime) (nowEpoch retryAt : ℤ)
    (e : ℕ → Input × Bool) (disk : Disk) :
    let o := run actMeddled (muslimtifyRunCycleAt H now nowEpoch retryAt) e ⟨disk, []⟩
    (notices o.state.trace ≠ [] → Consumed now o.state ∨
        Deleted o.state.trace ∧ o.state.disk.cache = none ∨ o.value.error = .cacheSave) ∧
      (o.value.error = .notifyInit → notices o.state.trace = [] ∧
        ∃ cfg refreshed,
          located disk.config (fun n => (e n).1) nowEpoch retryAt = some (cfg, refreshed) ∧
          (¬Failed isCacheWrite o.state.trace →
            ∃ readable, (readable = false ↔ Failed isCacheRead o.state.trace) ∧
              Retained now (dayList H cfg now refreshed disk.cache readable) o.state)) := by
  have huses : (locate nowEpoch retryAt).Uses (isNotice · = false) :=
    locate_uses (P := (isNotice · = false)) rfl (fun _ => rfl) (fun _ => rfl) nowEpoch retryAt
  obtain ⟨hvalue, hstate⟩ := run_meddled huses e ⟨disk, []⟩
  have hlocate := locate_run .left (fun n => (e n).1) ⟨disk, []⟩ nowEpoch retryAt
  have herror : ∀ result, (run (act .left) (locate nowEpoch retryAt) (fun n => (e n).1)
      ⟨disk, []⟩).value = .inl result → result.error ≠ .notifyInit :=
    (locate_yields nowEpoch retryAt).run _ _
  have hunread := failed_of_run (locate_uses (P := (isCacheRead · = false)) rfl (fun _ => rfl)
    (fun _ => rfl) nowEpoch retryAt) .left (fun n => (e n).1) ⟨disk, []⟩
  simp only [← hvalue, ← hstate] at hlocate herror hunread
  simp only [muslimtifyRunCycleAt_eq, run_bind]
  generalize run actMeddled (locate nowEpoch retryAt) e ⟨disk, []⟩ = o₁
    at hlocate herror hunread ⊢
  obtain ⟨value₁, e₁, w₁⟩ := o₁
  simp only at hlocate herror hunread ⊢
  rcases hlocate with ⟨result, rfl, -, -, -, hquiet, -⟩ |
    ⟨cfg, cycle, again, rfl, hsome, hcache, hquiet, -⟩
  · exact ⟨fun hsent => absurd hquiet hsent, fun h => absurd h (herror result rfl)⟩
  · have hunfailed : ¬Failed isCacheRead w₁.trace := fun hf => by
      obtain ⟨ev, hev, -⟩ := hunread hf
      cases hev
    have hdue := announceDue_meddled H (located_inRange hsome) cycle now again e₁ w₁ hquiet
      hunfailed
    rw [hcache] at hdue
    exact ⟨hdue.sent, fun h => ⟨(hdue.unsent h).1, cfg, cycle.refreshed, hsome, (hdue.unsent h).2⟩⟩

end Cycles

end Muslimtify.ReportedRepeats
