import Muslimtify.CMemory
import Muslimtify.DaemonRuns

/-!
# The age of the saved location

A cycle takes the time at which the location was found from the present time and
compares the difference with the refresh interval. Both times are of type
`int64_t`, and a difference outside the type has no defined result, so the test
and the cycle around it are written here with a subtraction that fails.

The file's time is read as `strtoll` reads it, which may be any number of the
type. A detection puts the time of the clock in its place.
-/
namespace Muslimtify.LocationAge
open CText CDouble CivilDays Settings ConfigFile Schedule TriggerPartition Detection Program
open DaemonCycle CycleRun DaemonRuns
open CMemory (Checked ok_bind)

section Checked

/-- A subtraction of `int64_t`s. -/
def subLong (a b : ℤ) : Checked ℤ :=
  if longMin ≤ a - b ∧ a - b ≤ longMax then .ok (a - b) else .error .signedOverflow

/-- `location_is_stale`. -/
def locationIsStaleAt (cfg : Config) (now : ℤ) : Checked Bool :=
  if !cfg.autoDetect then return false
  else if cfg.refreshInterval ≤ 0 then return false
  else do
    let age ← subLong now cfg.updatedAt
    return decide (cfg.refreshInterval ≤ age)

/-- The periodic refresh, once the test has answered. -/
def refreshIf (stale : Bool) (cfg : Config) (cycle : MuslimtifyCycle) (nowEpoch retryAt : ℤ) :
    CycleProgram (Config × MuslimtifyCycle × ℤ) := do
  if stale && retryAt ≤ nowEpoch then
    match ← detectInto cfg with
    | none => return (cfg, { cycle with refreshFailed := true }, nowEpoch + refreshRetrySec)
    | some (cfg, detection) =>
        let cycle := { cycle with detection := detection, refreshed := true }
        if ← saveConfig cfg then return (cfg, cycle, retryAt)
        else return (cfg, { cycle with refreshFailed := true }, retryAt)
  else return (cfg, cycle, retryAt)

def refreshLocationAt (cfg : Config) (cycle : MuslimtifyCycle) (nowEpoch retryAt : ℤ) :
    CycleProgram (Checked (Config × MuslimtifyCycle × ℤ)) :=
  match locationIsStaleAt cfg nowEpoch with
  | .error fault => return .error fault
  | .ok stale => return .ok (← refreshIf stale cfg cycle nowEpoch retryAt)

/-- The cycle from the refresh on. -/
def refreshAndAnnounce (H : Host) (cfg : Config) (cycle : MuslimtifyCycle) (now : LocalTime)
    (nowEpoch retryAt : ℤ) : CycleProgram (Checked CycleResult) := do
  match ← refreshLocationAt cfg cycle nowEpoch retryAt with
  | .error fault => return .error fault
  | .ok (cfg, cycle, retryAt) => return .ok (← announceDue H cfg cycle now retryAt)

/-- `muslimtify_run_cycle_at`, which ends at a subtraction that leaves its type. -/
def checkedCycle (H : Host) (now : LocalTime) (nowEpoch retryAt : ℤ) :
    CycleProgram (Checked CycleResult) := do
  match ← loadConfig with
  | none => return .ok ⟨.configLoad, .zero, retryAt⟩
  | some cfg =>
      let (err, cfg, cycle) ← firstDetection cfg .zero
      if err = .ok then refreshAndAnnounce H cfg cycle now nowEpoch retryAt
      else return .ok ⟨err, cycle, retryAt⟩

/-- The checked cycle does what the cycle over exact numbers does. -/
def ComparesExactly (H : Host) (now : LocalTime) (nowEpoch retryAt : ℤ) (party : Side)
    (e : ℕ → Input) (w : World) : Prop :=
  let o := run (act party) (muslimtifyRunCycleAt H now nowEpoch retryAt) e w
  run (act party) (checkedCycle H now nowEpoch retryAt) e w = ⟨.ok o.value, o.inputs, o.state⟩

end Checked

section Ages
variable {cfg : Config} {now : ℤ}

/-- The test is not made, or the location is not older than the type can say. -/
def AgeFits (cfg : Config) (now : ℤ) : Prop :=
  cfg.autoDetect = false ∨ cfg.refreshInterval ≤ 0 ∨ now - longMax ≤ cfg.updatedAt

theorem subLong_ok {a b : ℤ} (h : longMin ≤ a - b ∧ a - b ≤ longMax) :
    subLong a b = .ok (a - b) := if_pos h

/-- The test within its type is the test on exact numbers. -/
theorem locationIsStaleAt_ok (hcfg : cfg.InRange) (hnow : 0 ≤ now) (h : AgeFits cfg now) :
    locationIsStaleAt cfg now = .ok (locationIsStale cfg now) := by
  unfold locationIsStaleAt locationIsStale
  by_cases hauto : cfg.autoDetect = false
  · simp [hauto]
  by_cases hoff : cfg.refreshInterval ≤ 0
  · simp [hoff]
  · have hlate : now - longMax ≤ cfg.updatedAt :=
      (h.resolve_left hauto).resolve_left hoff
    have hmax := hcfg.updatedAt.2
    have hfits : longMin ≤ now - cfg.updatedAt ∧ now - cfg.updatedAt ≤ longMax := by
      simp only [longMin, longMax] at hlate hmax ⊢
      omega
    simp [hauto, hoff, subLong_ok hfits]

theorem locationIsStaleAt_fault (h : ¬AgeFits cfg now) :
    locationIsStaleAt cfg now = .error .signedOverflow := by
  simp only [AgeFits, not_or] at h
  obtain ⟨hauto, hoff, hold⟩ := h
  have hover : ¬(longMin ≤ now - cfg.updatedAt ∧ now - cfg.updatedAt ≤ longMax) := by omega
  simp only [locationIsStaleAt, hauto, hoff, subLong, if_neg hover]
  rfl

end Ages

section Cycles
variable {cfg : Config} {e : ℕ → Input}

theorem refreshLocation_eq (cfg : Config) (cycle : MuslimtifyCycle) (nowEpoch retryAt : ℤ) :
    refreshLocation cfg cycle nowEpoch retryAt =
      refreshIf (locationIsStale cfg nowEpoch) cfg cycle nowEpoch retryAt := rfl

/-- The clock that a lookup stamps its place with has passed the epoch. -/
def Stamped (lookups : Lookups) : Prop :=
  0 ≤ lookups.fix.updatedAt ∧ ∀ place, lookups.ipinfo = some place → 0 ≤ place.updatedAt

/-- A location that was just found is never too old. -/
theorem ageFits_found {lookups : Lookups} (h : Stamped lookups) {found : Config}
    {detection : MuslimtifyDetection} (hfound :
      muslimtifyDetectLocationWith cfg (locationDetect lookups cfg) = some (found, detection))
    {now : ℤ} (hnow : now ≤ longMax) : AgeFits found now := by
  obtain ⟨place, useGps, hplace, rfl⟩ := muslimtifyDetectLocationWith_place hfound
  have hstamp : 0 ≤ place.updatedAt := by
    rcases hplace with rfl | hplace
    · exact h.1
    · exact h.2 place hplace
  refine Or.inr (Or.inr ?_)
  simp only [Place.store]
  omega

variable {H : Host} {now : LocalTime} {nowEpoch retryAt : ℤ} {party : Side} {w : World}

/-- From the refresh on the two cycles agree where the age fits. -/
theorem refreshAndAnnounce_exact (hcfg : cfg.InRange) (hnow : 0 ≤ nowEpoch)
    (hfits : AgeFits cfg nowEpoch) (cycle : MuslimtifyCycle) :
    let o := run (act party) (refreshLocation cfg cycle nowEpoch retryAt >>= fun found =>
      announceDue H found.1 found.2.1 now found.2.2) e w
    run (act party) (refreshAndAnnounce H cfg cycle now nowEpoch retryAt) e w =
      ⟨.ok o.value, o.inputs, o.state⟩ := by
  have hrefresh : refreshLocationAt cfg cycle nowEpoch retryAt =
      refreshLocation cfg cycle nowEpoch retryAt >>= fun found => done (.ok found) := by
    rw [refreshLocationAt, locationIsStaleAt_ok hcfg hnow hfits, refreshLocation_eq]
    rfl
  simp only [refreshAndAnnounce, hrefresh, bind_assoc, done_bind, run_bind, pure_eq, run_done]

/-- Where it does not fit the cycle ends at the test. -/
theorem refreshAndAnnounce_fault (hfits : ¬AgeFits cfg nowEpoch) (cycle : MuslimtifyCycle) :
    refreshAndAnnounce H cfg cycle now nowEpoch retryAt = done (.error .signedOverflow) := by
  rw [refreshAndAnnounce, refreshLocationAt, locationIsStaleAt_fault hfits]
  rfl

theorem checkedCycle_fault (hload : configLoad w.disk.config (e 0).works = some cfg)
    (hneeds : configLocationNeedsDetect cfg = false) (hfits : ¬AgeFits cfg nowEpoch) :
    (run (act party) (checkedCycle H now nowEpoch retryAt) e w).value =
      .error .signedOverflow := by
  have hanswer : (act party .loadConfig (e 0) w).1 = some cfg := hload
  have hfirst : firstDetection cfg .zero = done (.ok, cfg, .zero) := by
    rw [firstDetection, hneeds]
    rfl
  simp only [checkedCycle, loadConfig, step_bind, done_bind, run_step, hanswer, hfirst, if_true,
    refreshAndAnnounce_fault hfits, run_done]

/-- In a cycle that reads its settings the age of the location stays in its type, and the test
is the one on exact numbers, exactly when the settings need a location first, ask for no
refresh, or give a time that is not too long ago. -/
theorem stale_test_fits_iff (H : Host) (now : LocalTime) {nowEpoch : ℤ}
    (hnow : 0 ≤ nowEpoch ∧ nowEpoch ≤ longMax) (retryAt : ℤ) (party : Side) {w : World}
    (hload : configLoad w.disk.config (e 0).works = some cfg)
    (hclock : ∀ n, Stamped (e n).lookups) :
    ComparesExactly H now nowEpoch retryAt party e w ↔
      configLocationNeedsDetect cfg = true ∨ AgeFits cfg nowEpoch := by
  have hcfg : cfg.InRange := configLoad_inRange hload
  have hanswer : (act party .loadConfig (e 0) w).1 = some cfg := hload
  simp only [ComparesExactly, muslimtifyRunCycleAt, checkedCycle, loadConfig, step_bind, done_bind,
    run_step, hanswer]
  have hfirst := firstDetection_run party (fun n => e (n + 1)) (act party .loadConfig (e 0) w).2 cfg
  generalize (act party .loadConfig (e 0) w).2 = w₁ at hfirst ⊢
  rw [run_bind, run_bind]
  generalize run (act party) (firstDetection cfg .zero) (fun n => e (n + 1)) w₁ = o at hfirst ⊢
  rcases hfirst with ⟨hneeds, rfl⟩ | ⟨hneeds, -, ⟨-, herr, -⟩ | ⟨found, cycle, hfound, -, hok, -⟩⟩
  · -- the settings of the file come to the test
    simp only [if_true]
    by_cases hfits : AgeFits cfg nowEpoch
    · exact iff_of_true (refreshAndAnnounce_exact hcfg hnow.1 hfits .zero) (Or.inr hfits)
    · refine iff_of_false (fun h => ?_) (by simp [hneeds, hfits])
      rw [refreshAndAnnounce_fault hfits] at h
      cases congrArg Outcome.value h
  · -- the cycle ends before the test
    obtain ⟨⟨err, cfg', cycle⟩, e₁, w₂⟩ := o
    simp only at herr ⊢
    simp only [if_neg herr]
    exact iff_of_true rfl (Or.inl hneeds)
  · -- the settings with the location just found do
    obtain ⟨value, e₁, w₂⟩ := o
    obtain rfl : value = (.ok, found, cycle) := hok
    obtain ⟨⟨found', detection⟩, hdetect, rfl⟩ := Option.map_eq_some_iff.mp hfound
    simp only [if_true]
    have hfits := ageFits_found (hclock 1) hdetect hnow.2
    have hfound' := muslimtifyDetectLocationWith_inRange hdetect hcfg
    exact iff_of_true (refreshAndAnnounce_exact hfound' hnow.1 hfits cycle) (Or.inl hneeds)

/-- A file whose location was found at this time. -/
def agedFile (updatedAt : String) : CString :=
  ascii ("\x7b\"location\": \x7b\"latitude\": 64.15, \"longitude\": -21.94, \"updated_at\": " ++
    updatedAt ++ "\x7d\x7d")

def agedConfig (updatedAt : ℤ) : Config :=
  { configDefault with
    latitude := .ofRat 64.15
    longitude := .ofRat (-21.94)
    updatedAt := updatedAt }

def agedWorld (updatedAt : String) : World := ⟨⟨some (agedFile updatedAt), none⟩, []⟩

/-- Noon of a day in June 2026. -/
def juneNoon : ℤ := 1781697600

/-- The file gives the least time of the type and is accepted. -/
theorem ancient_location_overflows :
    configLoad (some (agedFile "-9223372036854775808")) true = some (agedConfig longMin) ∧
      ¬ComparesExactly (steadyHost juneTimes) (juneTime 20621 12 0) juneNoon 0 .left
        (fun _ => juneInput) (agedWorld "-9223372036854775808") := by
  have hload : configLoad (some (agedFile "-9223372036854775808")) true =
      some (agedConfig longMin) := by decide +kernel
  refine ⟨hload, fun h => ?_⟩
  have hfits : ¬AgeFits (agedConfig longMin) juneNoon := by
    rintro (h | h | h)
    · cases h
    · exact absurd h (by decide)
    · exact absurd h (by decide)
  have hfault : (run (act .left) (checkedCycle (steadyHost juneTimes) (juneTime 20621 12 0)
      juneNoon 0) (fun _ => juneInput) (agedWorld "-9223372036854775808")).value =
        .error .signedOverflow :=
    checkedCycle_fault hload (by decide +kernel) hfits
  rw [h] at hfault
  cases hfault

/-- The oldest location whose age fits. -/
theorem stale_test_fits_iff_oldest :
    configLoad (some (agedFile "-9223372035073078207")) true =
        some (agedConfig (juneNoon - longMax)) ∧
      ComparesExactly (steadyHost juneTimes) (juneTime 20621 12 0) juneNoon 0 .left
        (fun _ => juneInput) (agedWorld "-9223372035073078207") := by
  have hload : configLoad (some (agedFile "-9223372035073078207")) true =
      some (agedConfig (juneNoon - longMax)) := by decide +kernel
  have hstamped : Stamped juneInput.lookups :=
    ⟨le_refl 0, fun place h => by cases h; exact le_refl 0⟩
  have hfits : AgeFits (agedConfig (juneNoon - longMax)) juneNoon :=
    Or.inr (Or.inr (le_refl (juneNoon - longMax)))
  exact ⟨hload, (stale_test_fits_iff (w := agedWorld "-9223372035073078207")
    (e := fun _ => juneInput) (steadyHost juneTimes) (juneTime 20621 12 0) (by decide) 0 .left
    hload fun _ => hstamped).mpr (Or.inr hfits)⟩

end Cycles

end Muslimtify.LocationAge
