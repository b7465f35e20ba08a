import Muslimtify.DaemonRuns
import Muslimtify.PublicTimes

/-!
# The clock of the host

`muslimtify_run_cycle` runs a cycle at the current epoch and on the host's local
time. The trigger minutes are those of the configured zone's clock, at the
offset the zone has at noon of the prayer's date, and the cycle compares them
with the host's. The public interface subtracts the zone's offset instead. An
announcement is in time by both only as far as the two offsets agree.
-/
namespace Muslimtify.HostClock
open CText CDouble CivilDays Settings ConfigFile Schedule TriggerCache TriggerPartition Detection
open Program DaemonCycle CycleRun DaemonRuns PublicTimes

section Localtime

/-- The date and the time of the day of a clock that is `host epoch` minutes ahead. -/
def platformLocaltime (host : ℤ → ℤ) (epoch : ℤ)
    (fits : (dateText (mtCivilFromDays ((epoch / 60 + host epoch) / 1440))).length < 16) :
    LocalTime where
  day := (epoch / 60 + host epoch) / 1440
  hour := (epoch / 60 + host epoch) % 1440 / 60
  min := (epoch / 60 + host epoch) % 60
  hour_range := by omega
  min_range := by omega
  fits := fits

theorem platformLocaltime_moment (host : ℤ → ℤ) (epoch : ℤ)
    (fits : (dateText (mtCivilFromDays ((epoch / 60 + host epoch) / 1440))).length < 16) :
    (platformLocaltime host epoch fits).moment = epoch / 60 + host epoch := by
  simp only [LocalTime.moment, LocalTime.currentMin, platformLocaltime]
  omega

/-- The cycle `muslimtify_run_cycle` runs. -/
def muslimtifyRunCycle (host : ℤ → ℤ) (epoch : ℤ)
    (fits : (dateText (mtCivilFromDays ((epoch / 60 + host epoch) / 1440))).length < 16)
    (inputs : ℕ → Input) : CycleJob :=
  ⟨platformLocaltime host epoch fits, epoch, inputs⟩

/-- The cycles of the run are on the host's clock. -/
def OnClock (host : ℤ → ℤ) : Job → Prop
  | .cycle c => ∃ epoch fits inputs, c = muslimtifyRunCycle host epoch fits inputs
  | .save _ _ => True

end Localtime

section Announced
variable {H : Host} {cfg : Config} {host : ℤ → ℤ} {d : Daemon} {jobs : List Job} {r : Report}

/-- Every report is on the host's clock and every announcement in its window of it. -/
theorem past_onClock (hpast : d.past = []) (hjobs : ∀ j ∈ jobs, OnClock host j) :
    ∀ r ∈ (runJobs H d jobs).past, r.now.moment = r.nowEpoch / 60 + host r.nowEpoch ∧
      ∀ x ∈ notices r.trace, OnTime r.now.currentMin x.1 x.2 := by
  induction jobs using List.reverseRecOn with
  | nil => simp [runJobs, hpast]
  | append_singleton jobs j ih =>
      have hearlier := ih fun i hi => hjobs i (List.mem_append_left _ hi)
      have hj := hjobs j (by simp)
      simp only [runJobs, List.foldl_append, List.foldl_cons, List.foldl_nil]
      cases j with
      | save cfg inputs => exact hearlier
      | cycle c =>
          intro r hr
          rcases List.mem_append.mp hr with hr | hr
          · exact hearlier r hr
          · obtain rfl := List.mem_singleton.mp hr
            obtain ⟨epoch, fits, inputs, rfl⟩ := hj
            exact ⟨platformLocaltime_moment host epoch fits, cycle_onTime H _ _⟩

/-- How many minutes the announcement is late by the host's clock, and how far the
zone's clock was ahead of the host's. -/
def lateness (host : ℤ → ℤ) (zone : ℤ) (r : Report) (t : CacheTrigger) (o : Occurrence H cfg) :
    ℤ :=
  r.now.currentMin - t.minute + (zone - host r.nowEpoch) + 1440 * daysMissed ⌈o.hours * 60⌉

/-- The instant reported for an occurrence. -/
theorem muslimtifyDay_instant {o : Occurrence H cfg} {zone : ℤ}
    (hzone : (effectiveTzOffset H cfg (mtCivilFromDays o.day).year (mtCivilFromDays o.day).month
      (mtCivilFromDays o.day).day).finite? = some (zone / 60 : ℚ))
    {day : MuslimtifyDay} (hday : muslimtifyDay H cfg (mtCivilFromDays o.day) = .ok day) :
    (day.prayers o.prayer).time.instant =
      60 * (o.minute - 1440 * daysMissed ⌈o.hours * 60⌉ - zone) := by
  unfold muslimtifyDay at hday
  split_ifs at hday
  obtain rfl := Except.ok.inj hday
  have hhours : prayerGetTime (prayerTimesForConfig H cfg (mtCivilFromDays o.day).year
      (mtCivilFromDays o.day).month (mtCivilFromDays o.day).day) o.prayer =
        .fin o.hours o.bounded := o.occurs
  dsimp only
  rw [hhours, mtDaysFromCivil_mtCivilFromDays, timeFromHours_instant _ _ _ zone _ hzone]
  rfl

/-- An announcement of a prayer is in the sixteen minutes that follow the instant reported
for it exactly when its delay and the lead of the zone's clock come to 0 to 15 minutes. It
is when the two clocks agree. -/
theorem announced_at_instant_iff (hpast : d.past = []) (hjobs : ∀ j ∈ jobs, OnClock host j)
    (hr : r ∈ (runJobs H d jobs).past) {x : CacheTrigger × Call} (hx : x ∈ notices r.trace)
    {o : Occurrence H cfg} (ho : stands o 0 (r.now.day, x.1) = true) {zone : ℤ}
    (hzone : (effectiveTzOffset H cfg (mtCivilFromDays o.day).year (mtCivilFromDays o.day).month
      (mtCivilFromDays o.day).day).finite? = some (zone / 60 : ℚ))
    {day : MuslimtifyDay} (hday : muslimtifyDay H cfg (mtCivilFromDays o.day) = .ok day) :
    (((day.prayers o.prayer).time.instant ≤ r.nowEpoch ∧
        r.nowEpoch < (day.prayers o.prayer).time.instant + (catchupMaxMin + 1) * 60) ↔
      0 ≤ lateness host zone r x.1 o ∧ lateness host zone r x.1 o ≤ catchupMaxMin) ∧
    (zone = host r.nowEpoch → -1440 ≤ ⌈o.hours * 60⌉ ∧ ⌈o.hours * 60⌉ < 2880 →
      (day.prayers o.prayer).time.instant ≤ r.nowEpoch ∧
        r.nowEpoch < (day.prayers o.prayer).time.instant + (catchupMaxMin + 1) * 60) := by
  obtain ⟨hmoment, htime⟩ := past_onClock hpast hjobs r hr
  have hminute : 1440 * r.now.day + x.1.minute = o.minute - 0 :=
    (Occurrence.isTrigger_iff.mp ho).2.2.2
  have hwindow := (htime x hx).window
  rw [muslimtifyDay_instant hzone hday]
  simp only [LocalTime.moment] at hmoment
  simp only [lateness, catchupMaxMin] at hwindow ⊢
  refine ⟨by omega, fun hagree hnear => ?_⟩
  rw [daysMissed_eq_zero hnear]
  omega

/-- The times of June far north in a zone so many minutes ahead of UTC. -/
def zonedHost (zone : ℤ) : Host :=
  .insertionSorting (fun _ _ _ _ _ _ _ => juneTimes) (fun _ => true) fun _ _ => .ofRat (zone / 60)

/-- The place far north, set by hand. -/
def manualFile : CString :=
  ascii "\x7b\"location\": \x7b\"latitude\": 64.15, \"longitude\": -21.94, \"auto_detect\": false\x7d\x7d"

def manualConfig : Config :=
  { configDefault with latitude := .ofRat 64.15, longitude := .ofRat (-21.94), autoDetect := false }

def manualStart : Daemon := ⟨⟨some manualFile, none⟩, 0, 0, []⟩

theorem configLoad_manual : configLoad manualStart.disk.config true = some manualConfig := by
  decide +kernel

theorem timesOfDay_manual (zone d : ℤ) :
    timesOfDay (zonedHost zone) manualConfig d = juneTimes := by
  have hlat : configLatitudeIsValid manualConfig.latitude = true := by decide +kernel
  have hlon : configLongitudeIsValid manualConfig.longitude = true := by decide +kernel
  simp only [timesOfDay, prayerTimesForConfig, hlat, hlon, Bool.not_true, Bool.or_self,
    Bool.false_eq_true, if_false]
  simp [zonedHost, Host.insertionSorting, manualConfig, configDefault, prayerDefault,
    Double.addRat_zero]

theorem manualConfig_fajr : prayerIsEnabled manualConfig .fajr = true := rfl

theorem manualConfig_fajr_time (zone : ℤ) :
    prayerGetTime (timesOfDay (zonedHost zone) manualConfig 20622) .fajr =
      .fin (-1 / 10) fajr_bounded := by
  rw [timesOfDay_manual]
  decide +kernel

/-- Fajr of one day, at 23:54 of the evening before. -/
def manualFajr (zone : ℤ) : Occurrence (zonedHost zone) manualConfig where
  day := 20622
  prayer := .fajr
  hours := -1 / 10
  bounded := fajr_bounded
  enabled := manualConfig_fajr
  occurs := manualConfig_fajr_time zone

/-- One cycle at 23:54 UTC on a host that is on UTC. -/
def eveningRun (zone : ℤ) : Daemon :=
  runJobs (zonedHost zone) manualStart
    [.cycle (muslimtifyRunCycle (fun _ => 0) (60 * (1440 * 20621 + 1434)) (by decide +kernel)
      fun _ => juneInput)]

theorem muslimtifyDay_manual (zone : ℤ) :
    ∃ day, muslimtifyDay (zonedHost zone) manualConfig (mtCivilFromDays 20622) = .ok day := by
  have hdate : dateIsValid (mtCivilFromDays 20622) = true := by decide +kernel
  have hset : muslimtifyHasLocation manualConfig = true := by decide +kernel
  simp [muslimtifyDay, hdate, hset]

/-- Where the zone is the host's the announcement is in time. -/
theorem announced_at_instant_utc :
    configLoad manualStart.disk.config true = some manualConfig ∧
      ∃ r ∈ (eveningRun 0).past, ∃ x ∈ notices r.trace,
      stands (manualFajr 0) 0 (r.now.day, x.1) = true ∧
        ∃ day, muslimtifyDay (zonedHost 0) manualConfig (mtCivilFromDays 20622) = .ok day ∧
          (day.prayers .fajr).time.instant ≤ r.nowEpoch ∧
            r.nowEpoch < (day.prayers .fajr).time.instant + (catchupMaxMin + 1) * 60 := by
  have hsaid : ((eveningRun 0).past.any fun r => (notices r.trace).any fun x =>
      stands (manualFajr 0) 0 (r.now.day, x.1)) = true := by decide +kernel
  obtain ⟨r, hr, hx⟩ := List.any_eq_true.mp hsaid
  obtain ⟨x, hx, hstands⟩ := List.any_eq_true.mp hx
  obtain ⟨day, hday⟩ := muslimtifyDay_manual 0
  refine ⟨configLoad_manual, r, hr, x, hx, hstands, day, hday, ?_⟩
  have hclock : ∀ j ∈ [Job.cycle (muslimtifyRunCycle (fun _ => 0) (60 * (1440 * 20621 + 1434))
      (by decide +kernel) fun _ => juneInput)], OnClock (fun _ => 0) j := by
    intro j hj
    rw [List.mem_singleton.mp hj]
    exact ⟨_, _, _, rfl⟩
  have hzone : (effectiveTzOffset (zonedHost 0) manualConfig (mtCivilFromDays 20622).year
      (mtCivilFromDays 20622).month (mtCivilFromDays 20622).day).finite? =
        some ((0 : ℤ) / 60 : ℚ) := by
    decide +kernel
  exact (announced_at_instant_iff rfl hclock hr hx (o := manualFajr 0) hstands hzone hday).2 rfl
    (by decide +kernel)

/-- In a zone nine hours ahead of the host fajr is announced nine hours after its instant. -/
theorem announced_nine_hours_late :
    configLoad manualStart.disk.config true = some manualConfig ∧
      ∃ r ∈ (eveningRun 540).past, ∃ x ∈ notices r.trace,
      stands (manualFajr 540) 0 (r.now.day, x.1) = true ∧
        ∃ day, muslimtifyDay (zonedHost 540) manualConfig (mtCivilFromDays 20622) = .ok day ∧
          ¬((day.prayers .fajr).time.instant ≤ r.nowEpoch ∧
            r.nowEpoch < (day.prayers .fajr).time.instant + (catchupMaxMin + 1) * 60) := by
  have hsaid : ((eveningRun 540).past.any fun r => r.nowEpoch = 60 * (1440 * 20621 + 1434) &&
      (notices r.trace).any fun x => stands (manualFajr 540) 0 (r.now.day, x.1)) = true := by
    decide +kernel
  obtain ⟨r, hr, hx⟩ := List.any_eq_true.mp hsaid
  obtain ⟨hepoch, hx⟩ := Bool.and_eq_true_iff.mp hx
  obtain ⟨x, hx, hstands⟩ := List.any_eq_true.mp hx
  obtain ⟨day, hday⟩ := muslimtifyDay_manual 540
  have hzone : (effectiveTzOffset (zonedHost 540) manualConfig (mtCivilFromDays 20622).year
      (mtCivilFromDays 20622).month (mtCivilFromDays 20622).day).finite? =
        some ((540 : ℤ) / 60 : ℚ) := by
    decide +kernel
  have hinstant := muslimtifyDay_instant (o := manualFajr 540) hzone hday
  have hminute : (manualFajr 540).minute - 1440 * daysMissed ⌈(manualFajr 540).hours * 60⌉ - 540 =
      1440 * 20621 + 894 := by
    decide +kernel
  refine ⟨configLoad_manual, r, hr, x, hx, hstands, day, hday, ?_⟩
  have hfajr : (day.prayers .fajr).time.instant = 60 * (1440 * 20621 + 894) := by
    rw [← hminute, ← hinstant]
    rfl
  rw [hfajr, of_decide_eq_true hepoch, catchupMaxMin]
  omega

end Announced

end Muslimtify.HostClock
