import Muslimtify.CacheFile
import Muslimtify.ConfigRoundTrip
import Muslimtify.Detection
import Muslimtify.Program

/-!
# One daemon cycle

`muslimtify_run_cycle_at` as a program. Its operations are the accesses to the
two files, the detection and the notification hooks; everything between two
operations is computed from what they answered. The files are the bytes on the
disk. A file operation may fail, and a write or a deletion that fails leaves the
file as it was, as the writers go through a temporary file.

The retry time of a failed refresh is kept by the process between cycles. It is
handed in and handed back here.
-/
namespace Muslimtify.DaemonCycle
open CText CDouble CivilDays Settings ConfigFile ConfigRoundTrip Schedule TriggerCache CacheFile
open Detection Program

section CheckCycle

inductive TriggerAction
  | keep
  | fire
  | drop
  deriving DecidableEq, Repr

def triggerCatchupAction (triggerMinute minutesBefore currentMinute : ℤ) : TriggerAction :=
  if currentMinute < triggerMinute then .keep
  else if catchupMaxMin < currentMinute - triggerMinute then .drop
  else if 0 < minutesBefore ∧ triggerMinute + minutesBefore ≤ currentMinute then .drop
  else .fire

def cacheIsValidForToday (cacheDate : CString) (_triggerCount : ℕ) (today : CString) : Bool :=
  cacheDate = today

def triggerPlaysAdhan (triggerMinute minutesBefore : ℤ) (adhanEnabled : Bool)
    (currentMinute : ℤ) : Bool :=
  minutesBefore = 0 && adhanEnabled && currentMinute ≤ triggerMinute

end CheckCycle

/-- `struct tm`: a date, as its day number, and a time of the day. The date's
text fits the cache's date field, as it does below the year 10^9. -/
structure LocalTime where
  day : ℤ
  hour : ℤ
  min : ℤ
  hour_range : 0 ≤ hour ∧ hour < 24
  min_range : 0 ≤ min ∧ min < 60
  fits : (dateText (mtCivilFromDays day)).length < 16

namespace LocalTime
variable (now : LocalTime)

def currentMin : ℤ := now.hour * 60 + now.min

def today : CString := dateText (mtCivilFromDays now.day)

/-- The minutes since the first day number's midnight. -/
def moment : ℤ := 1440 * now.day + now.currentMin

theorem currentMin_range : 0 ≤ now.currentMin ∧ now.currentMin < 1440 := by
  have h₁ := now.hour_range
  have h₂ := now.min_range
  unfold currentMin
  omega

end LocalTime

section Operations

/-- The arguments of the notification hooks. -/
inductive Call
  | adhan (prayerName timeStr adhan : CString)
  | prayer (prayerName timeStr : CString) (minutesBefore : ℤ) (urgency : CString)
      (soundPreset : Option CString)
  deriving DecidableEq, Repr

/-- The operations of a cycle and of a settings save. A notification carries the
trigger it is about, which the hook does not see. -/
inductive Op
  | loadConfig
  | saveConfig (cfg : Config)
  | loadCache
  | saveCache (cache : PrayerCache)
  | cacheExists
  | invalidateCache
  | detect (cfg : Config)
  | notifyInit
  | notify (trigger : CacheTrigger) (call : Call)
  | notifyCleanup
  deriving DecidableEq, Repr

@[reducible] def Answer : Op → Type
  | .loadConfig => Option Config
  | .saveConfig _ => Bool
  | .loadCache => Option PrayerCache
  | .saveCache _ => Bool
  | .cacheExists => Bool
  | .invalidateCache => Unit
  | .detect _ => Option Config × GpsStatus
  | .notifyInit => Bool
  | .notify _ _ => Unit
  | .notifyCleanup => Unit

/-- What the outside world decides about one operation: whether it works, and
what a lookup would answer. -/
structure Input where
  works : Bool
  lookups : Lookups

structure Disk where
  config : Option CString
  cache : Option CString
  deriving DecidableEq, Repr

def answer (i : Input) (disk : Disk) : (op : Op) → Answer op
  | .loadConfig => configLoad disk.config i.works
  | .saveConfig _ => i.works
  | .loadCache => cacheLoad disk.cache i.works
  | .saveCache _ => i.works
  | .cacheExists => disk.cache.isSome
  | .invalidateCache => ()
  | .detect cfg => locationDetect i.lookups cfg
  | .notifyInit => i.works
  | .notify _ _ => ()
  | .notifyCleanup => ()

def effect (i : Input) (disk : Disk) : Op → Disk
  | .saveConfig cfg => if i.works then { disk with config := some (configText cfg) } else disk
  | .saveCache cache => if i.works then { disk with cache := some (cacheText cache) } else disk
  | .invalidateCache => if i.works then { disk with cache := none } else disk
  | _ => disk

/-- An operation that was performed, by which process, with its input and the
files before it. -/
structure Event where
  party : Side
  op : Op
  input : Input
  disk : Disk

/-- The files, and what has happened to them so far. -/
structure World where
  disk : Disk
  trace : List Event

def act (party : Side) (op : Op) (i : Input) (w : World) : Answer op × World :=
  (answer i w.disk op, ⟨effect i w.disk op, w.trace ++ [⟨party, op, i, w.disk⟩]⟩)

end Operations

abbrev CycleProgram := Program Op Answer

section Operations

def loadConfig : CycleProgram (Option Config) := step Op.loadConfig done
def saveConfig (cfg : Config) : CycleProgram Bool := step (Op.saveConfig cfg) done
def loadCache : CycleProgram (Option PrayerCache) := step Op.loadCache done
def saveCache (cache : PrayerCache) : CycleProgram Bool := step (Op.saveCache cache) done
def cacheExists : CycleProgram Bool := step Op.cacheExists done
def invalidateCache : CycleProgram Unit := step Op.invalidateCache done
def detect (cfg : Config) : CycleProgram (Option Config × GpsStatus) := step (Op.detect cfg) done
def notifyInit : CycleProgram Bool := step Op.notifyInit done
def notify (t : CacheTrigger) (call : Call) : CycleProgram Unit := step (Op.notify t call) done
def notifyCleanup : CycleProgram Unit := step Op.notifyCleanup done

end Operations

structure MuslimtifyCycle where
  detected : Bool
  refreshed : Bool
  refreshFailed : Bool
  detection : MuslimtifyDetection
  notifications : ℤ
  deriving DecidableEq, Repr

/-- The result after `memset`. -/
def MuslimtifyCycle.zero : MuslimtifyCycle := ⟨false, false, false, .zero, 0⟩

def refreshRetrySec : ℤ := 600

section Locating

/-- `detect_into`. Without a result the settings are untouched. -/
def detectInto (cfg : Config) : CycleProgram (Option (Config × MuslimtifyDetection)) := do
  let detected ← detect cfg
  return muslimtifyDetectLocationWith cfg detected

/-- The detection of a first run. -/
def firstDetection (cfg : Config) (cycle : MuslimtifyCycle) :
    CycleProgram (MuslimtifyError × Config × MuslimtifyCycle) := do
  if configLocationNeedsDetect cfg then
    match ← detectInto cfg with
    | none => return (.detectFailed, cfg, cycle)
    | some (cfg, detection) =>
        let cycle := { cycle with detection := detection }
        if ← saveConfig cfg then return (.ok, cfg, { cycle with detected := true })
        else return (.configSave, cfg, cycle)
  else return (.ok, cfg, cycle)

/-- The periodic refresh, with the time before which it is not tried again. -/
def refreshLocation (cfg : Config) (cycle : MuslimtifyCycle) (nowEpoch retryAt : ℤ) :
    CycleProgram (Config × MuslimtifyCycle × ℤ) := do
  if locationIsStale cfg nowEpoch && retryAt ≤ nowEpoch then
    match ← detectInto cfg with
    | none => return (cfg, { cycle with refreshFailed := true }, nowEpoch + refreshRetrySec)
    | some (cfg, detection) =>
        let cycle := { cycle with detection := detection, refreshed := true }
        if ← saveConfig cfg then return (cfg, cycle, retryAt)
        else return (cfg, { cycle with refreshFailed := true }, retryAt)
  else return (cfg, cycle, retryAt)

end Locating

section Listing
variable (H : Host)

/-- The loop over the rebuilt list that removes what lies behind. Every turn
either moves on or removes, so the length of the list bounds the turns. -/
def removeBehind (currentMin : ℤ) : ℕ → ℕ → PrayerCache → PrayerCache
  | 0, _, cache => cache
  | n + 1, j, cache =>
      match cache.triggers.items[j]? with
      | none => cache
      | some t =>
          if t.minute < currentMin then removeBehind currentMin n j (cacheRemoveTrigger cache j)
          else removeBehind currentMin n (j + 1) cache

/-- The day's triggers when there is no valid cache for it. -/
def rebuild (cache : PrayerCache) (cfg : Config) (now : LocalTime) (refreshed : Bool) :
    PrayerCache :=
  let times := timesOfDay H cfg now.day
  let cache := (cacheBuildTriggers H cache cfg times now.currentMin now.today).1
  if refreshed then removeBehind now.currentMin cache.triggers.items.length 0 cache else cache

/-- The triggers the cycle works with, and whether they were to be written and
were not. After a refresh the cache on disk is not even read. -/
def todaysCache (cfg : Config) (now : LocalTime) (refreshed : Bool) :
    CycleProgram (PrayerCache × Bool) := do
  let loaded ← if refreshed then pure none else loadCache
  let valid := match loaded with
    | none => false
    | some cache => cacheIsValidForToday cache.date.text cache.triggers.items.length now.today
  -- what a failed load left behind is cleared by the build
  let cache := loaded.getD .zero
  if valid then return (cache, false)
  else
    let cache := rebuild H cache cfg now refreshed
    let saved ← saveCache cache
    return (cache, !saved)

end Listing

section Announcing
variable (cfg : Config) (currentMin : ℤ)

def announcement (t : CacheTrigger) : Call :=
  let timeStr := formatTimeCfg cfg t.prayerTime
  if triggerPlaysAdhan t.minute t.minutesBefore t.adhanEnabled currentMin then
    .adhan t.prayer.text timeStr t.adhan.text
  else
    let soundPreset :=
      if cfg.notificationSound.text = ascii "off" then none
      else if t.minutesBefore = 0 then some cfg.notificationSoundAlarm.text
      else some cfg.notificationSoundReminder.text
    .prayer t.prayer.text timeStr t.minutesBefore cfg.notificationUrgency.text soundPreset

/-- The variables of the announcing loop. -/
structure Firing where
  cache : PrayerCache
  notified : Bool
  dirty : Bool
  notifications : ℤ

def Firing.consume (f : Firing) (i : ℕ) : Firing :=
  { f with cache := cacheRemoveTrigger f.cache i, dirty := true }

/-- The loop over the triggers; `none` when notifications do not start. Every
turn either moves on or removes, so the length of the list bounds the turns. -/
def firingLoop : ℕ → ℕ → Firing → CycleProgram (Option Firing)
  | 0, _, f => return some f
  | n + 1, i, f =>
      match f.cache.triggers.items[i]? with
      | none => return some f
      | some t =>
          match triggerCatchupAction t.minute t.minutesBefore currentMin with
          | .keep => firingLoop n (i + 1) f
          | .drop => firingLoop n i (f.consume i)
          | .fire => do
              let started ← if f.notified then pure true else notifyInit
              if started then
                notify t (announcement cfg currentMin t)
                firingLoop n i
                  ({ f with notified := true, notifications := f.notifications + 1 }.consume i)
              else return none

/-- The end of the cycle: whether the list was to be written and was not. -/
def writeBack (f : Firing) (writeFailed : Bool) : CycleProgram Bool := do
  if f.notified then notifyCleanup
  if f.dirty then
    if ← cacheExists then
      let saved ← saveCache f.cache
      return !saved
    else return writeFailed
  else return writeFailed

end Announcing

/-- What a cycle returns, with the retry time it leaves. -/
structure CycleResult where
  error : MuslimtifyError
  cycle : MuslimtifyCycle
  retryAt : ℤ
  deriving DecidableEq, Repr

/-- The second half of a cycle, once the location is settled. -/
def announceDue (H : Host) (cfg : Config) (cycle : MuslimtifyCycle) (now : LocalTime)
    (retryAt : ℤ) : CycleProgram CycleResult := do
  let (cache, writeFailed) ← todaysCache H cfg now cycle.refreshed
  match ← firingLoop cfg now.currentMin cache.triggers.items.length 0
      ⟨cache, false, false, cycle.notifications⟩ with
  | none => return ⟨.notifyInit, cycle, retryAt⟩
  | some f =>
      let writeFailed ← writeBack f writeFailed
      return ⟨if writeFailed then .cacheSave else .ok,
        { cycle with notifications := f.notifications }, retryAt⟩

def muslimtifyRunCycleAt (H : Host) (now : LocalTime) (nowEpoch retryAt : ℤ) :
    CycleProgram CycleResult := do
  match ← loadConfig with
  | none => return ⟨.configLoad, .zero, retryAt⟩
  | some cfg =>
      let (err, cfg, cycle) ← firstDetection cfg .zero
      if err = .ok then
        let (cfg, cycle, retryAt) ← refreshLocation cfg cycle nowEpoch retryAt
        announceDue H cfg cycle now retryAt
      else return ⟨err, cycle, retryAt⟩

end Muslimtify.DaemonCycle
