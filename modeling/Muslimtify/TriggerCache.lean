import Muslimtify.Schedule
import Mathlib.Data.List.Flatten

/-!
# The trigger list of a day

`cache_build_triggers` assembles a day's triggers from three source days, first
every exact prayer time, then every reminder, and sorts them by minute. A
trigger belongs to the day its instant falls on, so a prayer time outside its
own date is found by the neighbouring day.

The loops are written as the lists they offer, in the order the source offers
them, pushed into the fixed array of the cache.
-/
namespace Muslimtify.TriggerCache
open CText CDouble CivilDays Settings Schedule

def maxTriggers : ℕ := 64

/-- `CATCHUP_MAX_MIN` -/
def catchupMaxMin : ℤ := 15

structure CacheTrigger where
  prayer : CBuffer 16
  adhan : CBuffer 512
  minute : ℤ
  minutesBefore : ℤ
  prayerTime : Double
  adhanEnabled : Bool
  deriving DecidableEq, Repr

structure PrayerCache where
  date : CBuffer 16
  triggers : FixedArray CacheTrigger maxTriggers
  deriving DecidableEq, Repr

/-- The cache `{0}`. -/
def PrayerCache.zero : PrayerCache := ⟨.empty 16, .empty⟩

section Offers
variable (cfg : Config)

/-- `(int)ceil((pt + 24.0 * day_delta) * 60.0)` -/
def instantMin (pt : ℚ) (dayDelta : ℤ) : ℤ := ⌈(pt + 24 * dayDelta) * 60⌉

/-- The minute denotes an instant of the day, not too far behind. -/
def onDay (minute currentMinute : ℤ) : Bool :=
  0 ≤ minute && minute < 1440 && currentMinute - catchupMaxMin ≤ minute

/-- The exact trigger a prayer of one source day offers. -/
def exactOffer (source : PrayerTimes) (dayDelta currentMinute : ℤ) (type : PrayerType) :
    List CacheTrigger :=
  if !prayerIsEnabled cfg type then []
  else
    match prayerGetTime source type with
    | .fin pt h =>
        let minute := instantMin pt dayDelta
        if onDay minute currentMinute then
          [{ prayer := copyString 16 (prayerGetName type)
             adhan := copyString 512 (prayerGetConfig cfg type).adhan.text
             minute := minute
             minutesBefore := 0
             prayerTime := .fin pt h
             adhanEnabled := (prayerGetConfig cfg type).adhanEnabled }]
        else []
    | _ => []

/-- The reminders a prayer of one source day offers. The fields of the adhan
stay as `memset` left them. -/
def reminderOffers (source : PrayerTimes) (dayDelta currentMinute : ℤ) (type : PrayerType) :
    List CacheTrigger :=
  if !prayerIsEnabled cfg type then []
  else
    match prayerGetTime source type with
    | .fin pt h =>
        (prayerGetConfig cfg type).reminders.items.filterMap fun r =>
          let minute := instantMin pt dayDelta - r
          if onDay minute currentMinute then
            some { prayer := copyString 16 (prayerGetName type)
                   adhan := .empty 512
                   minute := minute
                   minutesBefore := r
                   prayerTime := .fin pt h
                   adhanEnabled := false }
          else none
    | _ => []

/-- `for (int day_delta = -1; day_delta <= 1; day_delta++)` -/
def dayDeltas : List ℤ := [-1, 0, 1]

/-- What one pass over the three source days offers, in order. -/
def passOffers (offers : PrayerTimes → ℤ → ℤ → PrayerType → List CacheTrigger)
    (source : ℤ → PrayerTimes) (currentMinute : ℤ) : List CacheTrigger :=
  dayDeltas.flatMap fun δ => prayerTypes.flatMap (offers (source δ) δ currentMinute)

/-- The exact triggers of the first pass. -/
def exactOffers (source : ℤ → PrayerTimes) (currentMinute : ℤ) : List CacheTrigger :=
  passOffers (exactOffer cfg) source currentMinute

/-- The reminders of the second pass. -/
def remindersOffered (source : ℤ → PrayerTimes) (currentMinute : ℤ) : List CacheTrigger :=
  passOffers (reminderOffers cfg) source currentMinute

/-- Every candidate trigger of a day, in the order they are offered. -/
def candidates (source : ℤ → PrayerTimes) (currentMinute : ℤ) : List CacheTrigger :=
  exactOffers cfg source currentMinute ++ remindersOffered cfg source currentMinute

end Offers

def compareTriggers (a b : CacheTrigger) : ℤ := a.minute - b.minute

theorem compareTriggers_ordersBy : OrdersBy compareTriggers := ⟨CacheTrigger.minute, fun _ _ => rfl⟩

variable (H : Host)

/-- The times of the source day `day_delta` days away, those of the day itself
as the caller gives them. -/
def sourceTimes (cfg : Config) (times : PrayerTimes) (dayNum dayDelta : ℤ) : PrayerTimes :=
  if dayDelta = 0 then times else timesOfDay H cfg (dayNum + dayDelta)

def sortTriggers (triggers : FixedArray CacheTrigger maxTriggers) :
    FixedArray CacheTrigger maxTriggers :=
  if 1 < triggers.items.length then
    triggers.rearrange (H.qsort compareTriggers triggers.items)
      (H.qsort_perm _ _ compareTriggers_ordersBy)
  else triggers

/-- The cache afterwards and the number of its triggers. A date that is none
leaves the cache as it was. -/
def cacheBuildTriggers (cache : PrayerCache) (cfg : Config) (times : PrayerTimes)
    (currentMinute : ℤ) (dateStr : CString) : PrayerCache × ℕ :=
  match scanDate dateStr with
  | none => (cache, 0)
  | some date =>
      let dayNum := mtDaysFromCivil date.year date.month date.day
      let offered := candidates cfg (sourceTimes H cfg times dayNum) currentMinute
      let triggers := sortTriggers H (FixedArray.empty.pushAll offered)
      (⟨copyString 16 dateStr, triggers⟩, triggers.items.length)

def cacheRemoveTrigger (cache : PrayerCache) (index : ℕ) : PrayerCache :=
  { cache with triggers := cache.triggers.remove index }

section Build

theorem sortTriggers_perm (a : FixedArray CacheTrigger maxTriggers) :
    (sortTriggers H a).items.Perm a.items := by
  unfold sortTriggers
  split_ifs with h
  · exact H.qsort_perm _ _ compareTriggers_ordersBy
  · exact List.Perm.refl _

theorem sortTriggers_sorted (a : FixedArray CacheTrigger maxTriggers) :
    (sortTriggers H a).items.Pairwise fun s t => s.minute ≤ t.minute := by
  unfold sortTriggers
  split_ifs with h
  · exact (H.qsort_sorted _ a.items compareTriggers_ordersBy).imp fun hst => by
      simpa [compareTriggers] using hst
  · match ha : a.items with
    | [] => simp
    | [t] => simp
    | _ :: _ :: _ => simp [ha] at h

/-- The list built for a day, from its own times and those of its neighbours. -/
def builtTriggers (cfg : Config) (day currentMinute : ℤ) : List CacheTrigger :=
  (cacheBuildTriggers H .zero cfg (timesOfDay H cfg day) currentMinute
    (dateText (mtCivilFromDays day))).1.triggers.items

/-- The candidates of a day. -/
def dayCandidates (cfg : Config) (day currentMinute : ℤ) : List CacheTrigger :=
  candidates cfg (fun δ => timesOfDay H cfg (day + δ)) currentMinute

theorem sourceTimes_timesOfDay (cfg : Config) (day : ℤ) :
    sourceTimes H cfg (timesOfDay H cfg day) day = fun δ => timesOfDay H cfg (day + δ) := by
  funext δ
  unfold sourceTimes
  split_ifs with h
  · rw [h, add_zero]
  · rfl

/-- What the build of a day is, whatever the cache held before. -/
theorem cacheBuildTriggers_day (cache : PrayerCache) (cfg : Config) (day currentMinute : ℤ) :
    (cacheBuildTriggers H cache cfg (timesOfDay H cfg day) currentMinute
        (dateText (mtCivilFromDays day))).1 =
      ⟨copyString 16 (dateText (mtCivilFromDays day)),
        sortTriggers H (FixedArray.empty.pushAll (dayCandidates H cfg day currentMinute))⟩ := by
  simp only [cacheBuildTriggers, scanDate_dateText, mtDaysFromCivil_mtCivilFromDays,
    sourceTimes_timesOfDay, dayCandidates]

/-- The list built for a date has the first candidates there is room for. -/
theorem cacheBuildTriggers_perm (cache : PrayerCache) (cfg : Config) (times : PrayerTimes)
    (day currentMinute : ℤ) :
    (cacheBuildTriggers H cache cfg times currentMinute
        (dateText (mtCivilFromDays day))).1.triggers.items.Perm
      ((candidates cfg (sourceTimes H cfg times day) currentMinute).take maxTriggers) := by
  simp only [cacheBuildTriggers, scanDate_dateText, mtDaysFromCivil_mtCivilFromDays]
  exact (sortTriggers_perm H _).trans (by rw [FixedArray.pushAll_empty])

/-- A list depends on the settings of the prayers and on their times only. -/
theorem builtTriggers_congr {cfg cfg' : Config}
    (hp : ∀ p, prayerGetConfig cfg p = prayerGetConfig cfg' p)
    (ht : ∀ d, timesOfDay H cfg d = timesOfDay H cfg' d) (day currentMinute : ℤ) :
    builtTriggers H cfg day currentMinute = builtTriggers H cfg' day currentMinute := by
  have hexact : exactOffer cfg = exactOffer cfg' := by
    funext source δ cm type
    unfold exactOffer prayerIsEnabled
    rw [hp]
  have hreminders : reminderOffers cfg = reminderOffers cfg' := by
    funext source δ cm type
    unfold reminderOffers prayerIsEnabled
    rw [hp]
  rw [builtTriggers, builtTriggers, cacheBuildTriggers_day, cacheBuildTriggers_day]
  simp only [dayCandidates, candidates, exactOffers, remindersOffered, hexact, hreminders, ht]

theorem builtTriggers_perm (cfg : Config) (day currentMinute : ℤ) :
    (builtTriggers H cfg day currentMinute).Perm
      ((dayCandidates H cfg day currentMinute).take maxTriggers) := by
  have := cacheBuildTriggers_perm H .zero cfg (timesOfDay H cfg day) day currentMinute
  rwa [sourceTimes_timesOfDay] at this

theorem builtTriggers_sorted (cfg : Config) (day currentMinute : ℤ) :
    (builtTriggers H cfg day currentMinute).Pairwise fun s t => s.minute ≤ t.minute := by
  rw [builtTriggers, cacheBuildTriggers_day]
  exact sortTriggers_sorted H _

theorem builtTriggers_length (cfg : Config) (day currentMinute : ℤ) :
    (builtTriggers H cfg day currentMinute).length ≤ maxTriggers :=
  FixedArray.fits _

end Build

section Capacity
variable (cfg : Config)

theorem exactOffer_length (source : PrayerTimes) (δ cm : ℤ) (type : PrayerType) :
    (exactOffer cfg source δ cm type).length ≤ 1 := by
  unfold exactOffer
  split_ifs
  · simp
  · split
    · dsimp only
      split_ifs <;> simp
    · simp

private theorem length_flatMap_le {α β : Type*} {l : List α} {f : α → List β} {k : ℕ}
    (h : ∀ x, (f x).length ≤ k) : (l.flatMap f).length ≤ l.length * k := by
  induction l with
  | nil => simp
  | cons x l ih =>
      have := h x
      simp only [List.flatMap_cons, List.length_append, List.length_cons, Nat.succ_mul]
      omega

/-- Three days of five prayers: the exact triggers always have room. -/
theorem exactOffers_length (source : ℤ → PrayerTimes) (cm : ℤ) :
    (exactOffers cfg source cm).length ≤ 15 :=
  length_flatMap_le (l := dayDeltas) (k := 5) fun δ =>
    length_flatMap_le (l := prayerTypes) (k := 1) fun type =>
      exactOffer_length cfg (source δ) δ cm type

/-- The first pass is kept whole, only reminders can be left out. -/
theorem candidates_take (source : ℤ → PrayerTimes) (cm : ℤ) :
    (candidates cfg source cm).take maxTriggers =
      exactOffers cfg source cm ++ (remindersOffered cfg source cm).take
        (maxTriggers - (exactOffers cfg source cm).length) := by
  have := exactOffers_length cfg source cm
  rw [candidates, List.take_append, List.take_of_length_le]
  exact this.trans (by decide)

end Capacity

end Muslimtify.TriggerCache
