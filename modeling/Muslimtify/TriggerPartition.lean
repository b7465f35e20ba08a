import Muslimtify.ConfigFile
import Muslimtify.TriggerCache

/-!
# The days share out the occurrences

Day numbers and minutes of the day together count absolute minutes, and an
occurrence of a prayer has one absolute minute wherever its instant falls. What
follows counts, in the candidates of a day, the triggers of one occurrence: they
are there exactly when the source day is among the three looked at and the
trigger's own minute lies on the day.

A trigger carries no source day. It is told from those of other source days by
its minute together with its prayer time, even when the prayer time has been
rounded, since times that agree after rounding lie within a day of each other.
-/
namespace Muslimtify.TriggerPartition
open CText CDouble CivilDays Settings ConfigFile Schedule TriggerCache

section Counting
variable {α β : Type*}

theorem countP_flatMap_zero {P : β → Bool} {f : α → List β} {l : List α}
    (h : ∀ y ∈ l, (f y).countP P = 0) : (l.flatMap f).countP P = 0 := by
  induction l with
  | nil => rfl
  | cons y l ih =>
      rw [List.flatMap_cons, List.countP_append, h y (by simp), ih fun z hz => h z (by simp [hz])]

/-- Only one member of a list without repetitions contributes. -/
theorem countP_flatMap_single {P : β → Bool} {f : α → List β} {l : List α} (hl : l.Nodup)
    {x : α} (hx : x ∈ l) (h : ∀ y ∈ l, y ≠ x → (f y).countP P = 0) :
    (l.flatMap f).countP P = (f x).countP P := by
  induction l with
  | nil => cases hx
  | cons y l ih =>
      have hn := List.nodup_cons.mp hl
      rw [List.flatMap_cons, List.countP_append]
      by_cases hy : y = x
      · subst hy
        rw [countP_flatMap_zero fun z hz => h z (by simp [hz]) fun e => hn.1 (e ▸ hz),
          Nat.add_zero]
      · rw [h y (by simp) hy, Nat.zero_add]
        exact ih hn.2 ((List.mem_cons.mp hx).resolve_left (Ne.symm hy))
          fun z hz => h z (by simp [hz])

end Counting

section Views

/-- A reading of prayer times that keeps apart those a day or more apart. -/
def Tells (view : Double → Double) : Prop :=
  ∀ a b ha hb, view (.fin a ha) = view (.fin b hb) → ⌈a * 60⌉ < ⌈b * 60⌉ + 1440

theorem tells_id : Tells id := by
  intro a b ha hb h
  obtain rfl : a = b := by simpa using h
  omega

theorem tells_rounded : Tells (Double.rounded 4) := by
  intro a b ha hb h
  have hab : roundTo 4 a = roundTo 4 b := by simpa [Double.rounded] using h
  have h₁ := (roundTo_near 4 a).2
  have h₂ := (roundTo_near 4 b).1
  have hle : a * 60 ≤ b * 60 + 1 := by
    rw [hab] at h₁
    norm_num at h₁ h₂
    linarith
  have := Int.ceil_le_ceil hle
  rw [show b * 60 + 1 = b * 60 + ((1 : ℤ) : ℚ) by norm_num, Int.ceil_add_intCast] at this
  omega

end Views

theorem instantMin_eq (pt : ℚ) (δ : ℤ) : instantMin pt δ = ⌈pt * 60⌉ + 1440 * δ := by
  have : (pt + 24 * δ) * 60 = pt * 60 + ((1440 * δ : ℤ) : ℚ) := by
    push_cast
    ring
  rw [instantMin, this, Int.ceil_add_intCast]

section Offers
variable (cfg : Config)

/-- The common form of the two passes: for each `r` of a list a trigger that many
minutes ahead of the prayer. -/
def offersAhead (make : PrayerType → Double → ℤ → ℤ → CacheTrigger) (ahead : PrayerType → List ℤ)
    (source : PrayerTimes) (δ cm : ℤ) (type : PrayerType) : List CacheTrigger :=
  if !prayerIsEnabled cfg type then []
  else
    match prayerGetTime source type with
    | .fin pt h =>
        (ahead type).filterMap fun r =>
          if onDay (instantMin pt δ - r) cm then
            some (make type (.fin pt h) r (instantMin pt δ - r))
          else none
    | _ => []

def exactTrigger (type : PrayerType) (time : Double) (r minute : ℤ) : CacheTrigger where
  prayer := copyString 16 (prayerGetName type)
  adhan := copyString 512 (prayerGetConfig cfg type).adhan.text
  minute := minute
  minutesBefore := r
  prayerTime := time
  adhanEnabled := (prayerGetConfig cfg type).adhanEnabled

def reminderTrigger (type : PrayerType) (time : Double) (r minute : ℤ) : CacheTrigger where
  prayer := copyString 16 (prayerGetName type)
  adhan := .empty 512
  minute := minute
  minutesBefore := r
  prayerTime := time
  adhanEnabled := false

/-- The reminder list of a prayer. -/
def remindersOf (type : PrayerType) : List ℤ := (prayerGetConfig cfg type).reminders.items

theorem exactOffer_eq (source : PrayerTimes) (δ cm : ℤ) (type : PrayerType) :
    exactOffer cfg source δ cm type =
      offersAhead cfg (exactTrigger cfg) (fun _ => [0]) source δ cm type := by
  simp only [exactOffer, offersAhead]
  cases prayerGetTime source type <;> simp [exactTrigger, List.filterMap_cons]
  rename_i pt h
  split_ifs <;> simp

theorem reminderOffers_eq (source : PrayerTimes) (δ cm : ℤ) (type : PrayerType) :
    reminderOffers cfg source δ cm type =
      offersAhead cfg reminderTrigger (remindersOf cfg) source δ cm type := rfl

/-- The constructor of a pass names its prayer and keeps the numbers it is given. -/
structure Makes (make : PrayerType → Double → ℤ → ℤ → CacheTrigger) : Prop where
  prayer : ∀ type time r minute, (make type time r minute).prayer.text = prayerGetName type
  time : ∀ type time r minute, (make type time r minute).prayerTime = time
  ahead : ∀ type time r minute, (make type time r minute).minutesBefore = r
  minute : ∀ type time r minute, (make type time r minute).minute = minute

theorem exactTrigger_makes : Makes (exactTrigger cfg) where
  prayer type _ _ _ := copyString_of_fits (prayerGetName_nulFree type) (prayerGetName_fits type)
  time _ _ _ _ := rfl
  ahead _ _ _ _ := rfl
  minute _ _ _ _ := rfl

theorem reminderTrigger_makes : Makes reminderTrigger where
  prayer type _ _ _ := copyString_of_fits (prayerGetName_nulFree type) (prayerGetName_fits type)
  time _ _ _ _ := rfl
  ahead _ _ _ _ := rfl
  minute _ _ _ _ := rfl

theorem mem_offersAhead {make : PrayerType → Double → ℤ → ℤ → CacheTrigger}
    {ahead : PrayerType → List ℤ} {source : PrayerTimes} {δ cm : ℤ} {type : PrayerType}
    {t : CacheTrigger} :
    t ∈ offersAhead cfg make ahead source δ cm type ↔
      prayerIsEnabled cfg type = true ∧ ∃ pt h, prayerGetTime source type = .fin pt h ∧
        ∃ r ∈ ahead type, onDay (instantMin pt δ - r) cm = true ∧
          t = make type (.fin pt h) r (instantMin pt δ - r) := by
  unfold offersAhead
  cases he : prayerIsEnabled cfg type
  · simp
  · cases ht : prayerGetTime source type with
    | fin q hq =>
        simp only [Bool.not_true, Bool.false_eq_true, if_false, List.mem_filterMap,
          Option.ite_none_right_eq_some, Option.some.injEq, true_and]
        constructor
        · rintro ⟨r, hr, hon, rfl⟩
          exact ⟨q, hq, rfl, r, hr, hon, rfl⟩
        · rintro ⟨pt, h, he, r, hr, hon, rfl⟩
          cases he
          exact ⟨r, hr, hon, rfl⟩
    | inf s => simp
    | nan => simp

end Offers

/-- An occurrence of an enabled prayer: a day that has a time for it. -/
structure Occurrence (H : Host) (cfg : Config) where
  day : ℤ
  prayer : PrayerType
  hours : ℚ
  bounded : |hours| ≤ dblMax
  enabled : prayerIsEnabled cfg prayer = true
  occurs : prayerGetTime (timesOfDay H cfg day) prayer = .fin hours bounded

variable {H : Host} {cfg : Config}

namespace Occurrence

def time (o : Occurrence H cfg) : Double := .fin o.hours o.bounded

/-- The absolute minute of the occurrence, rounded up as the source does. -/
def minute (o : Occurrence H cfg) : ℤ := 1440 * o.day + ⌈o.hours * 60⌉

/-- On day `d` the trigger stands for this occurrence, `r` minutes ahead of it. -/
def isTrigger (view : Double → Double) (o : Occurrence H cfg) (r d : ℤ) (t : CacheTrigger) :
    Bool :=
  t.prayer.text = prayerGetName o.prayer && t.minutesBefore = r &&
    view t.prayerTime = view o.time && 1440 * d + t.minute = o.minute - r

theorem isTrigger_iff {view : Double → Double} {o : Occurrence H cfg} {r d : ℤ}
    {t : CacheTrigger} :
    o.isTrigger view r d t = true ↔ t.prayer.text = prayerGetName o.prayer ∧
      t.minutesBefore = r ∧ view t.prayerTime = view o.time ∧
      1440 * d + t.minute = o.minute - r := by
  simp [isTrigger, and_assoc]

end Occurrence

section Counts
variable {make : PrayerType → Double → ℤ → ℤ → CacheTrigger} {ahead : PrayerType → List ℤ}
  {view : Double → Double}

/-- A trigger that stands for an occurrence was offered by its source day, for its prayer. -/
theorem isTrigger_offered (hm : Makes make) (hv : Tells view) {o : Occurrence H cfg}
    {r d δ cm : ℤ} {type : PrayerType} {t : CacheTrigger}
    (ht : t ∈ offersAhead cfg make ahead (timesOfDay H cfg (d + δ)) δ cm type)
    (ho : o.isTrigger view r d t = true) :
    type = o.prayer ∧ d + δ = o.day ∧ onDay (o.minute - r - 1440 * d) cm = true := by
  obtain ⟨-, pt, h, hpt, r', -, hon, rfl⟩ := (mem_offersAhead cfg).mp ht
  obtain ⟨hname, hr, htime, hmin⟩ := Occurrence.isTrigger_iff.mp ho
  rw [hm.prayer] at hname
  rw [hm.ahead] at hr
  rw [hm.time] at htime
  rw [hm.minute, instantMin_eq] at hmin
  subst hr
  have htype := prayerGetName_injective hname
  have hle := hv _ _ _ _ htime
  have hge := hv _ _ _ _ htime.symm
  have hday : d + δ = o.day := by
    rw [Occurrence.minute] at hmin
    omega
  refine ⟨htype, hday, ?_⟩
  rwa [show o.minute - r' - 1440 * d = instantMin pt δ - r' by rw [instantMin_eq]; omega]

theorem offersAhead_count (hm : Makes make) (o : Occurrence H cfg) {r d δ cm : ℤ}
    (hδ : d + δ = o.day) (hon : onDay (o.minute - r - 1440 * d) cm = true) :
    (offersAhead cfg make ahead (timesOfDay H cfg (d + δ)) δ cm o.prayer).countP
      (o.isTrigger view r d) = (ahead o.prayer).count r := by
  have hinst : instantMin o.hours δ = o.minute - 1440 * d := by
    rw [instantMin_eq, Occurrence.minute]
    omega
  simp only [offersAhead, o.enabled, hδ, o.occurs, Bool.not_true, Bool.false_eq_true, if_false,
    List.countP_filterMap, List.count]
  refine List.countP_congr fun a _ => ?_
  by_cases ha : a = r
  · subst ha
    have hon' : onDay (instantMin o.hours δ - a) cm = true := by
      rw [hinst]
      convert hon using 2
      ring
    have hyes : o.isTrigger view a d (make o.prayer o.time a (instantMin o.hours δ - a)) = true :=
      Occurrence.isTrigger_iff.mpr ⟨hm.prayer _ _ _ _, hm.ahead _ _ _ _, by rw [hm.time],
        by rw [hm.minute, hinst]; ring⟩
    rw [Occurrence.time] at hyes
    simp [hon', hyes]
  · by_cases hon' : onDay (instantMin o.hours δ - a) cm = true
    · simp [hon', Occurrence.isTrigger, hm.ahead, ha]
    · simp [hon', ha]

/-- The triggers of one occurrence in one pass over the three source days. -/
theorem passOffers_count (hm : Makes make) (hv : Tells view) (o : Occurrence H cfg) (r d cm : ℤ) :
    (passOffers (offersAhead cfg make ahead) (fun δ => timesOfDay H cfg (d + δ)) cm).countP
        (o.isTrigger view r d) =
      if o.day - d ∈ dayDeltas ∧ onDay (o.minute - r - 1440 * d) cm = true then
        (ahead o.prayer).count r else 0 := by
  have hzero : ∀ δ type, ¬(type = o.prayer ∧ d + δ = o.day ∧
      onDay (o.minute - r - 1440 * d) cm = true) →
      (offersAhead cfg make ahead (timesOfDay H cfg (d + δ)) δ cm type).countP
        (o.isTrigger view r d) = 0 :=
    fun δ type h => List.countP_eq_zero.mpr fun t ht ho => h (isTrigger_offered hm hv ht ho)
  split_ifs with h
  · rw [passOffers, countP_flatMap_single (by decide) h.1, countP_flatMap_single
      prayerTypes_nodup (mem_prayerTypes o.prayer)]
    · exact offersAhead_count hm o (by omega) h.2
    · exact fun type _ hne => hzero _ _ fun hc => hne hc.1
    · exact fun δ _ hne => countP_flatMap_zero fun type _ => hzero _ _ fun hc =>
        hne (by have := hc.2.1; omega)
  · refine countP_flatMap_zero fun δ hδ => countP_flatMap_zero fun type _ => hzero _ _ fun hc => ?_
    refine h ⟨?_, hc.2.2⟩
    rwa [show o.day - d = δ by have := hc.2.1; omega]

theorem mem_passOffers (hm : Makes make) {d cm : ℤ} {t : CacheTrigger}
    (ht : t ∈ passOffers (offersAhead cfg make ahead) (fun δ => timesOfDay H cfg (d + δ)) cm) :
    ∃ o : Occurrence H cfg, ∃ r ∈ ahead o.prayer,
      onDay t.minute cm = true ∧ ∀ view, o.isTrigger view r d t = true := by
  obtain ⟨δ, -, ht⟩ := List.mem_flatMap.mp ht
  obtain ⟨type, -, ht⟩ := List.mem_flatMap.mp ht
  obtain ⟨hen, pt, h, hpt, r, hr, hon, rfl⟩ := (mem_offersAhead cfg).mp ht
  refine ⟨⟨d + δ, type, pt, h, hen, hpt⟩, r, hr, by rwa [hm.minute], fun view => ?_⟩
  refine Occurrence.isTrigger_iff.mpr ⟨hm.prayer _ _ _ _, hm.ahead _ _ _ _, by rw [hm.time]; rfl, ?_⟩
  rw [hm.minute, instantMin_eq, Occurrence.minute]
  ring

end Counts

section Candidates
variable {view : Double → Double}

theorem exactOffers_count (hv : Tells view) (o : Occurrence H cfg) (r d cm : ℤ) :
    (exactOffers cfg (fun δ => timesOfDay H cfg (d + δ)) cm).countP (o.isTrigger view r d) =
      if o.day - d ∈ dayDeltas ∧ onDay (o.minute - r - 1440 * d) cm = true then
        [0].count r else 0 := by
  have hoffer : exactOffer cfg = offersAhead cfg (exactTrigger cfg) fun _ => [0] := by
    funext source δ cm type
    exact exactOffer_eq cfg source δ cm type
  rw [exactOffers, hoffer, passOffers_count (exactTrigger_makes cfg) hv]

theorem remindersOffered_count (hv : Tells view) (o : Occurrence H cfg) (r d cm : ℤ) :
    (remindersOffered cfg (fun δ => timesOfDay H cfg (d + δ)) cm).countP (o.isTrigger view r d) =
      if o.day - d ∈ dayDeltas ∧ onDay (o.minute - r - 1440 * d) cm = true then
        (remindersOf cfg o.prayer).count r else 0 :=
  passOffers_count reminderTrigger_makes hv o r d cm

theorem dayCandidates_count (hv : Tells view) (o : Occurrence H cfg) (r d cm : ℤ) :
    (dayCandidates H cfg d cm).countP (o.isTrigger view r d) =
      if o.day - d ∈ dayDeltas ∧ onDay (o.minute - r - 1440 * d) cm = true then
        [0].count r + (remindersOf cfg o.prayer).count r else 0 := by
  rw [dayCandidates, candidates, List.countP_append, exactOffers_count hv,
    remindersOffered_count hv]
  split_ifs <;> rfl

theorem mem_exactOffers {d cm : ℤ} {t : CacheTrigger}
    (ht : t ∈ exactOffers cfg (fun δ => timesOfDay H cfg (d + δ)) cm) :
    ∃ o : Occurrence H cfg, onDay t.minute cm = true ∧ ∀ view, o.isTrigger view 0 d t = true := by
  have hoffer : exactOffer cfg = offersAhead cfg (exactTrigger cfg) fun _ => [0] := by
    funext source δ cm type
    exact exactOffer_eq cfg source δ cm type
  rw [exactOffers, hoffer] at ht
  obtain ⟨o, r, hr, h⟩ := mem_passOffers (exactTrigger_makes cfg) ht
  obtain rfl := List.mem_singleton.mp hr
  exact ⟨o, h⟩

theorem mem_remindersOffered {d cm : ℤ} {t : CacheTrigger}
    (ht : t ∈ remindersOffered cfg (fun δ => timesOfDay H cfg (d + δ)) cm) :
    ∃ o : Occurrence H cfg, ∃ r ∈ remindersOf cfg o.prayer,
      onDay t.minute cm = true ∧ ∀ view, o.isTrigger view r d t = true :=
  mem_passOffers reminderTrigger_makes ht

end Candidates

/-- No reminder list holds a zero: the loader and the setters store none. -/
def NoZeroReminder (cfg : Config) : Prop := ∀ p, (0 : ℤ) ∉ remindersOf cfg p

section Built
variable {view : Double → Double}

theorem builtTriggers_countP (P : CacheTrigger → Bool) (d cm : ℤ) :
    (builtTriggers H cfg d cm).countP P =
      (exactOffers cfg (fun δ => timesOfDay H cfg (d + δ)) cm).countP P +
        ((remindersOffered cfg (fun δ => timesOfDay H cfg (d + δ)) cm).take (maxTriggers -
          (exactOffers cfg (fun δ => timesOfDay H cfg (d + δ)) cm).length)).countP P := by
  rw [(builtTriggers_perm H cfg d cm).countP_eq, dayCandidates, candidates_take,
    List.countP_append]

/-- The exact trigger of an occurrence is on the list of its day, once. -/
theorem builtTriggers_exact (hv : Tells view) (hz : NoZeroReminder cfg) (o : Occurrence H cfg)
    (d cm : ℤ) :
    (builtTriggers H cfg d cm).countP (o.isTrigger view 0 d) =
      if o.day - d ∈ dayDeltas ∧ onDay (o.minute - 1440 * d) cm = true then 1 else 0 := by
  rw [builtTriggers_countP, exactOffers_count hv]
  have hrest : ∀ n, ((remindersOffered cfg (fun δ => timesOfDay H cfg (d + δ)) cm).take n).countP
      (o.isTrigger view 0 d) = 0 := by
    intro n
    refine List.countP_eq_zero.mpr fun t ht ho => ?_
    obtain ⟨o', r, hr, -, h⟩ := mem_remindersOffered (List.mem_of_mem_take ht)
    obtain ⟨-, hr₁, -⟩ := Occurrence.isTrigger_iff.mp (h view)
    obtain ⟨-, hr₂, -⟩ := Occurrence.isTrigger_iff.mp ho
    exact hz o'.prayer (by rwa [← hr₂, hr₁])
  rw [hrest, sub_zero]
  rfl

theorem mem_builtTriggers {d cm : ℤ} {t : CacheTrigger} (ht : t ∈ builtTriggers H cfg d cm) :
    ∃ o : Occurrence H cfg, ∃ r, (r = 0 ∨ r ∈ remindersOf cfg o.prayer) ∧
      onDay t.minute cm = true ∧ ∀ view, o.isTrigger view r d t = true := by
  have hmem := List.mem_of_mem_take ((builtTriggers_perm H cfg d cm).mem_iff.mp ht)
  rcases List.mem_append.mp hmem with h | h
  · obtain ⟨o, h⟩ := mem_exactOffers h
    exact ⟨o, 0, Or.inl rfl, h⟩
  · obtain ⟨o, r, hr, h⟩ := mem_remindersOffered h
    exact ⟨o, r, Or.inr hr, h⟩

/-- A day's list looks at the source days around it. -/
theorem builtTriggers_near (hv : Tells view) {o : Occurrence H cfg} {r d cm : ℤ} {t : CacheTrigger}
    (ht : t ∈ builtTriggers H cfg d cm) (hst : o.isTrigger view r d t = true) :
    o.day - d ∈ dayDeltas := by
  have hmem := List.mem_of_mem_take ((builtTriggers_perm H cfg d cm).mem_iff.mp ht)
  have hpos : 0 < (dayCandidates H cfg d cm).countP (o.isTrigger view r d) :=
    List.countP_pos_iff.mpr ⟨t, hmem, hst⟩
  rw [dayCandidates_count hv] at hpos
  split_ifs at hpos with hnear
  · exact hnear.1
  · omega

end Built

/-- Prayer times reach at most one day out of their own date. -/
def InWindow (H : Host) (cfg : Config) : Prop :=
  ∀ o : Occurrence H cfg, -1440 ≤ ⌈o.hours * 60⌉ ∧ ⌈o.hours * 60⌉ < 2880

/-- Seen from midnight every minute of the day is ahead. -/
theorem onDay_zero (m : ℤ) : onDay m 0 = true ↔ 0 ≤ m ∧ m < 1440 := by
  simp only [onDay, Bool.and_eq_true, decide_eq_true_eq]
  simp only [catchupMaxMin]
  omega

theorem day_iff {o : Occurrence H cfg} {r d : ℤ} (h₀ : -1440 ≤ ⌈o.hours * 60⌉ - r)
    (h₁ : ⌈o.hours * 60⌉ - r < 2880) :
    (o.day - d ∈ dayDeltas ∧ onDay (o.minute - r - 1440 * d) 0 = true) ↔
      d = (o.minute - r) / 1440 := by
  simp only [onDay_zero, Occurrence.minute, dayDeltas, List.mem_cons, List.not_mem_nil, or_false]
  omega

/-- Every occurrence of an enabled prayer is announced by an exact trigger of
one day's list, once and at its own minute, and no other exact trigger is on any
list. Each list is sorted and within its array. No settings that `config_load` or a
setter leaves have a reminder of zero minutes: they are in range. -/
theorem adhans_partition_days (H : Host) (cfg : Config) (hw : InWindow H cfg)
    (hz : NoZeroReminder cfg) :
    (∀ (o : Occurrence H cfg) (d : ℤ),
      (builtTriggers H cfg d 0).countP (o.isTrigger id 0 d) =
        if d = o.minute / 1440 then 1 else 0) ∧
    (∀ d, ∀ t ∈ builtTriggers H cfg d 0, t.minutesBefore = 0 →
      ∃ o : Occurrence H cfg, o.isTrigger id 0 d t = true) ∧
    ∀ d, (builtTriggers H cfg d 0).Pairwise (fun s t => s.minute ≤ t.minute) ∧
      (builtTriggers H cfg d 0).length ≤ maxTriggers := by
  refine ⟨fun o d => ?_, fun d t ht h0 => ?_,
    fun d => ⟨builtTriggers_sorted H cfg d 0, builtTriggers_length H cfg d 0⟩⟩
  · have hday := day_iff (o := o) (r := 0) (d := d) (by have := (hw o).1; omega)
      (by have := (hw o).2; omega)
    rw [sub_zero] at hday
    rw [builtTriggers_exact tells_id hz]
    simp only [hday]
  · obtain ⟨o, r, -, -, h⟩ := mem_builtTriggers ht
    have hr := (Occurrence.isTrigger_iff.mp (h id)).2.1
    exact ⟨o, by rw [← h0, hr]; exact h id⟩

/-- An engine that gives every date the same five times, and no zone database. -/
def steadyHost (times : PrayerTimes) : Host :=
  .insertionSorting (fun _ _ _ _ _ _ _ => times) (fun _ => false) fun _ _ => .zero

/-- Times of a June day far north: fajr before midnight and isha after the next. -/
def juneTimes : PrayerTimes :=
  ⟨.ofRat (-1 / 10), .ofRat (67 / 5), .ofRat (53 / 3), .ofRat 24, .ofRat (51 / 2)⟩

/-- Where no prayer is shifted, the engine's times are the times of the day. -/
theorem timesOfDay_steady {times : PrayerTimes} {cfg : Config}
    (hlat : configLatitudeIsValid cfg.latitude = true)
    (hlon : configLongitudeIsValid cfg.longitude = true)
    (hoff : ∀ p, (prayerGetConfig cfg p).offset = 0) (d : ℤ) :
    timesOfDay (steadyHost times) cfg d = times := by
  have h₁ := hoff .fajr
  have h₂ := hoff .dhuhr
  have h₃ := hoff .asr
  have h₄ := hoff .maghrib
  have h₅ := hoff .isha
  simp only [prayerGetConfig] at h₁ h₂ h₃ h₄ h₅
  simp [timesOfDay, prayerTimesForConfig, hlat, hlon, h₁, h₂, h₃, h₄, h₅, steadyHost,
    Host.insertionSorting, Double.addRat_zero]

theorem inWindow_june {cfg : Config} (h : ∀ d, timesOfDay (steadyHost juneTimes) cfg d = juneTimes) :
    InWindow (steadyHost juneTimes) cfg := by
  intro o
  have hpt : (prayerGetTime juneTimes o.prayer).finite? = some o.hours := by
    have := o.occurs
    rw [h] at this
    rw [this, Double.finite?]
  have hall : ∀ p, ∀ q ∈ (prayerGetTime juneTimes p).finite?,
      -1440 ≤ ⌈q * 60⌉ ∧ ⌈q * 60⌉ < 2880 := by
    intro p
    cases p <;> decide +kernel
  exact hall o.prayer o.hours hpt

theorem adhans_partition_days_june :
    (InWindow (steadyHost juneTimes) configDefault ∧ NoZeroReminder configDefault) ∧
      ∀ d, (builtTriggers (steadyHost juneTimes) configDefault d 0).Pairwise
          (fun s t => s.minute ≤ t.minute) ∧
        (builtTriggers (steadyHost juneTimes) configDefault d 0).length ≤ maxTriggers := by
  have hw : InWindow (steadyHost juneTimes) configDefault :=
    inWindow_june (timesOfDay_steady (by decide +kernel) (by decide +kernel)
      fun p => by cases p <;> rfl)
  have hz : NoZeroReminder configDefault := fun p => by cases p <;> decide
  exact ⟨⟨hw, hz⟩, (adhans_partition_days _ _ hw hz).2.2⟩

section Reminders

/-- With room for every candidate the list holds the reminders of an occurrence
as often as its source day is looked at. -/
theorem builtTriggers_reminder {d cm : ℤ} (hcap : (dayCandidates H cfg d cm).length ≤ maxTriggers)
    (o : Occurrence H cfg) {r : ℤ} (hr : r ≠ 0) :
    (builtTriggers H cfg d cm).countP (o.isTrigger id r d) =
      if o.day - d ∈ dayDeltas ∧ onDay (o.minute - r - 1440 * d) cm = true then
        (remindersOf cfg o.prayer).count r else 0 := by
  rw [(builtTriggers_perm H cfg d cm).countP_eq, List.take_of_length_le hcap,
    dayCandidates_count tells_id]
  simp [Ne.symm hr]

/-- The reminders of an occurrence are shared out like the adhans exactly when
their instant lies no further back than the day before the prayer's own date:
the lists look at no source day further ahead. -/
theorem reminders_partition_days_iff (H : Host) {file : Option CString} {opens : Bool}
    {cfg : Config} (hl : configLoad file opens = some cfg) (hw : InWindow H cfg)
    (hcap : ∀ d, (dayCandidates H cfg d 0).length ≤ maxTriggers) (o : Occurrence H cfg) {r : ℤ}
    (hr : r ∈ remindersOf cfg o.prayer) :
    (∀ d, (builtTriggers H cfg d 0).countP (o.isTrigger id r d) =
      if d = (o.minute - r) / 1440 then (remindersOf cfg o.prayer).count r else 0) ↔
    -1440 ≤ ⌈o.hours * 60⌉ - r := by
  have hrange := ((configLoad_inRange hl).prayers o.prayer).reminders r hr
  have hwin := hw o
  constructor
  · intro h
    have hcount := h ((o.minute - r) / 1440)
    rw [if_pos rfl, builtTriggers_reminder (hcap _) o (by omega)] at hcount
    have hpos : 0 < (remindersOf cfg o.prayer).count r := List.count_pos_iff.mpr hr
    split_ifs at hcount with hc
    · have hmem := hc.1
      simp only [Occurrence.minute, dayDeltas, List.mem_cons, List.not_mem_nil, or_false] at hmem
      omega
    · omega
  · intro h d
    rw [builtTriggers_reminder (hcap d) o (by omega)]
    simp only [day_iff (o := o) (r := r) (d := d) h (by omega)]

/-- Settings far north with a reminder a whole day ahead of fajr. -/
def farNorthFile : CString := ascii ("\x7b\"location\": \x7b\"latitude\": 64.15, " ++
  "\"longitude\": -21.94\x7d, \"prayers\": \x7b\"fajr\": \x7b\"reminders\": [1440]\x7d\x7d\x7d")

def farNorth : Config :=
  { configDefault with
    latitude := .ofRat 64.15
    longitude := .ofRat (-21.94)
    fajr := { prayerDefault with reminders := ⟨[1440], by decide⟩ } }

theorem configLoad_farNorth : configLoad (some farNorthFile) true = some farNorth := by
  decide +kernel

theorem timesOfDay_farNorth (d : ℤ) : timesOfDay (steadyHost juneTimes) farNorth d = juneTimes :=
  timesOfDay_steady (by decide +kernel) (by decide +kernel) (fun p => by cases p <;> rfl) d

theorem farNorth_fits (d : ℤ) :
    (dayCandidates (steadyHost juneTimes) farNorth d 0).length ≤ maxTriggers := by
  have hconst : (fun δ => timesOfDay (steadyHost juneTimes) farNorth (d + δ)) =
      fun _ => juneTimes := by
    funext δ
    exact timesOfDay_farNorth _
  rw [dayCandidates, hconst]
  decide +kernel

/-- Fajr of one day at 23:54 of the day before. -/
def farNorthFajr : Occurrence (steadyHost juneTimes) farNorth where
  day := 20621
  prayer := .fajr
  hours := -1 / 10
  bounded := by decide +kernel
  enabled := rfl
  occurs := by
    rw [timesOfDay_farNorth]
    decide +kernel

theorem reminders_partition_days_farNorth :
    configLoad (some farNorthFile) true = some farNorth ∧
      ¬∀ d, (builtTriggers (steadyHost juneTimes) farNorth d 0).countP
          (farNorthFajr.isTrigger id 1440 d) =
        if d = (farNorthFajr.minute - 1440) / 1440 then
          (remindersOf farNorth .fajr).count 1440 else 0 := by
  refine ⟨configLoad_farNorth, fun hall => ?_⟩
  have h := reminders_partition_days_iff (steadyHost juneTimes) configLoad_farNorth
    (inWindow_june timesOfDay_farNorth) farNorth_fits farNorthFajr (r := 1440) (by decide)
  exact absurd (h.mp hall) (by decide +kernel)

/-- The reminder of that fajr is due at 23:54 two days before its date, and is
on no day's list. -/
theorem reminder_two_days_back_lost :
    configLoad (some farNorthFile) true = some farNorth ∧
      InWindow (steadyHost juneTimes) farNorth ∧
      (∀ d, (dayCandidates (steadyHost juneTimes) farNorth d 0).length ≤ maxTriggers) ∧
      (1440 : ℤ) ∈ remindersOf farNorth farNorthFajr.prayer ∧
      ∀ d, (builtTriggers (steadyHost juneTimes) farNorth d 0).countP
        (farNorthFajr.isTrigger id 1440 d) = 0 := by
  refine ⟨configLoad_farNorth, inWindow_june timesOfDay_farNorth, farNorth_fits, by decide,
    fun d => ?_⟩
  rw [builtTriggers_reminder (farNorth_fits d) farNorthFajr (by decide), if_neg]
  have hmin : farNorthFajr.minute = 1440 * 20621 - 6 := by decide +kernel
  have hday : farNorthFajr.day = 20621 := rfl
  rw [hmin, hday, onDay_zero]
  simp only [dayDeltas, List.mem_cons, List.not_mem_nil, or_false]
  omega

end Reminders

end Muslimtify.TriggerPartition
