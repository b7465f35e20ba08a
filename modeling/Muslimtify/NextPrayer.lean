import Muslimtify.PublicTimes
import Muslimtify.TriggerPartition

/-!
# The next prayer

`prayer_next_from_days` goes through the prayers of yesterday, today and tomorrow
and keeps the one with the fewest minutes to go. It counts on today's clock and
takes off by how much the clock of the source day is ahead of it, which leaves
minutes as they pass.

Every prayer of the three days that is enabled and has a time is an offer, so
the result is the least of the offers that are not behind. On a day whose clock
agrees with its neighbours' the least offer of the same day is the first exact
trigger ahead on the list the daemon works with.
-/
namespace Muslimtify.NextPrayer
open CText CDouble CivilDays Settings Schedule TriggerCache Detection TriggerPartition
  PublicTimes

/-- The fields of `struct tm` that are read: a date and a time of the day. -/
structure Tm where
  date : CivilDate
  hour : ℤ
  min : ℤ
  deriving DecidableEq, Repr

def Tm.nowMin (now : Tm) : ℤ := now.hour * 60 + now.min

/-- The upcoming prayer; `none` is `PRAYER_NONE`. -/
structure Next where
  type : Option PrayerType
  minutesUntil : ℤ
  dayDelta : ℤ
  time : Double
  deriving DecidableEq, Repr

/-- The result without a prayer. -/
def Next.nothing : Next := ⟨none, 0, 0, .zero⟩

section Checker
variable (cfg : Config) (nowMin : ℤ) (days : ℤ → PrayerTimes) (offsets : ℤ → Double)

/-- `lround((offsets[delta + 1] - offsets[1]) * 60.0)`. Both are finite. -/
def shift (dayDelta : ℤ) : ℤ :=
  match offsets dayDelta, offsets 0 with
  | .fin a _, .fin b _ => llround ((a - b) * 60)
  | _, _ => 0

def untilMin (pt : ℚ) (dayDelta : ℤ) : ℤ := instantMin pt dayDelta - nowMin - shift offsets dayDelta

/-- One turn of the inner loop. -/
def consider (dayDelta : ℤ) (best : Next) (type : PrayerType) : Next :=
  if !prayerIsEnabled cfg type then best
  else
    match prayerGetTime (days dayDelta) type with
    | .fin pt h =>
        let until_ := untilMin nowMin offsets pt dayDelta
        if until_ < 0 ∨ best.type.isSome = true ∧ best.minutesUntil ≤ until_ then best
        else ⟨some type, until_, dayDelta, .fin pt h⟩
    | _ => best

/-- The days are indexed by how far they are from today. -/
def prayerNextFromDays : Next :=
  dayDeltas.foldl (fun best δ => prayerTypes.foldl (consider cfg nowMin days offsets δ) best)
    .nothing

end Checker

variable (H : Host)

def tzOffsetOfDay (cfg : Config) (day : ℤ) : Double :=
  effectiveTzOffset H cfg (mtCivilFromDays day).year (mtCivilFromDays day).month
    (mtCivilFromDays day).day

def Tm.serial (now : Tm) : ℤ := mtDaysFromCivil now.date.year now.date.month now.date.day

def prayerGetNext (cfg : Config) (now : Tm) (today : PrayerTimes) : Next :=
  prayerNextFromDays cfg now.nowMin (sourceTimes H cfg today now.serial)
    fun δ => tzOffsetOfDay H cfg (now.serial + δ)

structure MuslimtifyNext where
  prayer : Option PrayerType
  time : MuslimtifyTime
  minutesUntil : ℤ
  deriving DecidableEq, Repr

def muslimtifyNextAt (cfg : Config) (now : Tm) : Except MuslimtifyError MuslimtifyNext :=
  if !muslimtifyHasLocation cfg then .error .noLocation
  else
    let today := prayerTimesForConfig H cfg now.date.year now.date.month now.date.day
    let next := prayerGetNext H cfg now today
    if next.type.isNone then .ok ⟨none, .zero, 0⟩
    else
      let serial := now.serial + next.dayDelta
      .ok ⟨next.type, timeFromHours next.time serial (tzOffsetOfDay H cfg serial),
        next.minutesUntil⟩

section Offers
variable {cfg : Config} {nowMin : ℤ} {days : ℤ → PrayerTimes} {offsets : ℤ → Double}

/-- An enabled prayer that a source day has a time for. -/
structure Offer (cfg : Config) (days : ℤ → PrayerTimes) where
  dayDelta : ℤ
  type : PrayerType
  hours : ℚ
  bounded : |hours| ≤ dblMax
  near : dayDelta ∈ dayDeltas
  enabled : prayerIsEnabled cfg type = true
  occurs : prayerGetTime (days dayDelta) type = .fin hours bounded

namespace Offer

/-- The minute of today's clock, before any correction for a change of offset. -/
def minute (o : Offer cfg days) : ℤ := instantMin o.hours o.dayDelta

def until_ (o : Offer cfg days) (nowMin : ℤ) (offsets : ℤ → Double) : ℤ :=
  untilMin nowMin offsets o.hours o.dayDelta

/-- The result that stands for the offer. -/
def next (o : Offer cfg days) (nowMin : ℤ) (offsets : ℤ → Double) : Next :=
  ⟨some o.type, o.until_ nowMin offsets, o.dayDelta, .fin o.hours o.bounded⟩

end Offer

/-- The best of the offers seen: none of those that are not behind is earlier. -/
def Best (nowMin : ℤ) (offsets : ℤ → Double) (seen : Offer cfg days → Prop) (best : Next) : Prop :=
  (best = .nothing ∧ ∀ o, seen o → o.until_ nowMin offsets < 0) ∨
    ∃ b : Offer cfg days, best = b.next nowMin offsets ∧ 0 ≤ b.until_ nowMin offsets ∧
      ∀ o, seen o → 0 ≤ o.until_ nowMin offsets → b.until_ nowMin offsets ≤ o.until_ nowMin offsets

theorem Best.mono {seen seen' : Offer cfg days → Prop} {best : Next}
    (h : Best nowMin offsets seen best) (hs : ∀ o, seen' o → seen o) :
    Best nowMin offsets seen' best := by
  rcases h with ⟨hb, hlate⟩ | ⟨b, hb, hahead, hleast⟩
  · exact Or.inl ⟨hb, fun o ho => hlate o (hs o ho)⟩
  · exact Or.inr ⟨b, hb, hahead, fun o ho => hleast o (hs o ho)⟩

/-- One more offer, or more at the same distance: it is kept if it is not behind and earlier than
the best so far. -/
theorem Best.keep {seen also : Offer cfg days → Prop} {best : Next}
    (h : Best nowMin offsets seen best) (n : Offer cfg days)
    (hsame : ∀ o, also o → o.until_ nowMin offsets = n.until_ nowMin offsets) :
    Best nowMin offsets (fun o => seen o ∨ also o)
      (if n.until_ nowMin offsets < 0 ∨
          best.type.isSome = true ∧ best.minutesUntil ≤ n.until_ nowMin offsets then best
        else n.next nowMin offsets) := by
  rcases h with ⟨rfl, hlate⟩ | ⟨b, rfl, hahead, hleast⟩
  · by_cases hn : n.until_ nowMin offsets < 0
    · rw [if_pos (Or.inl hn)]
      exact Or.inl ⟨rfl, fun o ho => ho.elim (hlate o) fun ho => hsame o ho ▸ hn⟩
    · rw [if_neg (by simp [hn, Next.nothing])]
      refine Or.inr ⟨n, rfl, not_lt.mp hn, fun o ho h₀ => ho.elim (fun ho => ?_) fun ho => ?_⟩
      · exact absurd (hlate o ho) (not_lt.mpr h₀)
      · exact (hsame o ho).ge
  · by_cases hn : n.until_ nowMin offsets < 0 ∨
        b.until_ nowMin offsets ≤ n.until_ nowMin offsets
    · rw [if_pos (by simpa [Offer.next] using hn)]
      refine Or.inr ⟨b, rfl, hahead, fun o ho h₀ => ho.elim (hleast o · h₀) fun ho => ?_⟩
      rw [hsame o ho] at h₀ ⊢
      exact hn.resolve_left (not_lt.mpr h₀)
    · rw [if_neg (by simpa [Offer.next] using hn)]
      rw [not_or, not_lt, not_le] at hn
      refine Or.inr ⟨n, rfl, hn.1, fun o ho h₀ => ho.elim (fun ho => ?_) fun ho => ?_⟩
      · exact hn.2.le.trans (hleast o ho h₀)
      · exact (hsame o ho).ge

theorem consider_best {δ : ℤ} (hδ : δ ∈ dayDeltas) {type : PrayerType}
    {seen : Offer cfg days → Prop} {best : Next} (h : Best nowMin offsets seen best) :
    Best nowMin offsets (fun o => seen o ∨ o.dayDelta = δ ∧ o.type = type)
      (consider cfg nowMin days offsets δ best type) := by
  have hnone : (∀ o : Offer cfg days, ¬(o.dayDelta = δ ∧ o.type = type)) →
      Best nowMin offsets (fun o => seen o ∨ o.dayDelta = δ ∧ o.type = type) best :=
    fun hno => h.mono fun o ho => ho.resolve_right (hno o)
  unfold consider
  by_cases henabled : prayerIsEnabled cfg type = true
  · rw [henabled, Bool.not_true, if_neg Bool.false_ne_true]
    cases htime : prayerGetTime (days δ) type with
    | inf neg =>
        refine hnone fun o ho => ?_
        obtain ⟨rfl, rfl⟩ := ho
        have := htime.symm.trans o.occurs
        cases this
    | nan =>
        refine hnone fun o ho => ?_
        obtain ⟨rfl, rfl⟩ := ho
        have := htime.symm.trans o.occurs
        cases this
    | fin pt hpt =>
        refine h.keep ⟨δ, type, pt, hpt, hδ, henabled, htime⟩ ?_
        rintro o ⟨rfl, rfl⟩
        have hpt' := o.occurs.symm.trans htime
        simp only [Double.fin.injEq] at hpt'
        simp only [Offer.until_, hpt']
  · rw [Bool.not_eq_true] at henabled
    rw [henabled, Bool.not_false, if_pos rfl]
    refine hnone fun o ho => ?_
    have := o.enabled
    rw [ho.2, henabled] at this
    cases this

theorem consider_foldl_best {δ : ℤ} (hδ : δ ∈ dayDeltas) (types : List PrayerType)
    {seen : Offer cfg days → Prop} {best : Next} (h : Best nowMin offsets seen best) :
    Best nowMin offsets (fun o => seen o ∨ o.dayDelta = δ ∧ o.type ∈ types)
      (types.foldl (consider cfg nowMin days offsets δ) best) := by
  induction types generalizing seen best with
  | nil => exact h.mono fun o ho => ho.resolve_right fun ho => List.not_mem_nil ho.2
  | cons type types ih =>
      refine (ih (consider_best hδ h)).mono fun o ho => ?_
      rcases ho with ho | ⟨hd, ht⟩
      · exact Or.inl (Or.inl ho)
      · rcases List.mem_cons.mp ht with ht | ht
        · exact Or.inl (Or.inr ⟨hd, ht⟩)
        · exact Or.inr ⟨hd, ht⟩

theorem consider_days_best {deltas : List ℤ} (hδ : ∀ δ ∈ deltas, δ ∈ dayDeltas)
    {seen : Offer cfg days → Prop} {best : Next} (h : Best nowMin offsets seen best) :
    Best nowMin offsets (fun o => seen o ∨ o.dayDelta ∈ deltas)
      (deltas.foldl (fun best δ => prayerTypes.foldl (consider cfg nowMin days offsets δ) best)
        best) := by
  induction deltas generalizing seen best with
  | nil => exact h.mono fun o ho => ho.resolve_right List.not_mem_nil
  | cons δ deltas ih =>
      have hday := consider_foldl_best (hδ δ List.mem_cons_self) prayerTypes h
      refine (ih (fun δ hδ' => hδ δ (List.mem_cons_of_mem _ hδ')) hday).mono fun o ho => ?_
      rcases ho with ho | ho
      · exact Or.inl (Or.inl ho)
      · rcases List.mem_cons.mp ho with ho | ho
        · exact Or.inl (Or.inr ⟨ho, mem_prayerTypes o.type⟩)
        · exact Or.inr ho

/-- The result is the least of all offers that are not behind. -/
theorem prayerNextFromDays_best (cfg : Config) (nowMin : ℤ) (days : ℤ → PrayerTimes)
    (offsets : ℤ → Double) :
    Best nowMin offsets (fun _ : Offer cfg days => True)
      (prayerNextFromDays cfg nowMin days offsets) := by
  have hstart : Best nowMin offsets (fun _ : Offer cfg days => False) .nothing :=
    Or.inl ⟨rfl, fun _ ho => ho.elim⟩
  exact (consider_days_best (fun _ hδ => hδ) hstart).mono fun o _ => Or.inr o.near

/-- Some offer that is not behind is chosen, if there is one. -/
theorem prayerNextFromDays_isSome :
    (prayerNextFromDays cfg nowMin days offsets).type.isSome = true ↔
      ∃ o : Offer cfg days, 0 ≤ o.until_ nowMin offsets := by
  rcases prayerNextFromDays_best cfg nowMin days offsets with ⟨hb, hlate⟩ | ⟨b, hb, hahead, -⟩
  · rw [hb]
    refine iff_of_false (by simp [Next.nothing]) ?_
    rintro ⟨o, ho⟩
    exact absurd (hlate o trivial) (not_lt.mpr ho)
  · rw [hb]
    exact iff_of_true rfl ⟨b, hahead⟩

/-- The one chosen is an offer, and no offer ahead comes before it. -/
theorem prayerNextFromDays_least
    (h : (prayerNextFromDays cfg nowMin days offsets).type.isSome = true) :
    ∃ b : Offer cfg days, prayerNextFromDays cfg nowMin days offsets = b.next nowMin offsets ∧
      0 ≤ b.until_ nowMin offsets ∧
      ∀ o : Offer cfg days, 0 ≤ o.until_ nowMin offsets →
        b.until_ nowMin offsets ≤ o.until_ nowMin offsets := by
  rcases prayerNextFromDays_best cfg nowMin days offsets with ⟨hb, -⟩ | ⟨b, hb, hahead, hleast⟩
  · rw [hb] at h
    cases h
  · exact ⟨b, hb, hahead, fun o ho => hleast o trivial ho⟩

end Offers

section Announced
variable {H} {cfg : Config} {times : PrayerTimes} {day cm : ℤ}

theorem mem_built {cache : PrayerCache} {t : CacheTrigger} :
    t ∈ (cacheBuildTriggers H cache cfg times cm
        (dateText (mtCivilFromDays day))).1.triggers.items ↔
      t ∈ (candidates cfg (sourceTimes H cfg times day) cm).take maxTriggers :=
  (cacheBuildTriggers_perm H cache cfg times day cm).mem_iff

/-- A trigger without minutes ahead is at the minute of an offer. -/
theorem offer_of_mem_candidates {source : ℤ → PrayerTimes} {t : CacheTrigger}
    (ht : t ∈ candidates cfg source cm) (h₀ : t.minutesBefore = 0) :
    ∃ o : Offer cfg source, t.minute = o.minute ∧ onDay t.minute cm = true := by
  have hoffer : ∀ {make : PrayerType → Double → ℤ → ℤ → CacheTrigger} {ahead : PrayerType → List ℤ}
      {δ : ℤ} {type : PrayerType}, Makes make → δ ∈ dayDeltas →
      t ∈ offersAhead cfg make ahead (source δ) δ cm type →
      ∃ o : Offer cfg source, t.minute = o.minute ∧ onDay t.minute cm = true := by
    intro make ahead δ type hm hδ ht
    obtain ⟨henabled, pt, hpt, htime, r, -, hon, rfl⟩ := (mem_offersAhead cfg).mp ht
    rw [hm.ahead] at h₀
    subst h₀
    rw [hm.minute, sub_zero]
    rw [sub_zero] at hon
    exact ⟨⟨δ, type, pt, hpt, hδ, henabled, htime⟩, rfl, hon⟩
  rcases List.mem_append.mp ht with ht | ht
  · obtain ⟨δ, hδ, ht⟩ := List.mem_flatMap.mp ht
    obtain ⟨type, -, ht⟩ := List.mem_flatMap.mp ht
    rw [exactOffer_eq] at ht
    exact hoffer (exactTrigger_makes cfg) hδ ht
  · obtain ⟨δ, hδ, ht⟩ := List.mem_flatMap.mp ht
    obtain ⟨type, -, ht⟩ := List.mem_flatMap.mp ht
    rw [reminderOffers_eq] at ht
    exact hoffer reminderTrigger_makes hδ ht

/-- Every offer of the day has its exact trigger, which always has room. -/
theorem offer_mem_candidates {source : ℤ → PrayerTimes} (o : Offer cfg source)
    (hon : onDay o.minute cm = true) :
    ∃ t ∈ (candidates cfg source cm).take maxTriggers, t.minutesBefore = 0 ∧ t.minute = o.minute := by
  refine ⟨exactTrigger cfg o.type (.fin o.hours o.bounded) 0 o.minute, ?_, rfl, rfl⟩
  rw [candidates_take]
  refine List.mem_append_left _ (List.mem_flatMap.mpr ⟨o.dayDelta, o.near, ?_⟩)
  refine List.mem_flatMap.mpr ⟨o.type, mem_prayerTypes o.type, ?_⟩
  rw [exactOffer_eq]
  refine (mem_offersAhead cfg).mpr ⟨o.enabled, o.hours, o.bounded, o.occurs, 0, by simp, ?_, ?_⟩
  · rwa [sub_zero]
  · rw [sub_zero]
    rfl

/-- With one offset on all days no correction is made. -/
theorem until_shared {source : ℤ → PrayerTimes} (o : Offer cfg source) (nowMin : ℤ)
    (offset : Double) : o.until_ nowMin (fun _ => offset) = o.minute - nowMin := by
  have hshift : shift (fun _ => offset) o.dayDelta = 0 := by
    unfold shift
    cases offset with
    | fin q h => simpa using llround_intCast 0
    | inf neg => rfl
    | nan => rfl
  rw [Offer.until_, untilMin, hshift, sub_zero]
  rfl

/-- The next prayer shown is the next one announced: while it is one of today's minutes, it
is the first exact trigger ahead on the list built at that minute, and there is none otherwise. -/
theorem next_is_first_ahead (H : Host) (cache : PrayerCache) (cfg : Config) (times : PrayerTimes)
    (day now : ℤ) (offset : Double) (hnow : 0 ≤ now ∧ now < 1440) :
    let built := (cacheBuildTriggers H cache cfg times now
      (dateText (mtCivilFromDays day))).1.triggers.items
    let next := prayerNextFromDays cfg now (sourceTimes H cfg times day) fun _ => offset
    ((∃ t ∈ built, t.minutesBefore = 0 ∧ now ≤ t.minute) ↔
        next.type.isSome = true ∧ now + next.minutesUntil < 1440) ∧
      (next.type.isSome = true → now + next.minutesUntil < 1440 →
        (∃ t ∈ built, t.minutesBefore = 0 ∧ t.minute = now + next.minutesUntil) ∧
          now ≤ now + next.minutesUntil ∧
          ∀ t ∈ built, t.minutesBefore = 0 → now ≤ t.minute →
            now + next.minutesUntil ≤ t.minute) := by
  intro built next
  have hoffer : ∀ t ∈ built, t.minutesBefore = 0 →
      ∃ o : Offer cfg (sourceTimes H cfg times day), t.minute = o.minute ∧
        onDay t.minute now = true := fun t ht =>
    offer_of_mem_candidates (List.mem_of_mem_take (mem_built.mp ht))
  have hfirst : next.type.isSome = true → now + next.minutesUntil < 1440 →
      ∃ t ∈ built, t.minutesBefore = 0 ∧ t.minute = now + next.minutesUntil ∧
        now ≤ now + next.minutesUntil := by
    intro hsome htoday
    obtain ⟨b, hb, hahead, -⟩ := prayerNextFromDays_least hsome
    rw [until_shared] at hahead
    have huntil : next.minutesUntil = b.minute - now := by
      rw [← until_shared b now offset, show next = _ from hb]
      rfl
    have hon : onDay b.minute now = true := by
      have hwindow : catchupMaxMin = 15 := rfl
      simp only [onDay, Bool.and_eq_true, decide_eq_true_eq]
      omega
    obtain ⟨t, ht, h₀, hminute⟩ := offer_mem_candidates b hon
    exact ⟨t, mem_built.mpr ht, h₀, by omega, by omega⟩
  have hleast : ∀ t ∈ built, t.minutesBefore = 0 → now ≤ t.minute →
      next.type.isSome = true ∧ now + next.minutesUntil ≤ t.minute ∧ t.minute < 1440 := by
    intro t ht h₀ hge
    obtain ⟨o, hminute, hon⟩ := hoffer t ht h₀
    simp only [onDay, Bool.and_eq_true, decide_eq_true_eq] at hon
    have hahead : 0 ≤ o.until_ now fun _ => offset := by
      rw [until_shared]
      omega
    have hsome : next.type.isSome = true := prayerNextFromDays_isSome.mpr ⟨o, hahead⟩
    obtain ⟨b, hb, -, hbest⟩ := prayerNextFromDays_least hsome
    have hle := hbest o hahead
    have huntil : next.minutesUntil = b.until_ now fun _ => offset := by
      rw [show next = _ from hb]
      rfl
    rw [until_shared o] at hle
    exact ⟨hsome, by omega, hon.1.2⟩
  refine ⟨⟨?_, ?_⟩, fun hsome htoday => ?_⟩
  · rintro ⟨t, ht, h₀, hge⟩
    obtain ⟨hsome, hle, hlt⟩ := hleast t ht h₀ hge
    exact ⟨hsome, by omega⟩
  · rintro ⟨hsome, htoday⟩
    obtain ⟨t, ht, h₀, hminute, hge⟩ := hfirst hsome htoday
    exact ⟨t, ht, h₀, by omega⟩
  · obtain ⟨t, ht, h₀, hminute, hge⟩ := hfirst hsome htoday
    exact ⟨⟨t, ht, h₀, hminute⟩, hge, fun t' ht' h₀' hge' => (hleast t' ht' h₀' hge').2.1⟩

theorem next_is_first_ahead_noon :
    ∃ t ∈ (cacheBuildTriggers (steadyHost juneTimes) .zero configDefault juneTimes 720
        (dateText (mtCivilFromDays 20000))).1.triggers.items,
      t.minutesBefore = 0 ∧ t.minute = 804 := by
  have hdays : sourceTimes (steadyHost juneTimes) configDefault juneTimes 20000 =
      fun _ => juneTimes := by
    funext δ
    unfold sourceTimes
    rw [timesOfDay_steady (by decide +kernel) (by decide +kernel) fun p => by cases p <;> rfl,
      ite_self]
  have hnext : prayerNextFromDays configDefault 720 (fun _ => juneTimes) (fun _ => .zero) =
      ⟨some .dhuhr, 84, 0, .ofRat (67 / 5)⟩ := by
    decide +kernel
  have h := (next_is_first_ahead (steadyHost juneTimes) .zero configDefault juneTimes 20000 720
    .zero (by decide)).2
  rw [hdays, hnext] at h
  exact (h rfl (by decide)).1

end Announced

section Countdown

/-- Minutes from now to an offer, as the difference of the two in UTC. The clock of a source
day is so many minutes ahead of UTC. -/
def Offer.realMinutes {cfg : Config} {days : ℤ → PrayerTimes} (o : Offer cfg days)
    (zone : ℤ → ℤ) (nowMin : ℤ) : ℤ :=
  (1440 * o.dayDelta + ⌈o.hours * 60⌉ - zone o.dayDelta) - (nowMin - zone 0)

/-- Whole-minute offsets are taken off exactly. -/
theorem until_realMinutes {cfg : Config} {days : ℤ → PrayerTimes} {offsets : ℤ → Double}
    {zone : ℤ → ℤ} (hzone : ∀ δ ∈ dayDeltas, (offsets δ).finite? = some (zone δ / 60 : ℚ))
    (o : Offer cfg days) (nowMin : ℤ) :
    o.until_ nowMin offsets = o.realMinutes zone nowMin := by
  have hfin : ∀ δ ∈ dayDeltas, ∃ h, offsets δ = .fin (zone δ / 60 : ℚ) h := by
    intro δ hδ
    have := hzone δ hδ
    cases hd : offsets δ with
    | fin q hq =>
        rw [hd] at this
        cases this
        exact ⟨hq, rfl⟩
    | inf neg =>
        rw [hd] at this
        cases this
    | nan =>
        rw [hd] at this
        cases this
  obtain ⟨h₁, ha⟩ := hfin o.dayDelta o.near
  obtain ⟨h₀, hb⟩ := hfin 0 (by decide)
  have hshift : shift offsets o.dayDelta = zone o.dayDelta - zone 0 := by
    have hexact : ((zone o.dayDelta / 60 : ℚ) - zone 0 / 60) * 60 =
        ((zone o.dayDelta - zone 0 : ℤ) : ℚ) := by
      push_cast
      ring
    simp only [shift, ha, hb, hexact, llround_intCast]
  rw [Offer.until_, untilMin, hshift, instantMin_eq, Offer.realMinutes]
  omega

/-- The times of today and of its neighbours. -/
def daysAround (H : Host) (cfg : Config) (now : Tm) : ℤ → PrayerTimes :=
  sourceTimes H cfg (prayerTimesForConfig H cfg now.date.year now.date.month now.date.day)
    now.serial

/-- What the next prayer is by. -/
def Earliest (cfg : Config) (days : ℤ → PrayerTimes) (zone : ℤ → ℤ) (nowMin : ℤ) (next : Next) :
    Prop :=
  (next.type = none ↔ ¬∃ o : Offer cfg days, 0 ≤ o.realMinutes zone nowMin) ∧
    (next.type ≠ none → ∃ b : Offer cfg days,
      next = ⟨some b.type, b.realMinutes zone nowMin, b.dayDelta, .fin b.hours b.bounded⟩ ∧
        0 ≤ b.realMinutes zone nowMin ∧
          ∀ o : Offer cfg days, 0 ≤ o.realMinutes zone nowMin →
            b.realMinutes zone nowMin ≤ o.realMinutes zone nowMin)

theorem prayerNextFromDays_earliest {cfg : Config} {days : ℤ → PrayerTimes}
    {offsets : ℤ → Double} {zone : ℤ → ℤ}
    (hzone : ∀ δ ∈ dayDeltas, (offsets δ).finite? = some (zone δ / 60 : ℚ)) (nowMin : ℤ) :
    Earliest cfg days zone nowMin (prayerNextFromDays cfg nowMin days offsets) := by
  have hreal := fun o : Offer cfg days => until_realMinutes hzone o nowMin
  refine ⟨?_, fun hsome => ?_⟩
  · have h : (prayerNextFromDays cfg nowMin days offsets).type.isSome = true ↔
        ∃ o : Offer cfg days, 0 ≤ o.until_ nowMin offsets := prayerNextFromDays_isSome
    simp only [hreal] at h
    rw [← h, Bool.not_eq_true, Option.isSome_eq_false_iff, Option.isNone_iff_eq_none]
  · obtain ⟨b, hb, hahead, hleast⟩ :=
      prayerNextFromDays_least (Option.isSome_iff_ne_none.mpr hsome)
    simp only [hreal] at hahead hleast
    refine ⟨b, ?_, hahead, hleast⟩
    rw [hb, Offer.next, hreal]

/-- The next prayer is the earliest one that is not behind, and the countdown to it is the
difference of its instant and that of now. -/
theorem next_earliest (cfg : Config) (now : Tm) (zone : ℤ → ℤ) :
    (∀ days offsets, (∀ δ ∈ dayDeltas, (offsets δ).finite? = some (zone δ / 60 : ℚ)) →
      Earliest cfg days zone now.nowMin (prayerNextFromDays cfg now.nowMin days offsets)) ∧
    ∀ H : Host, muslimtifyHasLocation cfg = true →
      (∀ δ ∈ dayDeltas, (tzOffsetOfDay H cfg (now.serial + δ)).finite? = some (zone δ / 60 : ℚ)) →
      (∀ o : Offer cfg (daysAround H cfg now), -1440 ≤ ⌈o.hours * 60⌉ ∧ ⌈o.hours * 60⌉ < 2880) →
      let next := prayerNextFromDays cfg now.nowMin (daysAround H cfg now)
        fun δ => tzOffsetOfDay H cfg (now.serial + δ)
      ∃ shown, muslimtifyNextAt H cfg now = .ok shown ∧ shown.prayer = next.type ∧
        shown.minutesUntil = next.minutesUntil ∧
        (next.type ≠ none → shown.time.valid = true ∧
          shown.time.instant - 60 * (1440 * now.serial + now.nowMin - zone 0) =
            60 * next.minutesUntil) := by
  refine ⟨fun days offsets hzone => prayerNextFromDays_earliest hzone _, ?_⟩
  intro H hloc hzone hwindow next
  have hearliest : Earliest cfg (daysAround H cfg now) zone now.nowMin next :=
    prayerNextFromDays_earliest hzone now.nowMin
  have hget : prayerGetNext H cfg now
      (prayerTimesForConfig H cfg now.date.year now.date.month now.date.day) = next := rfl
  simp only [muslimtifyNextAt, hloc, Bool.not_true, Bool.false_eq_true, if_false, hget]
  by_cases hnone : next.type = none
  · have hnothing : next = .nothing := by
      rcases prayerNextFromDays_best cfg now.nowMin (daysAround H cfg now)
        (fun δ => tzOffsetOfDay H cfg (now.serial + δ)) with ⟨hb, -⟩ | ⟨b, hb, -⟩
      · exact hb
      · have := hnone.symm.trans (congrArg Next.type hb)
        cases this
    refine ⟨_, if_pos (by rw [hnone]; rfl), hnone.symm, ?_, fun h => absurd hnone h⟩
    rw [hnothing]
    rfl
  · obtain ⟨b, hb, -, -⟩ := hearliest.2 hnone
    refine ⟨_, if_neg (by simpa using hnone), rfl, rfl, fun _ => ⟨?_, ?_⟩⟩
    · rw [hb]
      rfl
    · have hinstant := timeFromHours_instant b.hours b.bounded (now.serial + b.dayDelta)
        (zone b.dayDelta) _ (hzone b.dayDelta b.near)
      rw [hb, hinstant, daysMissed_eq_zero (hwindow b), Offer.realMinutes]
      ring

/-- The clocks go forward by an hour on 29 March 2026. -/
def springHost : Host :=
  .insertionSorting (fun _ _ _ _ _ _ _ => juneTimes) (fun _ => true)
    fun _ t => .ofRat (if t < 20541 * 86400 then 1 else 2)

/-- The evening before. Tomorrow's fajr is an hour earlier than today's clock says. -/
def springEve : Tm := ⟨⟨2026, 3, 28⟩, 22, 50⟩

theorem next_earliest_spring :
    ∃ shown, muslimtifyNextAt springHost farNorth springEve = .ok shown ∧
      shown.prayer = some .fajr ∧ shown.minutesUntil = 4 ∧
      shown.time.instant - 60 * (1440 * 20540 + 1370 - 60) = 60 * 4 := by
  have hwindow : ∀ δ ∈ dayDeltas, ∀ p,
      ∀ q ∈ (prayerGetTime (daysAround springHost farNorth springEve δ) p).finite?,
        -1440 ≤ ⌈q * 60⌉ ∧ ⌈q * 60⌉ < 2880 := by
    intro δ hδ p
    cases p <;> revert δ <;> decide +kernel
  have hnext : prayerNextFromDays farNorth springEve.nowMin
      (daysAround springHost farNorth springEve)
      (fun δ => tzOffsetOfDay springHost farNorth (springEve.serial + δ)) =
        ⟨some .fajr, 4, 1, .ofRat (-1 / 10)⟩ := by
    decide +kernel
  obtain ⟨shown, hshown, hprayer, huntil, hinstant⟩ :=
    (next_earliest farNorth springEve fun δ => if δ ≤ 0 then 60 else 120).2 springHost
      (by decide +kernel) (by decide +kernel)
      fun o => hwindow o.dayDelta o.near o.type o.hours (by rw [o.occurs]; rfl)
  rw [hnext] at hprayer huntil hinstant
  have hserial : springEve.serial = 20540 := by decide +kernel
  rw [hserial] at hinstant
  exact ⟨shown, hshown, hprayer, huntil, (hinstant (by decide)).2⟩

end Countdown

end Muslimtify.NextPrayer
