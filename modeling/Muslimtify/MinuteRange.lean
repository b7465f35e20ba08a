import Muslimtify.CMemory
import Muslimtify.NextPrayer

/-!
# Minutes that fit their types

Prayer times are hours as `double`s, and the trigger list and the countdown turn
them into minutes of type `int`. A conversion of a value outside the type has no
defined result, so the loops are written here with conversions that fail.

The engine is known by what it promises: its times lie within a day of a noon
that the zone's offset and the longitude fix. Coordinates are looked at before
they are used and a prayer's own offset is clamped on load. The zone's offset of
the file, which stands in for a zone that is not known, is used as it stands.
-/
namespace Muslimtify.MinuteRange
open CText CDouble CivilDays Settings ConfigFile Schedule TriggerCache TriggerPartition
open PublicTimes NextPrayer
open CMemory (Checked ok_bind ok_of_bind addInt addInt_ok)

section Loops

/-- A loop that collects and stops at a fault. -/
def collect {α β : Type} (f : α → Checked (List β)) : List α → Checked (List β)
  | [] => return []
  | a :: as => do
      let bs ← f a
      let rest ← collect f as
      return bs ++ rest

theorem collect_ok {α β : Type} {f : α → Checked (List β)} {g : α → List β} {l : List α}
    (h : ∀ a ∈ l, f a = .ok (g a)) : collect f l = .ok (l.flatMap g) := by
  induction l with
  | nil => rfl
  | cons a l ih =>
      rw [collect, h a List.mem_cons_self, ok_bind, ih fun b hb => h b (List.mem_cons_of_mem a hb)]
      rfl

/-- Where the loop comes to its end, so does every turn of it. -/
theorem ok_of_collect {α β : Type} {f : α → Checked (List β)} {l : List α} {bs : List β}
    (h : collect f l = .ok bs) : ∀ a ∈ l, ∃ xs, f a = .ok xs := by
  induction l generalizing bs with
  | nil => simp
  | cons a l ih =>
      rw [collect] at h
      obtain ⟨xs, ha, h⟩ := ok_of_bind h
      obtain ⟨ys, hl, -⟩ := ok_of_bind h
      intro b hb
      rcases List.mem_cons.mp hb with rfl | hb
      · exact ⟨xs, ha⟩
      · exact ih hl b hb

theorem foldlM_ok {α β : Type} {f : β → α → Checked β} {g : β → α → β} {l : List α} {b : β}
    (h : ∀ b, ∀ a ∈ l, f b a = .ok (g b a)) : l.foldlM f b = .ok (l.foldl g b) := by
  induction l generalizing b with
  | nil => rfl
  | cons a l ih =>
      rw [List.foldlM_cons, h b a List.mem_cons_self, ok_bind,
        ih fun b c hc => h b c (List.mem_cons_of_mem a hc)]
      rfl

end Loops

section Conversions

/-- `(int)` of a whole number. -/
def castInt (z : ℤ) : Checked ℤ :=
  if CMemory.intMin ≤ z ∧ z ≤ CMemory.intMax then .ok z else .error .signedOverflow

/-- `(long)` of a whole number. -/
def castLong (z : ℤ) : Checked ℤ :=
  if longMin ≤ z ∧ z ≤ longMax then .ok z else .error .signedOverflow

variable (cfg : Config)

/-- The turn of the first pass for one prayer. -/
def exactOfferAt (source : PrayerTimes) (dayDelta currentMinute : ℤ) (type : PrayerType) :
    Checked (List CacheTrigger) :=
  if !prayerIsEnabled cfg type then return []
  else
    match prayerGetTime source type with
    | .fin pt h => do
        let instant ← castInt (instantMin pt dayDelta)
        return if onDay instant currentMinute then [exactTrigger cfg type (.fin pt h) 0 instant]
          else []
    | _ => return []

/-- The turn of the second pass for one prayer. -/
def reminderOffersAt (source : PrayerTimes) (dayDelta currentMinute : ℤ) (type : PrayerType) :
    Checked (List CacheTrigger) :=
  if !prayerIsEnabled cfg type then return []
  else
    match prayerGetTime source type with
    | .fin pt h => do
        let instant ← castInt (instantMin pt dayDelta)
        collect (fun r => do
          let minute ← addInt instant (-r)
          return if onDay minute currentMinute then [reminderTrigger type (.fin pt h) r minute]
            else []) (prayerGetConfig cfg type).reminders.items
    | _ => return []

/-- The loops of `cache_build_triggers`. -/
def candidatesAt (source : ℤ → PrayerTimes) (currentMinute : ℤ) : Checked (List CacheTrigger) := do
  let exact_ ← collect (fun δ => collect (exactOfferAt cfg (source δ) δ currentMinute) prayerTypes)
    dayDeltas
  let reminders ← collect
    (fun δ => collect (reminderOffersAt cfg (source δ) δ currentMinute) prayerTypes) dayDeltas
  return exact_ ++ reminders

/-- One turn of the inner loop of `prayer_next_from_days`. -/
def considerAt (nowMin : ℤ) (days : ℤ → PrayerTimes) (offsets : ℤ → Double) (dayDelta : ℤ)
    (best : Next) (type : PrayerType) : Checked Next :=
  if !prayerIsEnabled cfg type then return best
  else
    match prayerGetTime (days dayDelta) type with
    | .fin pt h => do
        let instant ← castLong (instantMin pt dayDelta)
        let until_ := instant - nowMin - shift offsets dayDelta
        if until_ < 0 ∨ best.type.isSome = true ∧ best.minutesUntil ≤ until_ then return best
        else
          let minutesUntil ← castInt until_
          return ⟨some type, minutesUntil, dayDelta, .fin pt h⟩
    | _ => return best

/-- The loops of `prayer_next_from_days`. -/
def nextAt (nowMin : ℤ) (days : ℤ → PrayerTimes) (offsets : ℤ → Double) : Checked Next :=
  dayDeltas.foldlM
    (fun best δ => prayerTypes.foldlM (considerAt cfg nowMin days offsets δ) best) .nothing

/-- Both functions come to their ends for a date and a minute, with the results that exact
numbers give. -/
structure ConversionsFit (H : Host) (cfg : Config) (day nowMin : ℤ) : Prop where
  list : candidatesAt cfg (fun δ => timesOfDay H cfg (day + δ)) nowMin =
    .ok (candidates cfg (fun δ => timesOfDay H cfg (day + δ)) nowMin)
  next : nextAt cfg nowMin (fun δ => timesOfDay H cfg (day + δ))
      (fun δ => tzOffsetOfDay H cfg (day + δ)) =
    .ok (prayerNextFromDays cfg nowMin (fun δ => timesOfDay H cfg (day + δ))
      fun δ => tzOffsetOfDay H cfg (day + δ))

end Conversions

section Fitting
variable {cfg : Config} {source : ℤ → PrayerTimes} {nowMin : ℤ} {offsets : ℤ → Double}

theorem castInt_ok {z : ℤ} (h : CMemory.intMin ≤ z ∧ z ≤ CMemory.intMax) : castInt z = .ok z :=
  if_pos h

theorem castLong_ok {z : ℤ} (h : longMin ≤ z ∧ z ≤ longMax) : castLong z = .ok z := if_pos h

theorem of_castInt {z z' : ℤ} (h : castInt z = .ok z') :
    CMemory.intMin ≤ z ∧ z ≤ CMemory.intMax := by
  unfold castInt at h
  split_ifs at h with hz
  exact hz

/-- The minute of every prayer of the three days, and of its reminders, fits an `int`. -/
def MinutesFit (cfg : Config) (source : ℤ → PrayerTimes) : Prop :=
  ∀ δ ∈ dayDeltas, ∀ type, prayerIsEnabled cfg type = true → ∀ pt,
    (prayerGetTime (source δ) type).finite? = some pt →
      instantMin pt δ ≤ CMemory.intMax ∧ ∀ r ∈ 0 :: (prayerGetConfig cfg type).reminders.items,
        CMemory.intMin ≤ instantMin pt δ - r

theorem MinutesFit.int (h : MinutesFit cfg source) {δ : ℤ} (hδ : δ ∈ dayDeltas) {type : PrayerType}
    (he : prayerIsEnabled cfg type = true) {pt : ℚ}
    (hpt : (prayerGetTime (source δ) type).finite? = some pt) :
    CMemory.intMin ≤ instantMin pt δ ∧ instantMin pt δ ≤ CMemory.intMax := by
  obtain ⟨hmax, hmin⟩ := h δ hδ type he pt hpt
  have h₀ := hmin 0 List.mem_cons_self
  rw [sub_zero] at h₀
  exact ⟨h₀, hmax⟩

theorem exactOfferAt_ok (h : MinutesFit cfg source) {δ : ℤ} (hδ : δ ∈ dayDeltas)
    (type : PrayerType) : exactOfferAt cfg (source δ) δ nowMin type =
      .ok (exactOffer cfg (source δ) δ nowMin type) := by
  unfold exactOfferAt exactOffer
  cases he : prayerIsEnabled cfg type with
  | false => rfl
  | true =>
      simp only [Bool.not_true, Bool.false_eq_true, if_false]
      cases ht : prayerGetTime (source δ) type with
      | fin pt hpt =>
          dsimp only
          rw [castInt_ok (h.int hδ he (by rw [ht, Double.finite?])), ok_bind]
          rfl
      | inf neg => rfl
      | nan => rfl

theorem reminderOffersAt_ok (hrange : cfg.InRange) (h : MinutesFit cfg source) {δ : ℤ}
    (hδ : δ ∈ dayDeltas) (type : PrayerType) : reminderOffersAt cfg (source δ) δ nowMin type =
      .ok (reminderOffers cfg (source δ) δ nowMin type) := by
  unfold reminderOffersAt reminderOffers
  cases he : prayerIsEnabled cfg type with
  | false => rfl
  | true =>
      simp only [Bool.not_true, Bool.false_eq_true, if_false]
      cases ht : prayerGetTime (source δ) type with
      | fin pt hpt =>
          have hfinite : (prayerGetTime (source δ) type).finite? = some pt := by
            rw [ht, Double.finite?]
          have hint := h.int hδ he hfinite
          have hturn : ∀ r ∈ (prayerGetConfig cfg type).reminders.items,
              (do
                let minute ← addInt (instantMin pt δ) (-r)
                return if onDay minute nowMin then [reminderTrigger type (.fin pt hpt) r minute]
                  else [] : Checked (List CacheTrigger)) =
                .ok (if onDay (instantMin pt δ - r) nowMin then
                  [reminderTrigger type (.fin pt hpt) r (instantMin pt δ - r)] else []) := by
            intro r hr
            have hpos := (hrange.prayers type).reminders r hr
            have hmin := (h δ hδ type he pt hfinite).2 r (List.mem_cons_of_mem 0 hr)
            rw [addInt_ok (by omega), ok_bind, ← sub_eq_add_neg]
            rfl
          dsimp only
          rw [castInt_ok hint, ok_bind, collect_ok hturn]
          congr 1
          rw [List.filterMap_eq_flatMap_toList]
          refine List.flatMap_congr fun r _ => ?_
          split_ifs <;> rfl
      | inf neg => rfl
      | nan => rfl

theorem candidatesAt_ok (hrange : cfg.InRange) (h : MinutesFit cfg source) :
    candidatesAt cfg source nowMin = .ok (candidates cfg source nowMin) := by
  rw [candidatesAt, collect_ok fun δ hδ => collect_ok fun type _ => exactOfferAt_ok h hδ type,
    ok_bind, collect_ok fun δ hδ => collect_ok fun type _ => reminderOffersAt_ok hrange h hδ type,
    ok_bind]
  rfl

theorem nextAt_ok (h : MinutesFit cfg source)
    (huntil : ∀ δ ∈ dayDeltas, ∀ type, prayerIsEnabled cfg type = true → ∀ pt,
      (prayerGetTime (source δ) type).finite? = some pt →
        untilMin nowMin offsets pt δ ≤ CMemory.intMax) :
    nextAt cfg nowMin source offsets = .ok (prayerNextFromDays cfg nowMin source offsets) := by
  refine foldlM_ok fun best δ hδ => foldlM_ok fun best type _ => ?_
  unfold considerAt consider
  cases he : prayerIsEnabled cfg type with
  | false => rfl
  | true =>
      simp only [Bool.not_true, Bool.false_eq_true, if_false]
      cases ht : prayerGetTime (source δ) type with
      | fin pt hpt =>
          have hfinite : (prayerGetTime (source δ) type).finite? = some pt := by
            rw [ht, Double.finite?]
          have hint := h.int hδ he hfinite
          have hmax := huntil δ hδ type he pt hfinite
          have hlong : longMin ≤ instantMin pt δ ∧ instantMin pt δ ≤ longMax := by
            simp only [CMemory.intMin, CMemory.intMax, longMin, longMax] at hint ⊢
            omega
          dsimp only
          rw [castLong_ok hlong, ok_bind]
          unfold untilMin at hmax ⊢
          split_ifs with hskip
          · rfl
          · rw [castInt_ok ⟨?_, hmax⟩, ok_bind]
            · rfl
            · have hmin : CMemory.intMin ≤ 0 := by decide
              have := not_lt.mp (not_or.mp hskip).1
              omega
      | inf neg => rfl
      | nan => rfl

/-- A run that comes to its end has converted nothing out of range. -/
theorem of_candidatesAt {l : List CacheTrigger} (h : candidatesAt cfg source nowMin = .ok l) :
    MinutesFit cfg source := by
  rw [candidatesAt] at h
  obtain ⟨exact_, -, h⟩ := ok_of_bind h
  obtain ⟨reminders, hrem, -⟩ := ok_of_bind h
  intro δ hδ type he pt hpt
  obtain ⟨_, hday⟩ := ok_of_collect hrem δ hδ
  obtain ⟨_, hturn⟩ := ok_of_collect hday type (mem_prayerTypes type)
  obtain ⟨bounded, ht⟩ := Double.eq_fin hpt
  simp only [reminderOffersAt, he, ht, Bool.not_true, Bool.false_eq_true, if_false] at hturn
  obtain ⟨instant, hcast, hturn⟩ := ok_of_bind hturn
  have hint := of_castInt hcast
  rw [castInt_ok hint] at hcast
  obtain rfl := Except.ok.inj hcast
  refine ⟨hint.2, fun r hr => ?_⟩
  rcases List.mem_cons.mp hr with rfl | hr
  · rw [sub_zero]
    exact hint.1
  · obtain ⟨_, hsub⟩ := ok_of_collect hturn r hr
    obtain ⟨minute, hsub, -⟩ := ok_of_bind hsub
    unfold addInt at hsub
    split_ifs at hsub with hfits
    exact hfits.1

end Fitting

section Engine

/-- What is promised of the solar engine: for a place on the earth its finite times lie within
a day of a noon that is 12 o'clock moved by the zone's offset, the longitude and an hour at
most. -/
def NearNoon (engine : (year month day : ℤ) → (latitude longitude timezone : Double) →
    MethodParams → PrayerTimes) : Prop :=
  ∀ year month day latitude longitude timezone params, configLatitudeIsValid latitude = true →
    configLongitudeIsValid longitude = true → ∃ eqt : ℚ, |eqt| ≤ 1 ∧ ∀ type t,
      (prayerGetTime (engine year month day latitude longitude timezone params) type).finite? =
        some t → ∃ z l, timezone.finite? = some z ∧ longitude.finite? = some l ∧
          |t - (12 + z - l / 15 - eqt)| ≤ 24

/-- The zone database answers in seconds of type `int`. -/
def InSeconds (zoneOffset : CString → ℤ → Double) : Prop :=
  ∀ name when, ∃ seconds : ℤ, (CMemory.intMin ≤ seconds ∧ seconds ≤ CMemory.intMax) ∧
    (zoneOffset name when).finite? = some (seconds / 3600 : ℚ)

theorem finite_addRat {x : Double} {q pt : ℚ} (h : (x.addRat q).finite? = some pt) :
    ∃ t, x.finite? = some t ∧ pt = t + q := by
  cases x with
  | fin t ht =>
      simp only [Double.addRat, Double.ofRat] at h
      split_ifs at h
      · exact ⟨t, rfl, (Option.some.inj h).symm⟩
      · cases h
  | inf neg => cases h
  | nan => cases h

theorem prayerGetTime_forConfig {H : Host} {cfg : Config}
    (hlat : configLatitudeIsValid cfg.latitude = true)
    (hlon : configLongitudeIsValid cfg.longitude = true) (year month day : ℤ) (type : PrayerType) :
    prayerGetTime (prayerTimesForConfig H cfg year month day) type =
      (prayerGetTime (H.calculatePrayerTimes year month day cfg.latitude cfg.longitude
        (effectiveTzOffset H cfg year month day) (methodParamsFromConfig cfg)) type).addRat
        ((prayerGetConfig cfg type).offset / 60) := by
  simp only [prayerTimesForConfig, hlat, hlon, Bool.not_true, Bool.or_self, Bool.false_eq_true,
    if_false]
  cases type <;> rfl

/-- Where a prayer has a time at all the coordinates are in order, and the time is that of the
engine moved by the prayer's own offset. -/
theorem time_window {H : Host} {cfg : Config} (hnoon : NearNoon H.calculatePrayerTimes)
    {day : ℤ} {type : PrayerType} {pt : ℚ}
    (hpt : (prayerGetTime (timesOfDay H cfg day) type).finite? = some pt) :
    configLatitudeIsValid cfg.latitude = true ∧ configLongitudeIsValid cfg.longitude = true ∧
      ∃ z l : ℚ, (tzOffsetOfDay H cfg day).finite? = some z ∧ cfg.longitude.finite? = some l ∧
        z - l / 15 - 13 ≤ pt - (prayerGetConfig cfg type).offset / 60 ∧
        pt - (prayerGetConfig cfg type).offset / 60 ≤ z - l / 15 + 37 := by
  unfold timesOfDay at hpt
  by_cases hvalid : configLatitudeIsValid cfg.latitude = true ∧
      configLongitudeIsValid cfg.longitude = true
  · obtain ⟨hlat, hlon⟩ := hvalid
    rw [prayerGetTime_forConfig hlat hlon] at hpt
    obtain ⟨t, ht, rfl⟩ := finite_addRat hpt
    obtain ⟨eqt, heqt, hnear⟩ := hnoon (mtCivilFromDays day).year (mtCivilFromDays day).month
      (mtCivilFromDays day).day cfg.latitude cfg.longitude
      (effectiveTzOffset H cfg (mtCivilFromDays day).year (mtCivilFromDays day).month
        (mtCivilFromDays day).day) (methodParamsFromConfig cfg) hlat hlon
    obtain ⟨z, l, hz, hl, hdist⟩ := hnear type t ht
    rw [abs_le] at heqt hdist
    exact ⟨hlat, hlon, z, l, hz, hl, by linarith, by linarith⟩
  · have hnan : prayerGetTime (prayerTimesForConfig H cfg (mtCivilFromDays day).year
        (mtCivilFromDays day).month (mtCivilFromDays day).day) type = .nan := by
      have hbad : (!configLatitudeIsValid cfg.latitude || !configLongitudeIsValid cfg.longitude) =
          true := by
        rw [not_and_or] at hvalid
        simpa using hvalid
      rw [prayerTimesForConfig, if_pos hbad]
      cases type <;> rfl
    rw [hnan] at hpt
    cases hpt

/-- The stored zone offset, where it is used, keeps every minute of the enabled prayers inside
an `int`: the latest of them with a day to spare, the earliest with its reminders. -/
def OffsetFits (zoneExists : CString → Bool) (cfg : Config) : Prop :=
  configLatitudeIsValid cfg.latitude = true → configLongitudeIsValid cfg.longitude = true →
    zoneExists cfg.timezone.text = false → ∀ z l : ℚ, cfg.timezoneOffset.finite? = some z →
      cfg.longitude.finite? = some l → ∀ type, prayerIsEnabled cfg type = true →
        60 * (z - l / 15 + 61) + (prayerGetConfig cfg type).offset ≤ CMemory.intMax ∧
          ∀ r ∈ 0 :: (prayerGetConfig cfg type).reminders.items,
            CMemory.intMin + r - 1 < 60 * (z - l / 15 - 37) + (prayerGetConfig cfg type).offset

end Engine

section Bounds
variable {H : Host} {cfg : Config} {day : ℤ}

theorem longitude_bounds {longitude : Double} {l : ℚ}
    (h : configLongitudeIsValid longitude = true) (hl : longitude.finite? = some l) :
    -180 ≤ l ∧ l ≤ 180 := by
  obtain ⟨bounded, rfl⟩ := Double.eq_fin hl
  simpa [configLongitudeIsValid, Double.isfinite, Double.geRat, Double.leRat] using h

theorem prayerOffset_bounds (hrange : cfg.InRange) (type : PrayerType) :
    (-60 : ℚ) ≤ (prayerGetConfig cfg type).offset ∧
      ((prayerGetConfig cfg type).offset : ℚ) ≤ 60 := by
  have hoff := (hrange.prayers type).offset
  simp only [prayerOffsetMin, prayerOffsetMax] at hoff
  exact ⟨by exact_mod_cast hoff.1, by exact_mod_cast hoff.2⟩

/-- The offset of a zone that is known is small; one of the file is asked to be. -/
theorem offset_bounds (hrange : cfg.InRange) (hzone : InSeconds H.parseTimezoneOffset)
    (hfits : OffsetFits H.timezoneExists cfg) (hlat : configLatitudeIsValid cfg.latitude = true)
    (hlon : configLongitudeIsValid cfg.longitude = true) {z l : ℚ}
    (hz : (tzOffsetOfDay H cfg day).finite? = some z) (hl : cfg.longitude.finite? = some l)
    {type : PrayerType} (he : prayerIsEnabled cfg type = true) :
    60 * (z - l / 15 + 61) + (prayerGetConfig cfg type).offset ≤ CMemory.intMax ∧
      ∀ r ∈ 0 :: (prayerGetConfig cfg type).reminders.items,
        CMemory.intMin + r - 1 < 60 * (z - l / 15 - 37) + (prayerGetConfig cfg type).offset := by
  cases hknown : H.timezoneExists cfg.timezone.text with
  | false =>
      simp only [tzOffsetOfDay, effectiveTzOffset, hknown, Bool.not_false, if_true] at hz
      exact hfits hlat hlon hknown z l hz hl type he
  | true =>
      simp only [tzOffsetOfDay, effectiveTzOffset, hknown, Bool.not_true, Bool.false_eq_true,
        if_false] at hz
      obtain ⟨seconds, hs, hoffset⟩ := hzone cfg.timezone.text
        (mtDaysFromCivil (mtCivilFromDays day).year (mtCivilFromDays day).month
          (mtCivilFromDays day).day * 86400 + 43200)
      obtain rfl := Option.some.inj (hoffset.symm.trans hz)
      have hl' := longitude_bounds hlon hl
      obtain ⟨ho₀, ho₁⟩ := prayerOffset_bounds hrange type
      simp only [CMemory.intMin, CMemory.intMax] at hs ⊢
      have hs₀ : (-2 ^ 31 : ℚ) ≤ seconds := by exact_mod_cast hs.1
      have hs₁ : (seconds : ℚ) ≤ 2 ^ 31 - 1 := by exact_mod_cast hs.2
      push_cast
      refine ⟨by linarith, fun r hr => ?_⟩
      have hr₁ : (r : ℚ) ≤ 1440 := by
        rcases List.mem_cons.mp hr with rfl | hr
        · norm_num
        · exact_mod_cast ((hrange.prayers type).reminders r hr).2
      linarith

theorem dayDelta_bounds {δ : ℤ} (h : δ ∈ dayDeltas) : (-1 : ℚ) ≤ δ ∧ (δ : ℚ) ≤ 1 := by
  simp only [dayDeltas, List.mem_cons, List.not_mem_nil, or_false] at h
  rcases h with rfl | rfl | rfl <;> norm_num

theorem minutesFit_of_offset (hrange : cfg.InRange) (hnoon : NearNoon H.calculatePrayerTimes)
    (hzone : InSeconds H.parseTimezoneOffset) (hfits : OffsetFits H.timezoneExists cfg) :
    MinutesFit cfg fun δ => timesOfDay H cfg (day + δ) := by
  intro δ hδ type he pt hpt
  obtain ⟨hlat, hlon, z, l, hz, hl, hlo, hhi⟩ := time_window hnoon hpt
  obtain ⟨hmax, hmin⟩ := offset_bounds hrange hzone hfits hlat hlon hz hl he
  obtain ⟨hδ₀, hδ₁⟩ := dayDelta_bounds hδ
  refine ⟨Int.ceil_le.mpr (by linarith), fun r hr => ?_⟩
  have hr' := hmin r hr
  have : CMemory.intMin + r ≤ instantMin pt δ := by
    rw [instantMin, ← Int.sub_one_lt_iff, Int.lt_ceil]
    push_cast
    linarith
  omega

/-- Two answers of the zone database are never so far apart that the correction matters. -/
theorem shift_bounds {zoneOffset : CString → ℤ → Double} (hzone : InSeconds zoneOffset)
    (name : CString) (when : ℤ → ℤ) (δ : ℤ) :
    -71582790 ≤ shift (fun δ => zoneOffset name (when δ)) δ := by
  obtain ⟨s, hs, hoffset⟩ := hzone name (when δ)
  obtain ⟨s', hs', hoffset'⟩ := hzone name (when 0)
  obtain ⟨bounded, hx⟩ := Double.eq_fin hoffset
  obtain ⟨bounded', hy⟩ := Double.eq_fin hoffset'
  simp only [shift, hx, hy]
  have hnear := (abs_le.mp (llround_near ((s / 3600 - s' / 3600 : ℚ) * 60))).1
  have hs₀ : (CMemory.intMin : ℚ) ≤ s := by exact_mod_cast hs.1
  have hs₁ : (s' : ℚ) ≤ CMemory.intMax := by exact_mod_cast hs'.2
  simp only [CMemory.intMin, CMemory.intMax] at hs₀ hs₁
  push_cast at hs₀ hs₁
  have hle : ((-71582790 : ℤ) : ℚ) ≤ (llround ((s / 3600 - s' / 3600 : ℚ) * 60) : ℚ) := by
    push_cast
    linarith
  exact_mod_cast hle

/-- Where the zone is known, the minutes stay far from the ends of the type. -/
theorem known_zone_minutes (hrange : cfg.InRange) (hnoon : NearNoon H.calculatePrayerTimes)
    (hzone : InSeconds H.parseTimezoneOffset) (hknown : H.timezoneExists cfg.timezone.text = true)
    {δ : ℤ} (hδ : δ ∈ dayDeltas) {type : PrayerType} {pt : ℚ}
    (hpt : (prayerGetTime (timesOfDay H cfg (day + δ)) type).finite? = some pt) :
    instantMin pt δ ≤ 36000000 := by
  obtain ⟨hlat, hlon, z, l, hz, hl, -, hhi⟩ := time_window hnoon hpt
  have hl' := longitude_bounds hlon hl
  have hδ₁ := (dayDelta_bounds hδ).2
  have hoff := (prayerOffset_bounds hrange type).2
  simp only [tzOffsetOfDay, effectiveTzOffset, hknown, Bool.not_true, Bool.false_eq_true,
    if_false] at hz
  obtain ⟨s, hs, hoffset⟩ := hzone cfg.timezone.text
    (mtDaysFromCivil (mtCivilFromDays (day + δ)).year (mtCivilFromDays (day + δ)).month
      (mtCivilFromDays (day + δ)).day * 86400 + 43200)
  obtain rfl := Option.some.inj (hoffset.symm.trans hz)
  have hs₁ : (s : ℚ) ≤ CMemory.intMax := by exact_mod_cast hs.2
  simp only [CMemory.intMax] at hs₁
  push_cast at hs₁
  refine Int.ceil_le.mpr ?_
  push_cast
  linarith

/-- The correction for a change of offset is none when the file's offset is used. -/
theorem until_fits (hrange : cfg.InRange) (hnoon : NearNoon H.calculatePrayerTimes)
    (hzone : InSeconds H.parseTimezoneOffset) (hfits : OffsetFits H.timezoneExists cfg)
    {δ : ℤ} (hδ : δ ∈ dayDeltas) {type : PrayerType} (he : prayerIsEnabled cfg type = true)
    {pt : ℚ} (hpt : (prayerGetTime (timesOfDay H cfg (day + δ)) type).finite? = some pt)
    {nowMin : ℤ} (hnow : 0 ≤ nowMin) :
    untilMin nowMin (fun δ => tzOffsetOfDay H cfg (day + δ)) pt δ ≤ CMemory.intMax := by
  unfold untilMin
  cases hknown : H.timezoneExists cfg.timezone.text with
  | false =>
      have hint := MinutesFit.int (minutesFit_of_offset hrange hnoon hzone hfits) hδ he hpt
      have hsame : ∀ d, tzOffsetOfDay H cfg d = cfg.timezoneOffset := fun d => by
        simp [tzOffsetOfDay, effectiveTzOffset, hknown]
      have hshift : shift (fun δ => tzOffsetOfDay H cfg (day + δ)) δ = 0 := by
        simp only [shift, hsame]
        cases cfg.timezoneOffset with
        | fin q hq => simpa using llround_intCast 0
        | inf neg => rfl
        | nan => rfl
      rw [hshift]
      omega
  | true =>
      have hminutes := known_zone_minutes hrange hnoon hzone hknown hδ hpt
      have hoffsets : (fun δ => tzOffsetOfDay H cfg (day + δ)) = fun δ =>
          H.parseTimezoneOffset cfg.timezone.text
            (mtDaysFromCivil (mtCivilFromDays (day + δ)).year (mtCivilFromDays (day + δ)).month
              (mtCivilFromDays (day + δ)).day * 86400 + 43200) := by
        funext δ
        simp [tzOffsetOfDay, effectiveTzOffset, hknown]
      have hshift := shift_bounds hzone cfg.timezone.text (fun δ =>
        mtDaysFromCivil (mtCivilFromDays (day + δ)).year (mtCivilFromDays (day + δ)).month
          (mtCivilFromDays (day + δ)).day * 86400 + 43200) δ
      rw [hoffsets]
      simp only [CMemory.intMax]
      omega

end Bounds

section Edges

/-- An engine that gives every prayer a time at the edge of what is promised. -/
def edgeEngine (edge : ℚ → ℚ → ℚ) (_year _month _day : ℤ) (_latitude longitude timezone : Double)
    (_params : MethodParams) : PrayerTimes :=
  match timezone.finite?, longitude.finite? with
  | some z, some l =>
      let t := Double.ofRat (edge z l)
      ⟨t, t, t, t, t⟩
  | _, _ => ⟨.nan, .nan, .nan, .nan, .nan⟩

/-- The latest and the earliest time of a prayer that is still a `double` when it is moved by
its own offset. -/
def latest (z l : ℚ) : ℚ := min (z - l / 15 + 37) (dblMax - 1)

def earliest (z l : ℚ) : ℚ := max (z - l / 15 - 13) (1 - dblMax)

theorem finite_bounded {x : Double} {q : ℚ} (h : x.finite? = some q) : |q| ≤ dblMax := by
  obtain ⟨bounded, rfl⟩ := Double.eq_fin h
  exact bounded

theorem dblMax_big : (2 : ℚ) ^ 40 ≤ dblMax := by decide +kernel

/-- An edge inside the promised window makes an engine that keeps the promise. -/
theorem edgeEngine_nearNoon {edge : ℚ → ℚ → ℚ}
    (hedge : ∀ z l : ℚ, |z| ≤ dblMax → -180 ≤ l ∧ l ≤ 180 →
      z - l / 15 - 13 ≤ edge z l ∧ edge z l ≤ z - l / 15 + 37) :
    NearNoon (edgeEngine edge) := by
  intro year month day latitude longitude timezone params _ hlon
  cases hz : timezone.finite? with
  | none =>
      refine ⟨0, by norm_num, fun type t ht => ?_⟩
      simp only [edgeEngine, hz] at ht
      cases type <;> cases ht
  | some z =>
      cases hl : longitude.finite? with
      | none =>
          refine ⟨0, by norm_num, fun type t ht => ?_⟩
          simp only [edgeEngine, hz, hl] at ht
          cases type <;> cases ht
      | some l =>
          obtain ⟨hlo, hhi⟩ := hedge z l (finite_bounded hz)
            (longitude_bounds hlon hl)
          have htime : ∀ type t, (prayerGetTime (edgeEngine edge year month day latitude longitude
              timezone params) type).finite? = some t → t = edge z l := by
            intro type t ht
            have hone : prayerGetTime (edgeEngine edge year month day latitude longitude timezone
                params) type = .ofRat (edge z l) := by
              simp only [edgeEngine, hz, hl]
              cases type <;> rfl
            rw [hone, Double.ofRat] at ht
            split_ifs at ht
            · exact (Option.some.inj ht).symm
            · cases ht
          by_cases hside : 12 + z - l / 15 ≤ edge z l
          · refine ⟨-1, by norm_num, fun type t ht => ⟨z, l, rfl, rfl, ?_⟩⟩
            rw [htime type t ht, abs_le]
            constructor <;> linarith
          · refine ⟨1, by norm_num, fun type t ht => ⟨z, l, rfl, rfl, ?_⟩⟩
            rw [htime type t ht, abs_le]
            constructor <;> linarith

theorem latest_window {z l : ℚ} (hz : |z| ≤ dblMax) (hl : -180 ≤ l ∧ l ≤ 180) :
    z - l / 15 - 13 ≤ latest z l ∧ latest z l ≤ z - l / 15 + 37 := by
  have := abs_le.mp hz
  exact ⟨le_min (by linarith) (by linarith), min_le_left _ _⟩

theorem earliest_window {z l : ℚ} (hz : |z| ≤ dblMax) (hl : -180 ≤ l ∧ l ≤ 180) :
    z - l / 15 - 13 ≤ earliest z l ∧ earliest z l ≤ z - l / 15 + 37 := by
  have := abs_le.mp hz
  exact ⟨le_max_left _ _, max_le (by linarith) (by linarith)⟩

variable {cfg : Config} {zoneExists : CString → Bool} {zoneOffset : CString → ℤ → Double}

/-- The time such an engine gives a prayer, with the prayer's own offset. -/
theorem edge_time {edge : ℚ → ℚ → ℚ} (hrange : cfg.InRange)
    (hlat : configLatitudeIsValid cfg.latitude = true)
    (hlon : configLongitudeIsValid cfg.longitude = true)
    (hunknown : zoneExists cfg.timezone.text = false) {z l : ℚ}
    (hz : cfg.timezoneOffset.finite? = some z) (hl : cfg.longitude.finite? = some l)
    (hedge : |edge z l| ≤ dblMax - 1) (day : ℤ) (type : PrayerType) :
    (prayerGetTime (timesOfDay (.insertionSorting (edgeEngine edge) zoneExists zoneOffset) cfg day)
      type).finite? = some (edge z l + (prayerGetConfig cfg type).offset / 60) := by
  have htz : ∀ year month day, effectiveTzOffset
      (.insertionSorting (edgeEngine edge) zoneExists zoneOffset) cfg year month day =
        cfg.timezoneOffset := fun year month day => by
    simp [effectiveTzOffset, Host.insertionSorting, hunknown]
  have hone : ∀ year month day params, prayerGetTime (edgeEngine edge year month day cfg.latitude
      cfg.longitude cfg.timezoneOffset params) type = .ofRat (edge z l) := by
    intro year month day params
    simp only [edgeEngine, hz, hl]
    cases type <;> rfl
  obtain ⟨ho₀, ho₁⟩ := prayerOffset_bounds hrange type
  have hb := abs_le.mp hedge
  have hmoved : |edge z l + (prayerGetConfig cfg type).offset / 60| ≤ dblMax :=
    abs_le.mpr ⟨by linarith, by linarith⟩
  rw [timesOfDay, prayerGetTime_forConfig hlat hlon, htz]
  have hengine : Host.calculatePrayerTimes
    (.insertionSorting (edgeEngine edge) zoneExists zoneOffset) = edgeEngine edge := rfl
  rw [hengine, hone, Double.ofRat_of_le (hedge.trans (by linarith)), Double.addRat,
    Double.ofRat_of_le hmoved]
  rfl

theorem latest_bounded {z l : ℚ} (hz : |z| ≤ dblMax) (hl : -180 ≤ l ∧ l ≤ 180) :
    |latest z l| ≤ dblMax - 1 := by
  have := abs_le.mp hz
  have hbig := dblMax_big
  exact abs_le.mpr ⟨le_min (by linarith) (by linarith), min_le_right _ _⟩

theorem earliest_bounded {z l : ℚ} (hz : |z| ≤ dblMax) (hl : -180 ≤ l ∧ l ≤ 180) :
    |earliest z l| ≤ dblMax - 1 := by
  have := abs_le.mp hz
  have hbig := dblMax_big
  exact abs_le.mpr ⟨(le_max_right _ _).trans' (by linarith), max_le (by linarith) (by linarith)⟩

/-- With the latest times the offset keeps the latest minute inside the type. -/
theorem latest_fits {day : ℤ} (hrange : cfg.InRange)
    (hlat : configLatitudeIsValid cfg.latitude = true)
    (hlon : configLongitudeIsValid cfg.longitude = true)
    (hunknown : zoneExists cfg.timezone.text = false) {z l : ℚ}
    (hz : cfg.timezoneOffset.finite? = some z) (hl : cfg.longitude.finite? = some l)
    {type : PrayerType} (he : prayerIsEnabled cfg type = true)
    (hfit : MinutesFit cfg fun δ =>
      timesOfDay (.insertionSorting (edgeEngine latest) zoneExists zoneOffset) cfg (day + δ)) :
    60 * (z - l / 15 + 61) + (prayerGetConfig cfg type).offset ≤ CMemory.intMax := by
  have hl' := longitude_bounds hlon hl
  have hbig := dblMax_big
  obtain ⟨ho₀, ho₁⟩ := prayerOffset_bounds hrange type
  have hminute := (hfit 1 (by decide) type he _ (edge_time hrange hlat hlon hunknown hz hl
    (latest_bounded (finite_bounded hz) hl') _ type)).1
  rw [instantMin, Int.ceil_le] at hminute
  push_cast at hminute
  rcases min_choice (z - l / 15 + 37) (dblMax - 1) with hedge | hedge
  · rw [latest, hedge] at hminute
    linarith
  · -- at the end of the doubles the minute is far out of range
    rw [latest, hedge] at hminute
    simp only [CMemory.intMax] at hminute
    push_cast at hminute
    linarith

/-- With the earliest times it keeps the earliest reminder inside the type. -/
theorem earliest_fits {day : ℤ} (hrange : cfg.InRange)
    (hlat : configLatitudeIsValid cfg.latitude = true)
    (hlon : configLongitudeIsValid cfg.longitude = true)
    (hunknown : zoneExists cfg.timezone.text = false) {z l : ℚ}
    (hz : cfg.timezoneOffset.finite? = some z) (hl : cfg.longitude.finite? = some l)
    {type : PrayerType} (he : prayerIsEnabled cfg type = true)
    (hfit : MinutesFit cfg fun δ =>
      timesOfDay (.insertionSorting (edgeEngine earliest) zoneExists zoneOffset) cfg (day + δ))
    {r : ℤ} (hr : r ∈ 0 :: (prayerGetConfig cfg type).reminders.items) :
    CMemory.intMin + r - 1 < 60 * (z - l / 15 - 37) + (prayerGetConfig cfg type).offset := by
  have hl' := longitude_bounds hlon hl
  have hbig := dblMax_big
  obtain ⟨ho₀, ho₁⟩ := prayerOffset_bounds hrange type
  have hminute := (hfit (-1) (by decide) type he _ (edge_time hrange hlat hlon hunknown hz hl
    (earliest_bounded (finite_bounded hz) hl') _ type)).2 r hr
  have hlt : CMemory.intMin + r - 1 < instantMin
      (earliest z l + (prayerGetConfig cfg type).offset / 60) (-1) := by
    omega
  rw [instantMin, Int.lt_ceil] at hlt
  push_cast at hlt
  rcases max_choice (z - l / 15 - 13) (1 - dblMax) with hedge | hedge
  · rw [earliest, hedge] at hlt
    linarith
  · rw [earliest, hedge] at hlt
    have hr₀ : (0 : ℚ) ≤ r := by
      rcases List.mem_cons.mp hr with rfl | hr
      · norm_num
      · have := (hrange.prayers type).reminders r hr
        exact_mod_cast (by omega : 0 ≤ r)
    simp only [CMemory.intMin] at hlt
    push_cast at hlt
    linarith

end Edges

/-- No conversion leaves its type, for any engine that keeps its promise, exactly when the
offset that the file stores for an unknown zone is small enough. -/
theorem conversions_fit_iff (zoneExists : CString → Bool) (zoneOffset : CString → ℤ → Double)
    (hzone : InSeconds zoneOffset) {file : Option CString} {opens : Bool} {cfg : Config}
    (hload : configLoad file opens = some cfg) (day : ℤ) :
    (∀ H : Host, H.timezoneExists = zoneExists → H.parseTimezoneOffset = zoneOffset →
      NearNoon H.calculatePrayerTimes → ∀ now, 0 ≤ now ∧ now < 1440 →
        ConversionsFit H cfg day now) ↔ OffsetFits zoneExists cfg := by
  have hrange : cfg.InRange := configLoad_inRange hload
  constructor
  · intro h hlat hlon hunknown z l hz hl type he
    have hlatest := of_candidatesAt (h (.insertionSorting (edgeEngine latest) zoneExists zoneOffset)
      rfl rfl (edgeEngine_nearNoon fun z l => latest_window) 0 (by decide)).list
    have hearliest := of_candidatesAt (h
      (.insertionSorting (edgeEngine earliest) zoneExists zoneOffset) rfl rfl
      (edgeEngine_nearNoon fun z l => earliest_window) 0 (by decide)).list
    exact ⟨latest_fits hrange hlat hlon hunknown hz hl he hlatest, fun r hr =>
      earliest_fits hrange hlat hlon hunknown hz hl he hearliest hr⟩
  · rintro hfits H rfl rfl hnoon now ⟨hnow, -⟩
    have hminutes : MinutesFit cfg fun δ => timesOfDay H cfg (day + δ) :=
      minutesFit_of_offset hrange hnoon hzone hfits
    exact ⟨candidatesAt_ok hrange hminutes, nextAt_ok hminutes fun δ hδ type he pt hpt =>
      until_fits hrange hnoon hzone hfits hδ he hpt hnow⟩

/-- The offset that an early file has for a zone nobody knows, in hours. -/
def farOffsetFile : CString :=
  ascii ("\x7b\"location\": \x7b\"latitude\": 21.4, \"longitude\": 39.75, " ++
    "\"timezone\": \"Mars/Olympus\", \"timezone_offset\": 100000000\x7d\x7d")

def farOffset : Config :=
  { configDefault with
    latitude := .ofRat 21.4
    longitude := .ofRat 39.75
    timezone := copyString 64 (ascii "Mars/Olympus")
    timezoneOffset := .ofRat 100000000 }

/-- A host without a zone database whose engine puts every prayer at noon. -/
def noonHost : Host :=
  .insertionSorting (edgeEngine fun z l => 12 + z - l / 15) (fun _ => false) fun _ _ => .zero

theorem noonHost_nearNoon : NearNoon noonHost.calculatePrayerTimes :=
  edgeEngine_nearNoon fun z l _ _ => ⟨by linarith, by linarith⟩

theorem noonHost_inSeconds : InSeconds noonHost.parseTimezoneOffset :=
  fun _ _ => ⟨0, by decide, (by decide +kernel : Double.zero.finite? = some (((0 : ℤ) : ℚ) / 3600))⟩

theorem far_offset_overflows :
    configLoad (some farOffsetFile) true = some farOffset ∧
      NearNoon noonHost.calculatePrayerTimes ∧ InSeconds noonHost.parseTimezoneOffset ∧
      ¬ConversionsFit noonHost farOffset 20621 720 := by
  have hload : configLoad (some farOffsetFile) true = some farOffset := by decide +kernel
  have hfault : candidatesAt farOffset (fun δ => timesOfDay noonHost farOffset (20621 + δ)) 720 =
      .error .signedOverflow := by
    decide +kernel
  refine ⟨hload, noonHost_nearNoon, noonHost_inSeconds, fun h => ?_⟩
  have hlist := h.list
  rw [hfault] at hlist
  cases hlist

/-- The greatest quarter of an hour that fits at this longitude. -/
def greatestOffsetFile : CString :=
  ascii ("\x7b\"location\": \x7b\"latitude\": 21.4, \"longitude\": 39.75, " ++
    "\"timezone\": \"Mars/Olympus\", \"timezone_offset\": 35791335.75\x7d\x7d")

def greatestOffset : Config := { farOffset with timezoneOffset := .ofRat 35791335.75 }

theorem conversions_fit_iff_greatest :
    configLoad (some greatestOffsetFile) true = some greatestOffset ∧
      OffsetFits (fun _ => false) greatestOffset ∧
      ¬OffsetFits (fun _ => false) { greatestOffset with timezoneOffset := .ofRat 35791336 } ∧
      ConversionsFit noonHost greatestOffset 20621 720 := by
  have hload : configLoad (some greatestOffsetFile) true = some greatestOffset := by decide +kernel
  have hlongitude : greatestOffset.longitude.finite? = some (159 / 4) := by decide +kernel
  have hfits : OffsetFits (fun _ => false) greatestOffset := by
    intro _ _ _ z l hz hl type _
    obtain rfl : (143165343 / 4 : ℚ) = z := Option.some.inj ((by decide +kernel :
      greatestOffset.timezoneOffset.finite? = some (143165343 / 4)).symm.trans hz)
    obtain rfl : (159 / 4 : ℚ) = l := Option.some.inj (hlongitude.symm.trans hl)
    cases type <;> decide +kernel
  refine ⟨hload, hfits, fun h => ?_, ?_⟩
  · have hlatest := (h (by decide +kernel) (by decide +kernel) rfl 35791336 (159 / 4)
      (by decide +kernel) hlongitude .fajr (by decide +kernel)).1
    exact absurd hlatest (by decide +kernel)
  · exact (conversions_fit_iff (fun _ => false) (fun _ _ => .zero) noonHost_inSeconds
      hload 20621).mpr hfits noonHost rfl rfl noonHost_nearNoon 720 (by decide)

end Muslimtify.MinuteRange
