import Muslimtify.ConfigRoundTrip
import Muslimtify.Schedule

/-!
# What saving does to the schedule

Three places ask whether the calculation method is a custom one. The schedule
takes every name that is not in the table, whatever its case. The reader takes
the angles whenever they stand in the file. The writer keeps them only for the
name `custom` exactly.

So the schedule survives a save and a load for every method of the table. For
another name it depends on the angles: a positive one must not be lost.
-/
namespace Muslimtify.ScheduleKept
open CText CDouble Settings ConfigFile ConfigRoundTrip Schedule

/-- The parameters with the angles as six decimals show them. -/
def toSixDecimals (params : MethodParams) : MethodParams :=
  { params with
    fajrAngle := params.fajrAngle.rounded 6
    ishaAngle := params.ishaAngle.rounded 6 }

/-- Two configurations have the same parameters, custom angles up to six decimals. -/
def SameSchedule (a b : Config) : Prop :=
  if methodFromString a.calculationMethod.text = .custom then
    toSixDecimals (methodParamsFromConfig b) = toSixDecimals (methodParamsFromConfig a)
  else methodParamsFromConfig b = methodParamsFromConfig a

section Angles

/-- The angle a custom method works with, by its own and the configured one. -/
def angleInUse (own angle : Double) : Double := if angle.isPos then angle else own

/-- A positive angle is not lost by a save: under the name `custom` its six decimals
are positive, and under another name they are those of the method's own angle. -/
def AngleKept (cfg : Config) (own angle : Double) : Prop :=
  angle.isPos = true →
    if isCustom cfg then (angle.rounded 6).isPos = true else angle.rounded 6 = own.rounded 6

theorem isPos_of_rounded {k : ℕ} {x : Double} (h : (x.rounded k).isPos = true) :
    x.isPos = true := by
  cases x with
  | fin q hq =>
      simp only [Double.rounded, Double.isPos, decide_eq_true_eq] at h ⊢
      by_contra hneg
      rcases lt_or_eq_of_le (not_lt.mp hneg) with hlt | rfl
      · rw [roundTo, if_pos hlt, neg_pos] at h
        have : (0 : ℚ) ≤ (roundHalfEven (-q * 10 ^ k) : ℚ) / 10 ^ k := by positivity
        linarith
      · simp [roundTo, roundHalfEven] at h
  | inf s => exact h
  | nan => exact h

/-- What the schedule uses of an angle after a save and a load, against what it
used before. -/
theorem angleInUse_stored_iff (cfg : Config) {own : Double} (angle : Double)
    (hown : (own.rounded 6).isPos = true) :
    (angleInUse own (storedAngle cfg angle .zero)).rounded 6 =
      (angleInUse own angle).rounded 6 ↔ AngleKept cfg own angle := by
  unfold AngleKept storedAngle angleInUse
  cases hpos : angle.isPos with
  | false =>
      have hrounded : (angle.rounded 6).isPos = false := by
        by_contra h
        rw [isPos_of_rounded (Bool.not_eq_false _ ▸ h)] at hpos
        cases hpos
      have hzero : Double.zero.isPos = false := by decide
      cases isCustom cfg <;> simp [hrounded, hzero]
  | true =>
      cases isCustom cfg with
      | false =>
          have hzero : Double.zero.isPos = false := by decide
          simp only [hzero, Bool.false_eq_true, if_false, if_true, forall_true_left]
          exact eq_comm
      | true =>
          cases hrounded : (angle.rounded 6).isPos with
          | true => simp [hrounded, Double.rounded_idem]
          | false =>
              simp only [if_true, hrounded, Bool.false_eq_true, if_false, forall_true_left,
                iff_false]
              intro heq
              rw [heq, hrounded] at hown
              cases hown

end Angles

section Params
variable {cfg : Config}

theorem methodParams_custom (h : methodFromString cfg.calculationMethod.text = .custom) :
    methodParamsFromConfig cfg =
      { methodParamsGet .custom with
        asrShadow := if cfg.madhab.text = ascii "hanafi" then asrHanafi else asrStandard
        fajrAngle := angleInUse (.ofRat 18) cfg.fajrAngle
        ishaAngle := angleInUse (.ofRat 17) cfg.ishaAngle } := by
  simp only [methodParamsFromConfig, h, if_true, angleInUse]
  split_ifs <;> rfl

theorem methodParams_table {other : Config}
    (h : methodFromString cfg.calculationMethod.text ≠ .custom)
    (hmethod : other.calculationMethod = cfg.calculationMethod)
    (hmadhab : other.madhab = cfg.madhab) :
    methodParamsFromConfig other = methodParamsFromConfig cfg := by
  simp only [methodParamsFromConfig, hmethod, hmadhab, if_neg h]

/-- The angles survive whenever the schedule reads them. -/
def AnglesKept (cfg : Config) : Prop :=
  methodFromString cfg.calculationMethod.text = .custom →
    AngleKept cfg (.ofRat 18) cfg.fajrAngle ∧ AngleKept cfg (.ofRat 17) cfg.ishaAngle

theorem sameSchedule_stored_iff : SameSchedule cfg (storedConfig cfg) ↔ AnglesKept cfg := by
  unfold SameSchedule AnglesKept
  by_cases hmethod : methodFromString cfg.calculationMethod.text = .custom
  · have hstored : methodParamsFromConfig (storedConfig cfg) =
        { methodParamsGet .custom with
          asrShadow := if cfg.madhab.text = ascii "hanafi" then asrHanafi else asrStandard
          fajrAngle := angleInUse (.ofRat 18) (storedAngle cfg cfg.fajrAngle .zero)
          ishaAngle := angleInUse (.ofRat 17) (storedAngle cfg cfg.ishaAngle .zero) } :=
      @methodParams_custom (storedConfig cfg) hmethod
    have hfajr : ((Double.ofRat 18).rounded 6).isPos = true := by decide +kernel
    have hisha : ((Double.ofRat 17).rounded 6).isPos = true := by decide +kernel
    rw [if_pos hmethod, methodParams_custom hmethod, hstored]
    simp only [toSixDecimals, MethodParams.mk.injEq, true_and, and_true, hmethod, forall_true_left]
    rw [← angleInUse_stored_iff cfg cfg.fajrAngle hfajr,
      ← angleInUse_stored_iff cfg cfg.ishaAngle hisha]
  · rw [if_neg hmethod]
    simp only [hmethod, false_implies, iff_true]
    exact methodParams_table hmethod rfl rfl

end Params

/-- A save and a load keep the schedule exactly when they keep the angles. -/
theorem schedule_kept_iff {file : Option CString} {opens : Bool} {cfg : Config}
    (hload : configLoad file opens = some cfg) :
    (∃ loaded, configLoad (some (configText cfg)) true = some loaded ∧
      SameSchedule cfg loaded) ↔ AnglesKept cfg := by
  rw [← sameSchedule_stored_iff, configLoad_configText (configLoad_inRange hload)]
  simp only [Option.some.injEq, exists_eq_left']

/-- A file that asks for a fajr angle of 15 degrees by that name of the method. -/
def angleFile (method : String) : CString :=
  ascii "\x7b\"calculation\": \x7b\"method\": \"" ++ ascii method ++
    ascii "\", \"fajr_angle\": 15\x7d\x7d"

def angleConfig (method : String) : Config :=
  { configDefault with
    calculationMethod := copyString 32 (ascii method)
    fajrAngle := .ofRat 15 }

theorem schedule_kept_custom :
    (∃ loaded, configLoad (some (configText (angleConfig "custom"))) true = some loaded ∧
      SameSchedule (angleConfig "custom") loaded) ↔ AnglesKept (angleConfig "custom") :=
  schedule_kept_iff (show configLoad (some (angleFile "custom")) true = _ by decide +kernel)

/-- Under the name `Custom` the angle is in use until the first save. -/
theorem schedule_lost_custom :
    ∃ cfg loaded, configLoad (some (angleFile "Custom")) true = some cfg ∧
      configLoad (some (configText cfg)) true = some loaded ∧ ¬SameSchedule cfg loaded := by
  have hload : configLoad (some (angleFile "Custom")) true = some (angleConfig "Custom") := by
    decide +kernel
  refine ⟨_, _, hload, configLoad_configText (configLoad_inRange hload), ?_⟩
  unfold SameSchedule
  decide +kernel

end Muslimtify.ScheduleKept
