import Muslimtify.DateRange

/-!
# The date on the command line

A date is given as `yyyy-mm-dd`, with fewer digits if need be. The numbers are
read by `strtol`, which by itself takes white space, a sign and any number of
digits: a field has to begin with a digit, and how far `strtol` went is compared
with the width of the field. Whether there is such a date is for the library to
say.
-/
namespace Muslimtify.DateArgument
open CText CivilDays Calendar DateRange
open Detection (MuslimtifyError)

section Reading

def dash : UInt8 := 0x2d

/-- The number of a field and what follows it. -/
def parseField (s : CString) (maxdigits : ℕ) (min max : ℤ) : Option (ℤ × CString) :=
  match s with
  | [] => none
  | c :: _ =>
      if c < 0x30 ∨ 0x39 < c then none
      else
        let v := strtolEnd s
        if maxdigits < s.length - v.2.length ∨ v.1 < min ∨ max < v.1 then none else some v

/-- What follows a dash. -/
def afterDash : CString → Option CString
  | [] => none
  | c :: s => if c ≠ dash then none else some s

/-- A null pointer is `none`. -/
def parseDate (s : Option CString) : Option CivilDate := do
  let s ← s
  let (yy, s) ← parseField s 4 0 9999
  let s ← afterDash s
  let (mm, s) ← parseField s 2 0 99
  let s ← afterDash s
  let (dd, s) ← parseField s 2 0 99
  if s ≠ [] then none else some ⟨yy, mm, dd⟩

/-- What `handle_show` takes for a date of its own. -/
def showDate (s : Option CString) : Option CivilDate := do
  let date ← parseDate s
  if (muslimtifyCheckRange date date 0).1 ≠ .ok then none else some date

end Reading

section Grammar

/-- From one to `width` digits. -/
structure Digits (width : ℕ) (ds : CString) : Prop where
  some_digit : ds ≠ []
  digits : ∀ c ∈ ds, isDigit c = true
  fits : ds.length ≤ width

/-- The text of a date, with the three numbers in it. -/
def DateText (s : CString) (t : CivilDate) : Prop :=
  ∃ ys ms ds, s = ys ++ dash :: (ms ++ dash :: ds) ∧ Digits 4 ys ∧ Digits 2 ms ∧ Digits 2 ds ∧
    t = ⟨digitsValue ys, digitsValue ms, digitsValue ds⟩

theorem digitValue_lt {c : UInt8} (h : isDigit c = true) : digitValue c < 10 := by
  simp only [isDigit, Bool.and_eq_true, decide_eq_true_eq, UInt8.le_iff_toNat_le,
    UInt8.reduceToNat] at h
  unfold digitValue
  omega

theorem digitsValue_lt {ds : CString} (h : ∀ c ∈ ds, isDigit c = true) :
    digitsValue ds < 10 ^ ds.length := by
  induction ds using List.reverseRecOn with
  | nil => decide
  | append_singleton ds c ih =>
      have hinit := ih fun d hd => h d (by simp [hd])
      have hlast := digitValue_lt (h c (by simp))
      have hone : digitsValue [c] = digitValue c := by simp [digitsValue]
      rw [digitsValue_append, hone, List.length_append, List.length_singleton, pow_one, pow_succ]
      omega

/-- A text is its digits and what follows them. -/
theorem digits_append_rest (s : CString) : ∃ ds rest, s = ds ++ rest ∧
    (∀ c ∈ ds, isDigit c = true) ∧ NoDigitHead rest := by
  refine ⟨s.takeWhile isDigit, s.dropWhile isDigit, List.takeWhile_append_dropWhile.symm,
    fun c hc => List.mem_takeWhile_imp hc, fun c t hrest => ?_⟩
  have hhead := List.head?_dropWhile_not isDigit s
  rw [hrest] at hhead
  simpa using hhead

theorem digit_bounds {c : UInt8} : isDigit c = true ↔ ¬(c < 0x30 ∨ 0x39 < c) := by
  simp only [isDigit, Bool.and_eq_true, decide_eq_true_eq, not_or, UInt8.not_lt]

/-- A run of digits that is not too wide is the number of the field. -/
theorem parseField_digits {ds rest : CString} {width : ℕ} {top : ℤ} (hwidth : width ≤ 18)
    (htop : top = 10 ^ width - 1) (hne : ds ≠ []) (hd : ∀ c ∈ ds, isDigit c = true)
    (hrest : NoDigitHead rest) : parseField (ds ++ rest) width 0 top =
      if ds.length ≤ width then some ((digitsValue ds : ℤ), rest) else none := by
  have hread := strtolEnd_digits hne hd hrest
  have hwide : (ds ++ rest).length - rest.length = ds.length := by
    rw [List.length_append, Nat.add_sub_cancel]
  have hlt := digitsValue_lt hd
  obtain ⟨c, t, rfl⟩ := List.exists_cons_of_ne_nil hne
  have hc := digit_bounds.mp (hd c List.mem_cons_self)
  rw [List.cons_append] at hread hwide ⊢
  rw [parseField, if_neg hc, hread]
  dsimp only
  rw [hwide]
  by_cases hfits : (c :: t).length ≤ width
  · -- the width keeps the number within a `long`, and within the bounds
    have hpow : 10 ^ (c :: t).length ≤ 10 ^ width := Nat.pow_le_pow_right (by decide) hfits
    have hlong : 10 ^ width ≤ 10 ^ 18 := Nat.pow_le_pow_right (by decide) hwidth
    have hcast : ((10 ^ width : ℕ) : ℤ) = top + 1 := by
      rw [htop]
      push_cast
      ring
    have hvalue : strtol (c :: t) = digitsValue (c :: t) := by
      rw [strtol_digits hne hd]
      simp only [longMin, longMax]
      omega
    rw [hvalue, if_pos hfits, if_neg]
    omega
  · rw [if_pos (.inl (not_le.mp hfits)), if_neg hfits]

theorem parseField_noDigit {s : CString} (h : NoDigitHead s) (width : ℕ) (top : ℤ) :
    parseField s width 0 top = none := by
  cases s with
  | nil => rfl
  | cons c s =>
      rw [parseField, if_pos]
      by_contra hdigit
      rw [← digit_bounds, h c s rfl] at hdigit
      cases hdigit

theorem parseField_iff {s rest : CString} {width : ℕ} {v top : ℤ} (hwidth : width ≤ 18)
    (htop : top = 10 ^ width - 1) : parseField s width 0 top = some (v, rest) ↔
      ∃ ds, s = ds ++ rest ∧ Digits width ds ∧ NoDigitHead rest ∧ v = digitsValue ds := by
  constructor
  · intro h
    obtain ⟨ds, rest', rfl, hd, hrest⟩ := digits_append_rest s
    by_cases hne : ds = []
    · rw [hne, List.nil_append, parseField_noDigit hrest] at h
      cases h
    · rw [parseField_digits hwidth htop hne hd hrest] at h
      split_ifs at h with hfits
      obtain ⟨rfl, rfl⟩ := Prod.mk.inj (Option.some.inj h)
      exact ⟨ds, rfl, ⟨hne, hd, hfits⟩, hrest, rfl⟩
  · rintro ⟨ds, rfl, hds, hrest, rfl⟩
    rw [parseField_digits hwidth htop hds.some_digit hds.digits hrest, if_pos hds.fits]

theorem afterDash_iff {s rest : CString} : afterDash s = some rest ↔ s = dash :: rest := by
  cases s with
  | nil => simp [afterDash]
  | cons c s =>
      rw [afterDash]
      split_ifs with hc
      · simp [hc]
      · rw [not_not.mp hc]
        simp

theorem noDigitHead_dash (s : CString) : NoDigitHead (dash :: s) := noDigitHead_cons (by decide)

theorem parseDate_iff {s : CString} {t : CivilDate} :
    parseDate (some s) = some t ↔ DateText s t := by
  unfold parseDate
  constructor
  · intro h
    obtain ⟨s', hs', h⟩ := Option.bind_eq_some_iff.mp h
    obtain rfl := Option.some.inj hs'
    obtain ⟨⟨yy, s₁⟩, hyear, h⟩ := Option.bind_eq_some_iff.mp h
    obtain ⟨s₂, hdash, h⟩ := Option.bind_eq_some_iff.mp h
    obtain ⟨⟨mm, s₃⟩, hmonth, h⟩ := Option.bind_eq_some_iff.mp h
    obtain ⟨s₄, hdash', h⟩ := Option.bind_eq_some_iff.mp h
    obtain ⟨⟨dd, s₅⟩, hday, h⟩ := Option.bind_eq_some_iff.mp h
    obtain ⟨ys, rfl, hys, -, rfl⟩ := (parseField_iff (by decide) (by decide)).mp hyear
    obtain rfl := afterDash_iff.mp hdash
    obtain ⟨ms, rfl, hms, -, rfl⟩ := (parseField_iff (by decide) (by decide)).mp hmonth
    obtain rfl := afterDash_iff.mp hdash'
    obtain ⟨ds, rfl, hds, -, rfl⟩ := (parseField_iff (by decide) (by decide)).mp hday
    dsimp only at h
    split_ifs at h with hend
    refine ⟨ys, ms, ds, ?_, hys, hms, hds, (Option.some.inj h).symm⟩
    rw [not_not.mp hend, List.append_nil]
  · rintro ⟨ys, ms, ds, rfl, hys, hms, hds, rfl⟩
    have hyear := (parseField_iff (by decide) (by decide : (9999 : ℤ) = 10 ^ 4 - 1)).mpr
      ⟨ys, rfl, hys, noDigitHead_dash (ms ++ dash :: ds), rfl⟩
    have hmonth := (parseField_iff (by decide) (by decide : (99 : ℤ) = 10 ^ 2 - 1)).mpr
      ⟨ms, rfl, hms, noDigitHead_dash ds, rfl⟩
    have hday := (parseField_iff (by decide) (by decide : (99 : ℤ) = 10 ^ 2 - 1)).mpr
      ⟨ds, (List.append_nil ds).symm, hds, noDigitHead_nil, rfl⟩
    have hdash : ∀ rest, afterDash (dash :: rest) = some rest := fun _ => afterDash_iff.mpr rfl
    simp only [Option.bind_eq_bind, Option.bind_some, hyear, hdash, hmonth, hday]
    rfl

end Grammar

section Dates

/-- A range of one day is in order and short, so that only its date is in question. -/
theorem checkRange_self_iff {t : CivilDate} :
    (muslimtifyCheckRange t t 0).1 = .ok ↔ InCalendar t := by
  constructor
  · intro h
    have hrange : muslimtifyCheckRange t t 0 = (.ok, (muslimtifyCheckRange t t 0).2) := by
      rw [← h]
    exact (muslimtifyCheckRange_ok.mp hrange).1
  · intro h
    rw [muslimtifyCheckRange_ok.mpr ⟨h, h, 0, rfl, rfl, by decide⟩]

theorem showDate_iff {s : CString} {t : CivilDate} :
    showDate (some s) = some t ↔ parseDate (some s) = some t ∧ InCalendar t := by
  unfold showDate
  constructor
  · intro h
    obtain ⟨date, hparse, h⟩ := Option.bind_eq_some_iff.mp h
    split_ifs at h with hcheck
    obtain rfl := Option.some.inj h
    exact ⟨hparse, checkRange_self_iff.mp (not_not.mp hcheck)⟩
  · rintro ⟨hparse, hdate⟩
    rw [hparse, Option.bind_eq_bind, Option.bind_some, if_neg]
    exact not_not.mpr (checkRange_self_iff.mpr hdate)

/-- A text that is a date is read with its numbers, no other is read, and `show` takes those that
the calendar has. -/
theorem show_date_accepts (s : CString) (t : CivilDate) :
    (parseDate (some s) = some t ↔ DateText s t) ∧
      (showDate (some s) = some t ↔ DateText s t ∧ InCalendar t) := by
  refine ⟨parseDate_iff, ?_⟩
  rw [showDate_iff, parseDate_iff]

example : showDate (some (ascii "2024-2-29")) = some ⟨2024, 2, 29⟩ := by decide +kernel

end Dates

end Muslimtify.DateArgument
