import Muslimtify.CText

/-!
# The C type `double` in exact arithmetic

A finite `double` is the rational number it denotes, no larger than `DBL_MAX`,
and arithmetic on finite values is exact: a result is not rounded to the 53 bits
of the format. `Binary64` has that rounding, for what turns on it. What is kept
here is that a `double` need not be finite, that comparisons with a NaN are
false, and that a literal at or past the overflow threshold reads as infinite.

`%.kf` rounds the exact value to `k` decimals, ties to even, and `strtod` reads
decimal and hexadecimal literals, `inf` and `nan`, as the numbers they denote.
Printing and reading back is rounding to `k` decimals, which changes nothing the
second time.
-/
namespace Muslimtify.CDouble
open CText

/-- `DBL_MAX` -/
def dblMax : ℚ := 2 ^ 1024 - 2 ^ 971

inductive Double where
  | fin (q : ℚ) (bounded : |q| ≤ dblMax)
  | inf (neg : Bool)
  | nan
  deriving DecidableEq, Repr

namespace Double

/-- The `double` an exact result is, infinite when it overflows. -/
def ofRat (q : ℚ) : Double := if h : |q| ≤ dblMax then fin q h else inf (decide (q < 0))

theorem ofRat_of_le {q : ℚ} (h : |q| ≤ dblMax) : ofRat q = fin q h := dif_pos h

theorem zero_le_dblMax : 0 ≤ dblMax :=
  sub_nonneg.mpr (pow_le_pow_right₀ (by norm_num) (by norm_num))

def zero : Double := fin 0 (by simpa using zero_le_dblMax)

instance : Inhabited Double := ⟨zero⟩

def isfinite : Double → Bool
  | fin _ _ => true
  | _ => false

def neg : Double → Double
  | fin q h => fin (-q) (by rwa [abs_neg])
  | inf s => inf (!s)
  | nan => nan

/-- `x + q` for a finite constant `q`. -/
def addRat (x : Double) (q : ℚ) : Double :=
  match x with
  | fin p _ => ofRat (p + q)
  | inf s => inf s
  | nan => nan

/-- `x >= q`, false for a NaN. -/
def geRat : Double → ℚ → Bool
  | fin p _, q => q ≤ p
  | inf s, _ => !s
  | nan, _ => false

/-- `x <= q`, false for a NaN. -/
def leRat : Double → ℚ → Bool
  | fin p _, q => p ≤ q
  | inf s, _ => s
  | nan, _ => false

/-- `x > 0`, false for a NaN. -/
def isPos : Double → Bool
  | fin p _ => 0 < p
  | inf s => !s
  | nan => false

/-- `fabs(x) < q` -/
def absLt : Double → ℚ → Bool
  | fin p _, q => |p| < q
  | _, _ => false

/-- The number a finite value denotes. -/
def finite? : Double → Option ℚ
  | fin q _ => some q
  | _ => none

theorem addRat_zero (x : Double) : x.addRat 0 = x := by
  cases x with
  | fin q h => simp only [addRat, add_zero, ofRat_of_le h]
  | inf s => rfl
  | nan => rfl

theorem eq_fin {x : Double} {q : ℚ} (h : x.finite? = some q) : ∃ bounded, x = fin q bounded := by
  cases x with
  | fin p bounded =>
      obtain rfl := Option.some.inj h
      exact ⟨bounded, rfl⟩
  | inf neg => cases h
  | nan => cases h

@[simp] theorem isfinite_eq (x : Double) : x.isfinite = x.finite?.isSome := by
  cases x <;> rfl

end Double

open Double

section Rounding

/-- Nearest natural number of a nonnegative rational, ties to even. -/
def roundHalfEven (q : ℚ) : ℕ :=
  let f := ⌊q⌋₊
  if q - f < 1 / 2 then f
  else if 1 / 2 < q - f then f + 1
  else if f % 2 = 0 then f else f + 1

theorem roundHalfEven_natCast (n : ℕ) : roundHalfEven n = n := by
  simp [roundHalfEven]

/-- Rounding moves a value by at most one half. -/
theorem roundHalfEven_near {q : ℚ} (hq : 0 ≤ q) :
    (roundHalfEven q : ℚ) - 1 / 2 ≤ q ∧ q ≤ roundHalfEven q + 1 / 2 := by
  have h₁ := Nat.floor_le hq
  have h₂ := Nat.lt_floor_add_one q
  simp only [roundHalfEven]
  split_ifs <;> push_cast <;> constructor <;> linarith

/-- `%.kf` of `q`, as the number it denotes. -/
def roundTo (k : ℕ) (q : ℚ) : ℚ :=
  if q < 0 then -((roundHalfEven (-q * 10 ^ k) : ℚ) / 10 ^ k)
  else (roundHalfEven (q * 10 ^ k) : ℚ) / 10 ^ k

theorem roundTo_near (k : ℕ) (q : ℚ) :
    roundTo k q - 1 / (2 * 10 ^ k) ≤ q ∧ q ≤ roundTo k q + 1 / (2 * 10 ^ k) := by
  have hk : (0 : ℚ) < 10 ^ k := by positivity
  have hhalf : (1 : ℚ) / (2 * 10 ^ k) = 1 / 2 / 10 ^ k := by field_simp
  have scaled : ∀ p : ℚ, 0 ≤ p →
      (roundHalfEven (p * 10 ^ k) : ℚ) / 10 ^ k - 1 / 2 / 10 ^ k ≤ p ∧
        p ≤ (roundHalfEven (p * 10 ^ k) : ℚ) / 10 ^ k + 1 / 2 / 10 ^ k := by
    intro p hp
    have h := roundHalfEven_near (mul_nonneg hp hk.le)
    rw [← sub_div, ← add_div, div_le_iff₀ hk, le_div_iff₀ hk]
    exact h
  rw [roundTo, hhalf]
  split_ifs with hq
  · have h := scaled (-q) (by linarith)
    constructor <;> linarith [h.1, h.2]
  · exact scaled q (not_lt.mp hq)

private theorem roundHalfEven_le {q : ℚ} (hq : 0 ≤ q) {n : ℕ} (h : q ≤ n) :
    roundHalfEven q ≤ n := by
  have hn : ⌊q⌋₊ ≤ n := Nat.floor_le_of_le h
  rcases hn.lt_or_eq with hlt | heq
  · have : roundHalfEven q ≤ ⌊q⌋₊ + 1 := by
      simp only [roundHalfEven]
      split_ifs <;> omega
    omega
  · have : q = n := le_antisymm h (heq ▸ Nat.floor_le hq)
    rw [this, roundHalfEven_natCast]

/-- Rounding does not pass a bound that is itself a whole number. -/
theorem abs_roundTo_le (k : ℕ) {q : ℚ} {n : ℕ} (h : |q| ≤ n) : |roundTo k q| ≤ n := by
  have hk : (0 : ℚ) < 10 ^ k := by positivity
  have scaled : ∀ p : ℚ, 0 ≤ p → p ≤ n → (roundHalfEven (p * 10 ^ k) : ℚ) / 10 ^ k ≤ n := by
    intro p h₀ h₁
    rw [div_le_iff₀ hk]
    exact_mod_cast roundHalfEven_le (mul_nonneg h₀ hk.le)
      (n := n * 10 ^ k) (by push_cast; exact mul_le_mul_of_nonneg_right h₁ hk.le)
  rw [roundTo]
  split_ifs with hq
  · rw [abs_neg, abs_of_nonneg (by positivity)]
    exact scaled (-q) (by linarith) (by rwa [abs_of_neg hq] at h)
  · rw [abs_of_nonneg (by positivity)]
    exact scaled q (not_lt.mp hq) (by rwa [abs_of_nonneg (not_lt.mp hq)] at h)

theorem dblMax_eq : dblMax = ((2 ^ 1024 - 2 ^ 971 : ℕ) : ℚ) := by
  rw [dblMax, Nat.cast_sub (Nat.pow_le_pow_right (by decide) (by decide))]
  simp only [Nat.cast_pow, Nat.cast_ofNat]

theorem abs_roundTo_le_dblMax (k : ℕ) {q : ℚ} (h : |q| ≤ dblMax) : |roundTo k q| ≤ dblMax := by
  rw [dblMax_eq] at h ⊢
  exact abs_roundTo_le k h

theorem roundTo_idem (k : ℕ) (q : ℚ) : roundTo k (roundTo k q) = roundTo k q := by
  have hk : (10 : ℚ) ^ k ≠ 0 := by positivity
  have fixed : ∀ n : ℕ, roundTo k ((n : ℚ) / 10 ^ k) = (n : ℚ) / 10 ^ k ∧
      roundTo k (-((n : ℚ) / 10 ^ k)) = -((n : ℚ) / 10 ^ k) := by
    intro n
    have hn : (0 : ℚ) ≤ (n : ℚ) / 10 ^ k := by positivity
    have hpos : roundTo k ((n : ℚ) / 10 ^ k) = (n : ℚ) / 10 ^ k := by
      rw [roundTo, if_neg (not_lt.mpr hn), div_mul_cancel₀ _ hk, roundHalfEven_natCast]
    refine ⟨hpos, ?_⟩
    rcases hn.eq_or_lt with hz | hlt
    · rw [← hz, neg_zero, hz]
      exact hpos
    · rw [roundTo, if_pos (neg_lt_zero.mpr hlt), neg_neg, div_mul_cancel₀ _ hk,
        roundHalfEven_natCast]
  conv_lhs => rw [roundTo.eq_def k q]
  conv_rhs => rw [roundTo]
  split_ifs
  · exact (fixed _).2
  · exact (fixed _).1

end Rounding

/-- The decimal digits of `n / 10 ^ k`: whole part, point, `k` decimals. -/
def fixedDigits (k n : ℕ) : CString :=
  decimal (n / 10 ^ k) ++ 0x2e :: zeroPad k (decimal (n % 10 ^ k))

/-- `%.kf` -/
def formatFixed (k : ℕ) : Double → CString
  | .fin q _ =>
      if q < 0 then 0x2d :: fixedDigits k (roundHalfEven (-q * 10 ^ k))
      else fixedDigits k (roundHalfEven (q * 10 ^ k))
  | .inf false => ascii "inf"
  | .inf true => ascii "-inf"
  | .nan => ascii "nan"

section Strtod

def hexDigitValue (c : UInt8) : Option ℕ :=
  if 0x30 ≤ c && c ≤ 0x39 then some (c.toNat - 0x30)
  else if 0x61 ≤ c && c ≤ 0x66 then some (c.toNat - 0x61 + 10)
  else if 0x41 ≤ c && c ≤ 0x46 then some (c.toNat - 0x41 + 10)
  else none

def isHexDigit (c : UInt8) : Bool := (hexDigitValue c).isSome

def toLower (c : UInt8) : UInt8 := if 0x41 ≤ c && c ≤ 0x5a then c + 0x20 else c

/-- The rest of `s` after `word`, letters compared without case. -/
def stripWord : CString → CString → Option CString
  | [], s => some s
  | _ :: _, [] => none
  | w :: ws, c :: s => if toLower c = w then stripWord ws s else none

/-- From half an ulp above the largest finite value on, a literal overflows. -/
def overflowBound : ℚ := 2 ^ 1024 - 2 ^ 970

def ofLiteral (q : ℚ) : Double :=
  if overflowBound ≤ q then .inf false else .ofRat (min q dblMax)

theorem ofLiteral_of_le {q : ℚ} (h₀ : 0 ≤ q) (h : q ≤ dblMax) :
    ofLiteral q = .fin q (by rwa [abs_of_nonneg h₀]) := by
  have hmax : dblMax < overflowBound :=
    sub_lt_sub_left (pow_lt_pow_right₀ (by norm_num) (by norm_num)) _
  have hlt : q < overflowBound := lt_of_le_of_lt h hmax
  rw [ofLiteral, if_neg (not_le.mpr hlt), min_eq_left h, ofRat_of_le]

/-- An exponent after `mark`, taken only when a digit follows. -/
def scanExponent (mark : UInt8) (s : CString) : ℤ × CString :=
  match s with
  | c :: t =>
      if toLower c = mark then
        let u := match t with
          | 0x2d :: u => u
          | 0x2b :: u => u
          | u => u
        match u with
        | d :: _ =>
            if isDigit d then
              match scanInt t with
              | some r => r
              | none => (0, s)
            else (0, s)
        | [] => (0, s)
      else (0, s)
  | [] => (0, s)

/-- Mantissa digits and the digits after the point, if any are there. -/
def scanMantissa (digit : UInt8 → Bool) (s : CString) : Option (CString × CString × CString) :=
  let a := s.span digit
  match a.2 with
  | 0x2e :: t =>
      let b := t.span digit
      if a.1.isEmpty && b.1.isEmpty then none else some (a.1, b.1, b.2)
  | t => if a.1.isEmpty then none else some (a.1, [], t)

def decimalLiteral (s : CString) : Option (Double × CString) :=
  match scanMantissa isDigit s with
  | none => none
  | some (a, b, t) =>
      let e := scanExponent 0x65 t
      some (ofLiteral ((digitsValue (a ++ b) : ℚ) * 10 ^ (e.1 - b.length)), e.2)

def hexDigitsValue (ds : CString) : ℕ :=
  ds.foldl (fun n c => 16 * n + (hexDigitValue c).getD 0) 0

def hexLiteral (s : CString) : Option (Double × CString) :=
  match s with
  | 0x30 :: x :: t =>
      if toLower x = 0x78 then
        match scanMantissa isHexDigit t with
        | none => none
        | some (a, b, t) =>
            let e := scanExponent 0x70 t
            some (ofLiteral ((hexDigitsValue (a ++ b) : ℚ) * 2 ^ (e.1 - 4 * b.length)), e.2)
      else none
  | _ => none

/-- `nan` may carry letters, digits and underscores in parentheses. -/
def skipNanTag (s : CString) : CString :=
  match s with
  | 0x28 :: t =>
      match t.dropWhile fun c =>
          isDigit c || (0x61 ≤ toLower c && toLower c ≤ 0x7a) || c = 0x5f with
      | 0x29 :: u => u
      | _ => s
  | _ => s

def unsignedLiteral (s : CString) : Option (Double × CString) :=
  match stripWord (ascii "infinity") s with
  | some t => some (.inf false, t)
  | none =>
      match stripWord (ascii "inf") s with
      | some t => some (.inf false, t)
      | none =>
          match stripWord (ascii "nan") s with
          | some t => some (.nan, skipNanTag t)
          | none =>
              match hexLiteral s with
              | some r => some r
              | none => decimalLiteral s

/-- `strtod(s, &end)` with `end`: no literal gives zero and the whole string back. -/
def strtodEnd (s : CString) : Double × CString :=
  match skipWhitespace s with
  | 0x2d :: t =>
      match unsignedLiteral t with
      | some (x, u) => (x.neg, u)
      | none => (.zero, s)
  | 0x2b :: t => (unsignedLiteral t).getD (.zero, s)
  | t => (unsignedLiteral t).getD (.zero, s)

/-- `strtod(s, NULL)` -/
def strtod (s : CString) : Double := (strtodEnd s).1

end Strtod

section RoundTrip

private theorem stripWord_digit {w c : UInt8} (ws s : CString) (hc : isDigit c = true)
    (hw : isDigit w = false) : stripWord (w :: ws) (c :: s) = none := by
  have hl : toLower c = c := by
    simp only [isDigit, Bool.and_eq_true, decide_eq_true_eq, UInt8.le_iff_toNat_le,
      UInt8.reduceToNat] at hc
    simp only [toLower, Bool.and_eq_true, decide_eq_true_eq, UInt8.le_iff_toNat_le,
      UInt8.reduceToNat]
    rw [if_neg]
    omega
  rw [stripWord, hl, if_neg]
  rintro rfl
  rw [hc] at hw
  cases hw

/-- A literal of digits and a point is no hexadecimal one: the byte after a
leading zero is a digit or the point. -/
private theorem hexLiteral_fixed {ds s : CString} (hd : ∀ c ∈ ds, isDigit c = true) :
    hexLiteral (ds ++ 0x2e :: s) = none := by
  match ds with
  | [] => rfl
  | [c] =>
      unfold hexLiteral
      split
      · rename_i x t h
        simp only [List.singleton_append, List.cons.injEq] at h
        rw [← h.2.1, if_neg (by decide)]
      · rfl
  | c :: d :: ds =>
      unfold hexLiteral
      split
      · rename_i x t h
        simp only [List.cons_append, List.cons.injEq] at h
        have hx := hd d (by simp)
        rw [h.2.1] at hx
        rw [if_neg]
        intro hl
        simp only [isDigit, Bool.and_eq_true, decide_eq_true_eq, UInt8.le_iff_toNat_le,
          UInt8.reduceToNat] at hx
        have : toLower x = x := by
          simp only [toLower, Bool.and_eq_true, decide_eq_true_eq, UInt8.le_iff_toNat_le,
            UInt8.reduceToNat]
          rw [if_neg]
          omega
        rw [this] at hl
        subst hl
        simp at hx
      · rfl

/-- What may follow a decimal literal without running on into it. -/
def LiteralEnd (s : CString) : Prop :=
  NoDigitHead s ∧ ∀ c t, s = c :: t → toLower c ≠ 0x65

theorem literalEnd_nil : LiteralEnd [] :=
  ⟨noDigitHead_nil, fun _ _ h => by cases h⟩

private theorem scanExponent_end {s : CString} (hs : LiteralEnd s) :
    scanExponent 0x65 s = (0, s) := by
  cases s with
  | nil => rfl
  | cons c t => simp [scanExponent, hs.2 c t rfl]

private theorem unsignedLiteral_fixed {a b s : CString} (hne : a ≠ [])
    (ha : ∀ c ∈ a, isDigit c = true) (hb : ∀ c ∈ b, isDigit c = true) (hs : LiteralEnd s) :
    unsignedLiteral (a ++ 0x2e :: (b ++ s)) =
      some (ofLiteral ((digitsValue (a ++ b) : ℚ) / 10 ^ b.length), s) := by
  obtain ⟨c, t, rfl⟩ := List.exists_cons_of_ne_nil hne
  have hc := ha c (by simp)
  have hdec : decimalLiteral (c :: t ++ 0x2e :: (b ++ s)) =
      some (ofLiteral ((digitsValue (c :: t ++ b) : ℚ) / 10 ^ b.length), s) := by
    have hm : scanMantissa isDigit (c :: t ++ 0x2e :: (b ++ s)) = some (c :: t, b, s) := by
      simp only [scanMantissa]
      rw [span_digits ha (noDigitHead_cons (by decide))]
      simp only [span_digits hb hs.1]
      simp
    simp only [decimalLiteral, hm, scanExponent_end hs, zero_sub]
    rw [zpow_neg, zpow_natCast, div_eq_mul_inv]
  have h₁ := fun ws => stripWord_digit (w := 0x69) ws (t ++ 0x2e :: (b ++ s)) hc (by decide)
  have h₂ := fun ws => stripWord_digit (w := 0x6e) ws (t ++ 0x2e :: (b ++ s)) hc (by decide)
  simp only [unsignedLiteral, List.cons_append]
  rw [show ascii "infinity" = 0x69 :: ascii "nfinity" by decide,
    show ascii "inf" = 0x69 :: ascii "nf" by decide,
    show ascii "nan" = 0x6e :: ascii "an" by decide, h₁, h₁, h₂]
  simp only
  rw [← List.cons_append, hexLiteral_fixed ha]
  exact hdec

private theorem fixedDigits_split (k n : ℕ) (s : CString) :
    fixedDigits k n ++ s =
      decimal (n / 10 ^ k) ++ 0x2e :: (zeroPad k (decimal (n % 10 ^ k)) ++ s) := by
  simp [fixedDigits]

private theorem decimals_length {k : ℕ} (hk : 0 < k) (n : ℕ) :
    (zeroPad k (decimal (n % 10 ^ k))).length = k :=
  zeroPad_length (decimal_length_le hk (Nat.mod_lt _ (by positivity)))

theorem unsignedLiteral_fixedDigits {k : ℕ} (hk : 0 < k) (n : ℕ) {s : CString}
    (hs : LiteralEnd s) :
    unsignedLiteral (fixedDigits k n ++ s) = some (ofLiteral ((n : ℚ) / 10 ^ k), s) := by
  rw [fixedDigits_split, unsignedLiteral_fixed (decimal_ne_nil _) (decimal_isDigit _)
    (zeroPad_isDigit (decimal_isDigit _)) hs, decimals_length hk, digitsValue_append,
    decimals_length hk, digitsValue_zeroPad, digitsValue_decimal, digitsValue_decimal,
    Nat.div_add_mod']

private theorem fixedDigits_head (k n : ℕ) (s : CString) :
    ∃ c t, fixedDigits k n ++ s = c :: t ∧ isDigit c = true := by
  obtain ⟨c, t, h⟩ := List.exists_cons_of_ne_nil (decimal_ne_nil (n / 10 ^ k))
  refine ⟨c, t ++ 0x2e :: (zeroPad k (decimal (n % 10 ^ k)) ++ s), ?_, ?_⟩
  · rw [fixedDigits_split, h]
    rfl
  · exact decimal_isDigit (n / 10 ^ k) c (by simp [h])

/-- What a stored `double` reads back as. -/
def Double.rounded (k : ℕ) : Double → Double
  | .fin q h => .fin (roundTo k q) (abs_roundTo_le_dblMax k h)
  | x => x

theorem Double.rounded_idem (k : ℕ) (x : Double) : (x.rounded k).rounded k = x.rounded k := by
  cases x <;> simp [Double.rounded, roundTo_idem]

/-- A printed value reads back as its rounding to `k` decimals. -/
theorem strtod_formatFixed {k : ℕ} (hk : 0 < k) (q : ℚ) (hq : |q| ≤ dblMax) {s : CString}
    (hs : LiteralEnd s) :
    strtod (formatFixed k (.fin q hq) ++ s) = (Double.fin q hq).rounded k := by
  have hb := abs_roundTo_le_dblMax k hq
  simp only [Double.rounded]
  simp only [roundTo] at hb ⊢
  simp only [formatFixed]
  split_ifs at hb ⊢ with hneg
  · rw [abs_neg, abs_of_nonneg (by positivity)] at hb
    rw [strtod, strtodEnd, List.cons_append, skipWhitespace_of_head (by decide)]
    simp only [unsignedLiteral_fixedDigits hk _ hs, ofLiteral_of_le (by positivity) hb]
    rfl
  · rw [abs_of_nonneg (by positivity)] at hb
    have hlit := unsignedLiteral_fixedDigits hk (roundHalfEven (q * 10 ^ k)) hs
    obtain ⟨c, t, h, hc⟩ := fixedDigits_head k (roundHalfEven (q * 10 ^ k)) s
    rw [h] at hlit ⊢
    have hsp : isspace c = false := by
      simp only [isDigit, Bool.and_eq_true, decide_eq_true_eq, UInt8.le_iff_toNat_le,
        UInt8.reduceToNat] at hc
      simp only [isspace, Bool.or_eq_false_iff, decide_eq_false_iff_not, Bool.and_eq_false_iff,
        UInt8.le_iff_toNat_le, ← UInt8.toNat_inj, UInt8.reduceToNat]
      omega
    rw [strtod, strtodEnd, skipWhitespace_of_head hsp]
    split
    · rename_i h'
      rw [(List.cons.inj h').1] at hc
      exact absurd hc (by decide)
    · rename_i h'
      rw [(List.cons.inj h').1] at hc
      exact absurd hc (by decide)
    · rw [hlit, ofLiteral_of_le (by positivity) hb]
      rfl

theorem strtod_format {k : ℕ} (hk : 0 < k) (x : Double) :
    strtod (formatFixed k x) = x.rounded k := by
  cases x with
  | fin q h => simpa using strtod_formatFixed hk q h literalEnd_nil
  | inf s =>
      cases s with
      | false => exact (by decide : strtod (ascii "inf") = .inf false)
      | true => exact (by decide : strtod (ascii "-inf") = .inf true)
  | nan => exact (by decide : strtod (ascii "nan") = .nan)

theorem formatFixed_nulFree (k : ℕ) (x : Double) : NulFree (formatFixed k x) := by
  have hd : ∀ n, NulFree (fixedDigits k n) := fun n => by
    simp only [fixedDigits, nulFree_append, nulFree_cons]
    exact ⟨nulFree_of_digits (decimal_isDigit _), by decide,
      nulFree_of_digits (zeroPad_isDigit (decimal_isDigit _))⟩
  cases x with
  | fin q h =>
      simp only [formatFixed]
      split_ifs
      · exact nulFree_cons.mpr ⟨by decide, hd _⟩
      · exact hd _
  | inf s =>
      cases s with
      | false => exact (by decide : NulFree (ascii "inf"))
      | true => exact (by decide : NulFree (ascii "-inf"))
  | nan => exact (by decide : NulFree (ascii "nan"))

/-- The longest `double` has 309 digits before the point. -/
theorem formatFixed_length {k : ℕ} (hk : 0 < k) (x : Double) :
    (formatFixed k x).length ≤ 311 + k := by
  have hten : (0 : ℚ) < 10 ^ k := by positivity
  have hbig : (2 ^ 1024 - 2 ^ 971 : ℕ) < 10 ^ 309 := by decide +kernel
  have digits : ∀ n : ℕ, (n : ℚ) / 10 ^ k ≤ dblMax → (fixedDigits k n).length ≤ 310 + k := by
    intro n hn
    have hle : n / 10 ^ k ≤ 2 ^ 1024 - 2 ^ 971 := by
      rw [dblMax_eq, div_le_iff₀ hten] at hn
      exact Nat.div_le_of_le_mul (by rw [Nat.mul_comm]; exact_mod_cast hn)
    have hwhole := decimal_length_le (n := n / 10 ^ k) (k := 309) (by decide)
      (lt_of_le_of_lt hle hbig)
    simp only [fixedDigits, List.length_append, List.length_cons, decimals_length hk]
    omega
  cases x with
  | fin q h =>
      have hb := abs_roundTo_le_dblMax k h
      simp only [roundTo] at hb
      simp only [formatFixed]
      split_ifs at hb ⊢
      · rw [abs_neg, abs_of_nonneg (by positivity)] at hb
        have := digits _ hb
        rw [List.length_cons]
        omega
      · rw [abs_of_nonneg (by positivity)] at hb
        have := digits _ hb
        omega
  | inf s =>
      have : (formatFixed k (.inf s)).length ≤ 4 := by
        cases s <;> simp [formatFixed, ascii]
      omega
  | nan =>
      have : (formatFixed k .nan).length ≤ 4 := by simp [formatFixed, ascii]
      omega

end RoundTrip

end Muslimtify.CDouble
