import Muslimtify.CDouble
import Mathlib.Data.Int.Log

/-!
# Rounding to the nearest `double`

Between two powers of two the values of the format are the multiples of one unit
in the last place, 52 places below the leading one and never below `2 ^ -1074`.
A number is rounded to the nearest multiple of its unit, to the even one from
halfway.

The error is at most half a unit, a multiple of the unit is kept, and rounding
does not pass one. As long as the unit is no larger than one the whole numbers
are among the multiples.
-/
namespace Muslimtify.Binary64
open CDouble

section Nearest

/-- The integer a value is rounded to, where halves go to the even one. -/
structure NearestEven (x : ℚ) (r : ℤ) : Prop where
  below : (r : ℚ) - 1 / 2 ≤ x
  above : x ≤ r + 1 / 2
  even : x = r - 1 / 2 ∨ x = r + 1 / 2 → r % 2 = 0

theorem roundHalfEven_nearestEven {x : ℚ} (hx : 0 ≤ x) :
    NearestEven x (roundHalfEven x : ℕ) := by
  have h₁ := Nat.floor_le hx
  have h₂ := Nat.lt_floor_add_one x
  have hnear := roundHalfEven_near hx
  refine ⟨by exact_mod_cast hnear.1, by exact_mod_cast hnear.2, fun h => ?_⟩
  simp only [roundHalfEven] at h ⊢
  split_ifs at h ⊢ with hlow hhigh heven
  · push_cast at h
    rcases h with h | h <;> linarith
  · push_cast at h
    rcases h with h | h <;> linarith
  · omega
  · omega

variable {x : ℚ} {r n : ℤ}

theorem NearestEven.neg (h : NearestEven x r) : NearestEven (-x) (-r) := by
  have h₁ := h.below
  have h₂ := h.above
  refine ⟨by push_cast; linarith, by push_cast; linarith, fun hhalf => ?_⟩
  have := h.even (hhalf.symm.imp (fun h => by push_cast at h; linarith)
    fun h => by push_cast at h; linarith)
  omega

theorem NearestEven.le (h : NearestEven x r) (hx : x ≤ n) : r ≤ n := by
  have h₁ := h.below
  have hlt : (r : ℚ) < n + 1 := by linarith
  exact Int.lt_add_one_iff.mp (by exact_mod_cast hlt)

theorem NearestEven.ge (h : NearestEven x r) (hx : n ≤ x) : n ≤ r := by
  have h₁ := h.above
  have hlt : (n : ℚ) < r + 1 := by linarith
  exact Int.lt_add_one_iff.mp (by exact_mod_cast hlt)

theorem NearestEven.eq_of_near (h : NearestEven x r) (hx : |x - n| < 1 / 2) : r = n := by
  have h₁ := h.below
  have h₂ := h.above
  obtain ⟨hlo, hhi⟩ := abs_lt.mp hx
  have hup : (r : ℚ) < n + 1 := by linarith
  have hdown : (n : ℚ) < r + 1 := by linarith
  have : r < n + 1 := by exact_mod_cast hup
  have : n < r + 1 := by exact_mod_cast hdown
  omega

theorem NearestEven.not_below_half (h : NearestEven x r) (hr : r % 2 = 1) : x ≠ r - 1 / 2 :=
  fun hx => by have := h.even (Or.inl hx); omega

theorem NearestEven.not_above_half (h : NearestEven x r) (hr : r % 2 = 1) : x ≠ r + 1 / 2 :=
  fun hx => by have := h.even (Or.inr hx); omega

theorem NearestEven.eq_of_even (h : NearestEven x r) (hn : n % 2 = 0) (hlo : (n : ℚ) - 1 / 2 ≤ x)
    (hhi : x ≤ n + 1 / 2) : r = n := by
  have h₁ := h.below
  have h₂ := h.above
  have hup : (r : ℚ) ≤ n + 1 := by linarith
  have hdown : (n : ℚ) ≤ r + 1 := by linarith
  have hup : r ≤ n + 1 := by exact_mod_cast hup
  have hdown : n ≤ r + 1 := by exact_mod_cast hdown
  have hhalf := h.even
  by_contra hne
  obtain rfl | rfl : r = n + 1 ∨ r = n - 1 := by omega
  · push_cast at h₁ hhalf
    have := hhalf (Or.inl (by linarith))
    omega
  · push_cast at h₂ hhalf
    have := hhalf (Or.inr (by linarith))
    omega

/-- The nearest integer, ties to even. -/
def nearestInt (x : ℚ) : ℤ :=
  if x < 0 then -(roundHalfEven (-x) : ℕ) else (roundHalfEven x : ℕ)

theorem nearestInt_nearestEven (x : ℚ) : NearestEven x (nearestInt x) := by
  unfold nearestInt
  split_ifs with hx
  · have h := (roundHalfEven_nearestEven (neg_nonneg.mpr hx.le)).neg
    rwa [neg_neg] at h
  · exact roundHalfEven_nearestEven (not_lt.mp hx)

end Nearest

section Format

/-- The exponent of the unit in the last place. -/
def lastPlace (x : ℚ) : ℤ := max (Int.log 2 |x| - 52) (-1074)

/-- The unit in the last place. -/
def unit (x : ℚ) : ℚ := 2 ^ lastPlace x

/-- The number that the nearest `double` denotes, where it does not overflow. -/
def binary64 (x : ℚ) : ℚ := nearestInt (x / unit x) * unit x

variable {x y g : ℚ} {k n p : ℤ}

theorem power_pos (p : ℤ) : (0 : ℚ) < 2 ^ p := zpow_pos (by norm_num) p

theorem unit_pos (x : ℚ) : 0 < unit x := power_pos _

theorem unit_le (h : lastPlace x ≤ p) : unit x ≤ 2 ^ p := zpow_le_zpow_right₀ (by norm_num) h

theorem le_unit (h : p ≤ lastPlace x) : 2 ^ p ≤ unit x := zpow_le_zpow_right₀ (by norm_num) h

theorem binary64_error (x : ℚ) : |binary64 x - x| ≤ unit x / 2 := by
  have hu := unit_pos x
  have h := nearestInt_nearestEven (x / unit x)
  have h₁ := h.below
  have h₂ := h.above
  rw [le_div_iff₀ hu] at h₁
  rw [div_le_iff₀ hu] at h₂
  rw [binary64, abs_le]
  constructor <;> linarith

theorem binary64_of_near (hg : g = k * unit x) (h : |x - g| < unit x / 2) : binary64 x = g := by
  have hu := unit_pos x
  have hscaled : |x / unit x - k| < 1 / 2 := by
    rw [show x / unit x - k = (x - g) / unit x by rw [hg]; field_simp, abs_div, abs_of_pos hu,
      div_lt_iff₀ hu]
    linarith
  rw [binary64, (nearestInt_nearestEven _).eq_of_near hscaled, hg]

theorem binary64_fixed (hx : x = k * unit x) : binary64 x = x :=
  binary64_of_near hx (by rw [sub_self, abs_zero]; exact half_pos (unit_pos x))

theorem binary64_le (hg : g = k * unit x) (h : x ≤ g) : binary64 x ≤ g := by
  have hu := unit_pos x
  have hle := (nearestInt_nearestEven (x / unit x)).le (n := k)
    (by rw [div_le_iff₀ hu, ← hg]; exact h)
  rw [binary64, hg]
  exact mul_le_mul_of_nonneg_right (by exact_mod_cast hle) hu.le

theorem le_binary64 (hg : g = k * unit x) (h : g ≤ x) : g ≤ binary64 x := by
  have hu := unit_pos x
  have hle := (nearestInt_nearestEven (x / unit x)).ge (n := k)
    (by rw [le_div_iff₀ hu, ← hg]; exact h)
  rw [binary64, hg]
  exact mul_le_mul_of_nonneg_right (by exact_mod_cast hle) hu.le

/-- A power of two that is no smaller than the unit is a multiple of it. -/
theorem zpow_units (h : lastPlace x ≤ p) : ∃ k : ℤ, (2 : ℚ) ^ p = k * unit x := by
  refine ⟨2 ^ (p - lastPlace x).toNat, ?_⟩
  have hexp : ((p - lastPlace x).toNat : ℤ) = p - lastPlace x := Int.toNat_of_nonneg (by omega)
  push_cast
  rw [unit, ← zpow_natCast, hexp, ← zpow_add₀ (by norm_num), sub_add_cancel]

theorem intCast_units (h : lastPlace x ≤ 0) (n : ℤ) : ∃ k : ℤ, (n : ℚ) = k * unit x := by
  obtain ⟨k, hk⟩ := zpow_units h
  refine ⟨n * k, ?_⟩
  push_cast
  rw [mul_assoc, ← hk, zpow_zero, mul_one]

theorem log_lt (hx : x ≠ 0) (h : |x| < 2 ^ p) : Int.log 2 |x| < p := by
  have hle : ((2 : ℕ) : ℚ) ^ Int.log 2 |x| ≤ |x| := Int.zpow_log_le_self (by norm_num) (by positivity)
  push_cast at hle
  exact (zpow_lt_zpow_iff_right₀ (by norm_num : (1 : ℚ) < 2)).mp (hle.trans_lt h)

theorem le_log (h : 2 ^ p ≤ |x|) : p ≤ Int.log 2 |x| := by
  have hlt : |x| < ((2 : ℕ) : ℚ) ^ (Int.log 2 |x| + 1) := Int.lt_zpow_succ_log_self (by norm_num) _
  push_cast at hlt
  have := (zpow_lt_zpow_iff_right₀ (by norm_num : (1 : ℚ) < 2)).mp (h.trans_lt hlt)
  omega

theorem lastPlace_le (hx : x ≠ 0) (hp : -1021 ≤ p) (h : |x| < 2 ^ p) : lastPlace x ≤ p - 53 := by
  have := log_lt hx h
  simp only [lastPlace]
  omega

theorem le_lastPlace (h : 2 ^ p ≤ |x|) : p - 52 ≤ lastPlace x := by
  have := le_log h
  simp only [lastPlace]
  omega

theorem binary64_zero : binary64 0 = 0 :=
  binary64_fixed (k := 0) (by rw [Int.cast_zero, zero_mul])

/-- A multiple of another number's unit is kept if its own unit is no larger. -/
theorem binary64_of_units (hx : x = k * unit y) (h : lastPlace x ≤ lastPlace y) :
    binary64 x = x := by
  obtain ⟨m, hm⟩ := zpow_units h
  refine binary64_fixed (k := k * m) ?_
  push_cast
  rw [mul_assoc, ← hm]
  exact hx

/-- Powers of two are kept. -/
theorem binary64_of_abs_eq (hp : -1021 ≤ p) (h : |x| = 2 ^ p) : binary64 x = x := by
  have hx : x ≠ 0 := fun h₀ => (power_pos p).ne (by rw [← h, h₀, abs_zero])
  have hlt : |x| < 2 ^ (p + 1) := by
    rw [h]
    exact zpow_lt_zpow_right₀ (by norm_num) (by omega)
  obtain ⟨k, hk⟩ := zpow_units (x := x) (p := p)
    (by have := lastPlace_le hx (by omega) hlt; omega)
  rcases (abs_eq (power_pos p).le).mp h with hpos | hneg
  · exact binary64_fixed (hpos.trans hk)
  · refine binary64_fixed (k := -k) (hneg.trans ?_)
    rw [hk, Int.cast_neg, neg_mul]

/-- Up to a power of two the error is at most half the unit below it. -/
theorem binary64_error_le (hp : -1021 ≤ p) (h : |x| ≤ 2 ^ p) :
    |binary64 x - x| ≤ 2 ^ (p - 54) := by
  have hhalf : (2 : ℚ) ^ (p - 53) / 2 = 2 ^ (p - 54) := by
    rw [show p - 53 = p - 54 + 1 by ring, zpow_add₀ (by norm_num), zpow_one]
    ring
  rcases eq_or_ne x 0 with rfl | hx
  · rw [binary64_zero, sub_zero, abs_zero]
    exact (power_pos _).le
  rcases h.lt_or_eq with hlt | heq
  · refine (binary64_error x).trans ?_
    rw [← hhalf]
    exact div_le_div_of_nonneg_right (unit_le (lastPlace_le hx hp hlt)) (by norm_num)
  · rw [binary64_of_abs_eq hp heq, sub_self, abs_zero]
    exact (power_pos _).le

/-- What has been rounded is kept. -/
theorem binary64_binary64 (x : ℚ) : binary64 (binary64 x) = binary64 x := by
  obtain ⟨p, hp⟩ : ∃ p, p = max (Int.log 2 |x| + 1) (-1021) := ⟨_, rfl⟩
  have hplace : lastPlace x = p - 53 := by
    simp only [lastPlace]
    omega
  have hlog : |x| < ((2 : ℕ) : ℚ) ^ (Int.log 2 |x| + 1) :=
    Int.lt_zpow_succ_log_self (by norm_num) _
  push_cast at hlog
  have hx : |x| ≤ 2 ^ p := hlog.le.trans (zpow_le_zpow_right₀ (by norm_num) (by omega))
  obtain ⟨hlo, hhi⟩ := abs_le.mp hx
  -- the power of two above `x` is a multiple of the unit, so rounding does not pass it
  obtain ⟨k, hk⟩ := zpow_units (x := x) (p := p) (by omega)
  have hup : binary64 x ≤ 2 ^ p := binary64_le hk hhi
  have hdown : -2 ^ p ≤ binary64 x :=
    le_binary64 (k := -k) (by rw [hk, Int.cast_neg, neg_mul]) hlo
  rcases (abs_le.mpr ⟨hdown, hup⟩).lt_or_eq with hlt | heq
  · rcases eq_or_ne (binary64 x) 0 with hzero | hne
    · rw [hzero, binary64_zero]
    · exact binary64_of_units (y := x) rfl (hplace ▸ lastPlace_le hne (by omega) hlt)
  · exact binary64_of_abs_eq (by omega) heq

section WholeNumbers

theorem lastPlace_nonpos (h : |x| < 2 ^ 53) : lastPlace x ≤ 0 := by
  rcases eq_or_ne x 0 with rfl | hx
  · decide +kernel
  · have := lastPlace_le hx (p := 53) (by norm_num) (by exact_mod_cast h)
    omega

/-- Rounding does not pass a whole number. -/
theorem binary64_le_intCast (hx : |x| < 2 ^ 53) (h : x ≤ n) : binary64 x ≤ n := by
  obtain ⟨k, hk⟩ := intCast_units (lastPlace_nonpos hx) n
  exact binary64_le hk h

theorem intCast_le_binary64 (hx : |x| < 2 ^ 53) (h : n ≤ x) : n ≤ binary64 x := by
  obtain ⟨k, hk⟩ := intCast_units (lastPlace_nonpos hx) n
  exact le_binary64 hk h

theorem binary64_intCast (h : |(n : ℚ)| < 2 ^ 53) : binary64 n = n := by
  obtain ⟨k, hk⟩ := intCast_units (lastPlace_nonpos h) n
  exact binary64_fixed hk

/-- Values that large are whole. -/
theorem exists_intCast (hx : binary64 x = x) (h : 2 ^ 53 ≤ |x|) : ∃ n : ℤ, x = n := by
  have hplace : 0 ≤ lastPlace x := by
    have := le_lastPlace (p := 53) (by exact_mod_cast h)
    omega
  refine ⟨nearestInt (x / unit x) * 2 ^ (lastPlace x).toNat, ?_⟩
  have hunit : unit x = 2 ^ (lastPlace x).toNat := by
    rw [unit, ← zpow_natCast, Int.toNat_of_nonneg hplace]
  push_cast
  rw [← hunit]
  exact hx.symm

/-- A whole number can be taken off a value exactly if what is left is no larger. -/
theorem binary64_sub_intCast (hx : binary64 x = x) (hsmall : |x| < 2 ^ 53) (h : |x - n| ≤ |x|) :
    binary64 (x - n) = x - n := by
  rcases eq_or_ne (x - n) 0 with hzero | hne
  · rw [hzero, binary64_zero]
  · obtain ⟨m, hm⟩ := intCast_units (lastPlace_nonpos hsmall) n
    have hmultiple : x = nearestInt (x / unit x) * unit x := hx.symm
    have hlog := Int.log_mono_right (b := 2) (abs_pos.mpr hne) h
    refine binary64_of_units (y := x) (k := nearestInt (x / unit x) - m) ?_ ?_
    · push_cast
      rw [sub_mul, ← hm, ← hmultiple]
    · simp only [lastPlace]
      omega

/-- As long as halves are in the format, what is at most half a unit above a whole
number is rounded down to it. -/
theorem binary64_le_intCast_iff (hx : |x| < 2 ^ 52) : binary64 x ≤ n ↔ x ≤ n + unit x / 2 := by
  have hu := unit_pos x
  have hplace : lastPlace x ≤ -1 := by
    rcases eq_or_ne x 0 with rfl | hne
    · decide +kernel
    · have := lastPlace_le hne (p := 52) (by norm_num) (by exact_mod_cast hx)
      omega
  obtain ⟨k, hk⟩ := zpow_units hplace
  have hn : (n : ℚ) = (2 * (n * k) : ℤ) * unit x := by
    push_cast
    rw [show (2 * (n * k) * unit x : ℚ) = 2 * n * (k * unit x) by ring, ← hk, zpow_neg_one]
    ring
  have hnear := nearestInt_nearestEven (x / unit x)
  constructor
  · intro hle
    have hint : nearestInt (x / unit x) ≤ 2 * (n * k) := by
      rw [binary64, hn] at hle
      exact_mod_cast le_of_mul_le_mul_right hle hu
    have hint : (nearestInt (x / unit x) : ℚ) ≤ (2 * (n * k) : ℤ) := by exact_mod_cast hint
    have hscaled := mul_le_mul_of_nonneg_right hint hu.le
    have habove := hnear.above
    rw [div_le_iff₀ hu] at habove
    rw [hn]
    linarith
  · intro hle
    rcases le_or_gt x (n : ℚ) with hlow | hhigh
    · exact binary64_le_intCast (hx.trans (by norm_num)) hlow
    · have heven : nearestInt (x / unit x) = 2 * (n * k) := by
        refine hnear.eq_of_even (by omega) ?_ ?_
        · rw [le_div_iff₀ hu, sub_mul, ← hn]
          linarith
        · rw [div_le_iff₀ hu, add_mul, ← hn]
          linarith
      rw [binary64, heven, ← hn]

end WholeNumbers

/-- A value of the format is the nearest one to all that lies within half of the unit
from there on. -/
theorem binary64_of_near_fixed (hx : binary64 x = x) (hp : -1000 ≤ p) (hlx : 2 ^ p ≤ |x|)
    (hly : 2 ^ p ≤ |y|) (h : |y - x| < 2 ^ (p - 53)) : binary64 y = x := by
  have hmultiple : x = nearestInt (x / unit x) * unit x := hx.symm
  have hhalf : (2 : ℚ) ^ (p - 52) / 2 = 2 ^ (p - 53) := by
    rw [show p - 52 = p - 53 + 1 by ring, zpow_add₀ (by norm_num), zpow_one]
    ring
  have hux := le_unit (le_lastPlace hlx)
  have huy := le_unit (le_lastPlace hly)
  by_cases hplace : lastPlace y ≤ lastPlace x
  · obtain ⟨k, hk⟩ := zpow_units hplace
    refine binary64_of_near (k := nearestInt (x / unit x) * k) ?_ (h.trans_le ?_)
    · push_cast
      rw [mul_assoc, ← hk]
      exact hmultiple
    · rw [← hhalf]
      exact div_le_div_of_nonneg_right huy (by norm_num)
  · -- `y` would lie beyond a power of two, and `x` a unit before it
    exfalso
    have hlog : Int.log 2 |x| + 1 ≤ Int.log 2 |y| ∧ lastPlace x ≤ Int.log 2 |y| := by
      have hly := le_log hly
      simp only [lastPlace] at hplace ⊢
      omega
    have hpower : (2 : ℚ) ^ Int.log 2 |y| ≤ |y| := by
      have hy : 0 < |y| := (power_pos p).trans_le hly
      exact_mod_cast Int.zpow_log_le_self (b := 2) (by norm_num) hy
    have hbelow : |x| < 2 ^ Int.log 2 |y| := by
      have hlt : |x| < ((2 : ℕ) : ℚ) ^ (Int.log 2 |x| + 1) :=
        Int.lt_zpow_succ_log_self (by norm_num) _
      push_cast at hlt
      exact hlt.trans_le (zpow_le_zpow_right₀ (by norm_num) hlog.1)
    obtain ⟨b, hb⟩ := zpow_units (x := x) hlog.2
    have hu := unit_pos x
    have habs : |x| = |nearestInt (x / unit x)| * unit x := by
      conv_lhs => rw [hmultiple]
      rw [abs_mul, abs_of_pos hu, Int.cast_abs]
    generalize |nearestInt (x / unit x)| = a at habs
    rw [habs, hb] at hbelow
    have hlt : a < b := by exact_mod_cast lt_of_mul_lt_mul_right hbelow hu.le
    have hle : (a : ℚ) + 1 ≤ b := by exact_mod_cast hlt
    have hgap : |x| + unit x ≤ |y| := by
      rw [habs]
      calc (a : ℚ) * unit x + unit x = (a + 1) * unit x := by ring
        _ ≤ b * unit x := mul_le_mul_of_nonneg_right hle hu.le
        _ ≤ |y| := hb ▸ hpower
    have hnear : |y| - |x| ≤ |y - x| := abs_sub_abs_le_abs_sub y x
    have := power_pos (p - 53)
    linarith

end Format

/-- A finite value rounded to the format, as `strtod` rounds a literal. -/
def nearest : Double → Double
  | .fin q _ => .ofRat (binary64 q)
  | x => x

end Muslimtify.Binary64
