import Mathlib.Data.Int.Log
import Mathlib.Data.Rat.Floor
import Mathlib.Tactic.Linarith
import Mathlib.Tactic.Positivity

/-!
# Doubles as rational numbers

A finite double is a rational number, and every operation on doubles is the exact operation
followed by one rounding: to the nearest multiple of a power of two that leaves 53 bits, with
ties to the even multiple. Below `2 ^ -1022` the power stays at `2 ^ -1074`.

`toDouble` is that rounding. It knows no largest double: who can meet one asks `overflows` first.
-/

namespace Exo.Lib

/-- The nearest integer, the even one of two that are equally near. -/
def roundEven (q : ℚ) : ℤ :=
  if q - ⌊q⌋ < 1 / 2 then ⌊q⌋
  else if 1 / 2 < q - ⌊q⌋ then ⌊q⌋ + 1
  else if 2 ∣ ⌊q⌋ then ⌊q⌋
  else ⌊q⌋ + 1

/-- The exponent of the last bit a double of this size has. -/
def ulpExponent (q : ℚ) : ℤ := max (Int.log 2 |q| - 52) (-1074)

/-- The double nearest to a number. -/
def toDouble (q : ℚ) : ℚ := roundEven (q / 2 ^ ulpExponent q) * 2 ^ ulpExponent q

/-- The number is rounded to infinity. -/
def overflows (q : ℚ) : Bool := 2 ^ 1024 ≤ |toDouble q|

/-- The loop of `sum` over doubles: the sum so far, and what its roundings have lost. -/
def sumDoublesFrom : ℚ → ℚ → List ℚ → ℚ
  | total, lost, [] => toDouble (total + lost)
  | total, lost, x :: xs =>
      let next := toDouble (total + x)
      let error :=
        if |x| ≤ |total| then toDouble (toDouble (total - next) + x)
        else toDouble (toDouble (x - next) + total)
      sumDoublesFrom next (toDouble (lost + error)) xs

/-- `sum` over doubles. -/
def sumDoubles : List ℚ → ℚ
  | [] => 0
  | x :: xs => sumDoublesFrom x 0 xs

theorem roundEven_intCast (n : ℤ) : roundEven n = n := by
  simp [roundEven]

theorem abs_roundEven_sub_le (q : ℚ) : |(roundEven q : ℚ) - q| ≤ 1 / 2 := by
  have hfloor : (⌊q⌋ : ℚ) ≤ q := Int.floor_le q
  have hfloor' : q < ⌊q⌋ + 1 := Int.lt_floor_add_one q
  unfold roundEven
  split
  · rw [abs_le]
    constructor <;> linarith
  · split
    · push_cast
      rw [abs_le]
      constructor <;> linarith
    · -- exactly half way between two integers
      split
      · rw [abs_le]
        constructor <;> linarith
      · push_cast
        rw [abs_le]
        constructor <;> linarith

variable {q : ℚ}

theorem roundEven_nonneg (h : 0 ≤ q) : 0 ≤ roundEven q := by
  have hfloor : 0 ≤ ⌊q⌋ := Int.floor_nonneg.mpr h
  unfold roundEven
  split
  · exact hfloor
  · split
    · omega
    · split <;> omega

theorem ulp_pos (q : ℚ) : (0 : ℚ) < 2 ^ ulpExponent q := zpow_pos two_pos _

theorem toDouble_nonneg (h : 0 ≤ q) : 0 ≤ toDouble q := by
  have hround : 0 ≤ roundEven (q / 2 ^ ulpExponent q) :=
    roundEven_nonneg (div_nonneg h (ulp_pos q).le)
  have hcast : (0 : ℚ) ≤ roundEven (q / 2 ^ ulpExponent q) := by exact_mod_cast hround
  exact mul_nonneg hcast (ulp_pos q).le

@[simp] theorem toDouble_zero : toDouble 0 = 0 := by
  have hround : roundEven 0 = 0 := by simpa using roundEven_intCast 0
  simp [toDouble, hround]

/-- A multiple of the last bit is a double. -/
theorem toDouble_eq_self {n : ℤ} (h : q = n * 2 ^ ulpExponent q) : toDouble q = q := by
  have hpow : (2 : ℚ) ^ ulpExponent q ≠ 0 := (ulp_pos q).ne'
  have hdiv : q / 2 ^ ulpExponent q = n := by
    rw [div_eq_iff hpow]
    exact h
  rw [toDouble, hdiv, roundEven_intCast]
  exact h.symm

/-- Every integer of at most 53 bits is a double. -/
theorem toDouble_natCast {n : ℕ} (h : n < 2 ^ 53) : toDouble n = n := by
  have hexp : ulpExponent n ≤ 0 := by
    have hlog : Nat.log 2 n < 53 ∨ n = 0 := by
      by_cases hn : n = 0
      · exact .inr hn
      · exact .inl (Nat.log_lt_of_lt_pow hn h)
    have hlog' : Nat.log 2 n ≤ 52 := by
      rcases hlog with hlog | rfl
      · omega
      · simp
    have habs : |(n : ℚ)| = n := abs_of_nonneg n.cast_nonneg
    simp only [ulpExponent, habs, Int.log_natCast]
    omega
  obtain ⟨k, hk⟩ := Int.eq_ofNat_of_zero_le (Int.neg_nonneg_of_nonpos hexp)
  refine toDouble_eq_self (n := n * 2 ^ k) ?_
  have hexp' : ulpExponent n = -(k : ℤ) := by omega
  rw [hexp', zpow_neg, zpow_natCast]
  push_cast
  rw [mul_assoc, mul_inv_cancel₀ (pow_ne_zero k two_ne_zero), mul_one]

/-- Scaling up by a power of two moves the last bit up as far at most. -/
theorem ulpExponent_mul_two_pow_le (q : ℚ) (n : ℕ) :
    ulpExponent (q * 2 ^ n) ≤ ulpExponent q + n := by
  have hlog : Int.log 2 |q * 2 ^ n| ≤ Int.log 2 |q| + n := by
    rcases eq_or_ne q 0 with rfl | hq
    · simp
    · have hpos : 0 < |q * 2 ^ n| := abs_pos.mpr (mul_ne_zero hq (pow_ne_zero n two_ne_zero))
      refine Int.lt_add_one_iff.mp ((Int.lt_zpow_iff_log_lt one_lt_two hpos).mp ?_)
      have hpow : (0 : ℚ) < 2 ^ n := pow_pos two_pos n
      have hlt : |q| < 2 ^ (Int.log 2 |q| + 1) := Int.lt_zpow_succ_log_self one_lt_two |q|
      calc |q * 2 ^ n| = |q| * 2 ^ n := by rw [abs_mul, abs_of_pos hpow]
        _ < 2 ^ (Int.log 2 |q| + 1) * 2 ^ n := mul_lt_mul_of_pos_right hlt hpow
        _ = 2 ^ (Int.log 2 |q| + n + 1) := by
            rw [← zpow_natCast, ← zpow_add₀ two_ne_zero, add_right_comm]
  unfold ulpExponent
  omega

/-- A double scaled up by a power of two is a double. -/
theorem toDouble_mul_two_pow (h : toDouble q = q) (n : ℕ) :
    toDouble (q * 2 ^ n) = q * 2 ^ n := by
  obtain ⟨k, hk⟩ := Int.eq_ofNat_of_zero_le (Int.sub_nonneg_of_le (ulpExponent_mul_two_pow_le q n))
  refine toDouble_eq_self (n := roundEven (q / 2 ^ ulpExponent q) * 2 ^ k) ?_
  have hexp : ulpExponent q + n = k + ulpExponent (q * 2 ^ n) := by omega
  calc q * 2 ^ n = roundEven (q / 2 ^ ulpExponent q) * 2 ^ ulpExponent q * 2 ^ n :=
        congrArg (· * 2 ^ n) h.symm
    _ = roundEven (q / 2 ^ ulpExponent q) * 2 ^ (ulpExponent q + n) := by
        rw [zpow_add₀ two_ne_zero, zpow_natCast, mul_assoc]
    _ = _ := by
        rw [hexp, zpow_add₀ two_ne_zero, zpow_natCast, Int.cast_mul, Int.cast_pow,
          Int.cast_ofNat, mul_assoc]

/-- The powers of two are doubles. -/
theorem toDouble_two_pow (n : ℕ) : toDouble (2 ^ n) = 2 ^ n := by
  have hone : toDouble 1 = 1 := by exact_mod_cast toDouble_natCast (n := 1) (by norm_num)
  simpa using toDouble_mul_two_pow hone n

/-- The error is at most half of the last bit. -/
theorem abs_toDouble_sub_le (q : ℚ) : |toDouble q - q| ≤ 2 ^ ulpExponent q / 2 := by
  have hpow : (0 : ℚ) < 2 ^ ulpExponent q := ulp_pos q
  have hq : q / 2 ^ ulpExponent q * 2 ^ ulpExponent q = q := div_mul_cancel₀ q hpow.ne'
  calc |toDouble q - q|
      = |(roundEven (q / 2 ^ ulpExponent q) - q / 2 ^ ulpExponent q) * 2 ^ ulpExponent q| := by
        rw [sub_mul, hq, toDouble]
    _ = |(roundEven (q / 2 ^ ulpExponent q) : ℚ) - q / 2 ^ ulpExponent q|
          * 2 ^ ulpExponent q := by
        rw [abs_mul, abs_of_pos hpow]
    _ ≤ 1 / 2 * 2 ^ ulpExponent q :=
        mul_le_mul_of_nonneg_right (abs_roundEven_sub_le _) hpow.le
    _ = 2 ^ ulpExponent q / 2 := by ring

/-- A rounded number is larger by one part in `2 ^ 53` at most, or by half the least double. -/
theorem toDouble_le (h : 0 ≤ q) :
    toDouble q ≤ q * (1 + 2 ^ (-53 : ℤ)) + 2 ^ (-1075 : ℤ) := by
  have hsmall : (0 : ℚ) < 2 ^ (-1075 : ℤ) := zpow_pos two_pos _
  have hpart : (0 : ℚ) < 2 ^ (-53 : ℤ) := zpow_pos two_pos _
  rcases h.eq_or_lt with rfl | hpos
  · rw [toDouble_zero, zero_mul, zero_add]
    exact hsmall.le
  · have herr := (abs_le.mp (abs_toDouble_sub_le q)).2
    have hulp : (2 : ℚ) ^ ulpExponent q / 2 ≤ q * 2 ^ (-53 : ℤ) + 2 ^ (-1075 : ℤ) := by
      have hhalf : (2 : ℚ) ^ ulpExponent q / 2 = 2 ^ (ulpExponent q - 1) := by
        rw [zpow_sub_one₀ two_ne_zero, div_eq_mul_inv]
      rw [hhalf]
      rcases max_choice (Int.log 2 |q| - 52) (-1074) with hnormal | hsubnormal
      · have hlog : (2 : ℚ) ^ Int.log 2 q ≤ q := by
          exact_mod_cast Int.zpow_log_le_self (b := 2) one_lt_two hpos
        have hexp : ulpExponent q - 1 = Int.log 2 q + -53 := by
          rw [ulpExponent, hnormal, abs_of_pos hpos]
          omega
        rw [hexp, zpow_add₀ two_ne_zero]
        have := mul_le_mul_of_nonneg_right hlog hpart.le
        linarith
      · rw [ulpExponent, hsubnormal]
        have := mul_nonneg h hpart.le
        norm_num at this ⊢
        linarith
    calc toDouble q ≤ q + 2 ^ ulpExponent q / 2 := by linarith only [herr]
      _ ≤ q + (q * 2 ^ (-53 : ℤ) + 2 ^ (-1075 : ℤ)) := add_le_add_right hulp q
      _ = q * (1 + 2 ^ (-53 : ℤ)) + 2 ^ (-1075 : ℤ) := by rw [mul_add, mul_one, add_assoc]

end Exo.Lib
