import Mathlib.Algebra.Order.Field.Power
import Mathlib.Algebra.Order.Floor.Ring
import Mathlib.Data.Int.Log
import Mathlib.Data.Rat.Floor
import Mathlib.Tactic.FieldSimp
import Mathlib.Tactic.Linarith
import Mathlib.Tactic.NormNum
import Mathlib.Tactic.Positivity
import Mathlib.Tactic.Ring

/-! # Rounding to doubles

Numbers with 53 binary digits, whose last digit is worth `2 ^ -1074` at least; how large they get is
not bounded here. `nearest` rounds a rational number to the nearest of them, ties to the even
digit. It is monotone, and it leaves alone the numbers that have so many digits. -/

namespace CodeHive.Numbers.Doubles

set_option autoImplicit false

/-- A number of 53 binary digits. -/
def IsDouble (x : ℚ) : Prop := ∃ m e : ℤ, |m| ≤ 2 ^ 53 ∧ -1074 ≤ e ∧ x = m * 2 ^ e

/-- What the last digit of a number is worth, as an exponent of 2. -/
def lastDigit (x : ℚ) : ℤ := max (Int.log 2 |x| - 52) (-1074)

/-- To the nearest integer, ties to the even one. -/
def roundEven (x : ℚ) : ℤ :=
  if x - ⌊x⌋ < 1 / 2 then ⌊x⌋
  else if 1 / 2 < x - ⌊x⌋ then ⌊x⌋ + 1
  else if ⌊x⌋ % 2 = 0 then ⌊x⌋ else ⌊x⌋ + 1

/-- **To the nearest number of 53 digits.** -/
def nearest (x : ℚ) : ℚ := roundEven (x / 2 ^ lastDigit x) * 2 ^ lastDigit x

/-! ### Rounding to integers -/

theorem roundEven_cases (x : ℚ) : roundEven x = ⌊x⌋ ∨ roundEven x = ⌊x⌋ + 1 := by
  unfold roundEven
  split_ifs
  · exact Or.inl rfl
  · exact Or.inr rfl
  · exact Or.inl rfl
  · exact Or.inr rfl

theorem roundEven_intCast (z : ℤ) : roundEven z = z := by
  have hzero : ((z : ℚ) - ⌊(z : ℚ)⌋) < 1 / 2 := by
    rw [Int.floor_intCast, sub_self]
    norm_num
  rw [roundEven, if_pos hzero, Int.floor_intCast]

theorem roundEven_mono {x y : ℚ} (h : x ≤ y) : roundEven x ≤ roundEven y := by
  have hfloor : ⌊x⌋ ≤ ⌊y⌋ := Int.floor_mono h
  rcases hfloor.lt_or_eq with hlt | heq
  · rcases roundEven_cases x with hx | hx <;> rcases roundEven_cases y with hy | hy <;> omega
  · -- the fraction decides
    unfold roundEven
    rw [heq]
    have hle : x - ⌊y⌋ ≤ y - ⌊y⌋ := by linarith
    split_ifs <;> first | omega | (exfalso; linarith)

theorem floor_neg_of_fraction {x : ℚ} (h : x ≠ ⌊x⌋) : ⌊-x⌋ = -⌊x⌋ - 1 := by
  have hlt : (⌊x⌋ : ℚ) < x := lt_of_le_of_ne (Int.floor_le x) (Ne.symm h)
  have hgt : x < ⌊x⌋ + 1 := Int.lt_floor_add_one x
  rw [Int.floor_eq_iff]
  push_cast
  constructor <;> linarith

theorem roundEven_neg (x : ℚ) : roundEven (-x) = -roundEven x := by
  by_cases h : x = ⌊x⌋
  · rw [h, ← Int.cast_neg, roundEven_intCast, roundEven_intCast]
  · have hfloor := floor_neg_of_fraction h
    have hcast : ((-⌊x⌋ - 1 : ℤ) : ℚ) = -⌊x⌋ - 1 := by push_cast; ring
    unfold roundEven
    rw [hfloor, hcast]
    split_ifs <;> first | omega | (exfalso; linarith)

/-! ### The last digit -/

theorem lastDigit_neg (x : ℚ) : lastDigit (-x) = lastDigit x := by
  rw [lastDigit, abs_neg, lastDigit]

theorem le_lastDigit (x : ℚ) : -1074 ≤ lastDigit x := le_max_right _ _

theorem lastDigit_mono {x y : ℚ} (hx : 0 < x) (h : x ≤ y) : lastDigit x ≤ lastDigit y := by
  have hlog : Int.log 2 |x| ≤ Int.log 2 |y| := by
    rw [abs_of_pos hx, abs_of_pos (hx.trans_le h)]
    exact Int.log_mono_right hx h
  unfold lastDigit
  omega

/-- A number has no more than 53 digits up to its last one. -/
theorem abs_lt_lastDigit (x : ℚ) : |x| < 2 ^ (lastDigit x + 53) := by
  have hlog : |x| < ((2 : ℕ) : ℚ) ^ (Int.log 2 |x| + 1) :=
    Int.lt_zpow_succ_log_self (by norm_num) |x|
  have hexp : Int.log 2 |x| + 1 ≤ lastDigit x + 53 := by
    unfold lastDigit
    omega
  exact hlog.trans_le (zpow_le_zpow_right₀ (by norm_num) hexp)

/-- What is smaller has no digit beyond. -/
theorem lastDigit_le {x : ℚ} {e : ℤ} (hx : x ≠ 0) (he : -1074 ≤ e) (h : |x| < 2 ^ (e + 53)) :
    lastDigit x ≤ e := by
  have hpos : 0 < |x| := abs_pos.mpr hx
  have hlog : Int.log 2 |x| < e + 53 := (Int.lt_zpow_iff_log_lt (by norm_num) hpos).mp h
  unfold lastDigit
  omega

/-- A number whose last digit is worth more than the least has all 53 digits. -/
theorem le_of_lastDigit {x : ℚ} (hx : 0 < x) (h : -1074 < lastDigit x) :
    2 ^ (lastDigit x + 52) ≤ x := by
  have hlog : ((2 : ℕ) : ℚ) ^ Int.log 2 x ≤ x := Int.zpow_log_le_self (by norm_num) hx
  have hexp : lastDigit x + 52 = Int.log 2 x := by
    unfold lastDigit at h ⊢
    rw [abs_of_pos hx] at h ⊢
    omega
  rw [hexp]
  exact hlog

/-! ### Rounding -/

theorem nearest_zero : nearest 0 = 0 := by
  have hzero : roundEven ((0 : ℤ) : ℚ) = 0 := roundEven_intCast 0
  rw [nearest, zero_div, ← Int.cast_zero, hzero]
  simp

theorem nearest_neg (x : ℚ) : nearest (-x) = -nearest x := by
  rw [nearest, lastDigit_neg, neg_div, roundEven_neg, Int.cast_neg, neg_mul, nearest]

theorem div_le_div_zpow {x y : ℚ} (u : ℤ) (h : x ≤ y) : x / 2 ^ u ≤ y / 2 ^ u :=
  div_le_div_of_nonneg_right h (by positivity)

/-- The digits of a number up to `2 ^ (u + k)`, counted in `2 ^ u`. -/
theorem zpow_div_zpow (u : ℤ) (k : ℕ) : (2 : ℚ) ^ (u + k) / 2 ^ u = ((2 ^ k : ℤ) : ℚ) := by
  rw [zpow_add₀ (by norm_num), zpow_natCast]
  push_cast
  field_simp

theorem nearest_nonneg {x : ℚ} (h : 0 ≤ x) : 0 ≤ nearest x := by
  have hzero : roundEven ((0 : ℤ) : ℚ) = 0 := roundEven_intCast 0
  have hle : 0 ≤ roundEven (x / 2 ^ lastDigit x) := by
    rw [← hzero, Int.cast_zero]
    exact roundEven_mono (by positivity)
  have hcast : (0 : ℚ) ≤ roundEven (x / 2 ^ lastDigit x) := by exact_mod_cast hle
  exact mul_nonneg hcast (by positivity)

theorem nearest_nonpos {x : ℚ} (h : x ≤ 0) : nearest x ≤ 0 := by
  have hneg := nearest_nonneg (neg_nonneg.mpr h)
  rw [nearest_neg] at hneg
  linarith

/-- The digits are no more than 53, or a power of 2. -/
theorem roundEven_le (x : ℚ) : |roundEven (x / 2 ^ lastDigit x)| ≤ 2 ^ 53 := by
  have hlt := abs_lt_lastDigit x
  rw [abs_lt] at hlt
  have hpow := zpow_div_zpow (lastDigit x) 53
  rw [Nat.cast_ofNat] at hpow
  have hhigh : roundEven (x / 2 ^ lastDigit x) ≤ 2 ^ 53 := by
    rw [← roundEven_intCast (2 ^ 53), ← hpow]
    exact roundEven_mono (div_le_div_zpow _ hlt.2.le)
  have hlow : -2 ^ 53 ≤ roundEven (x / 2 ^ lastDigit x) := by
    rw [← roundEven_intCast (-2 ^ 53), Int.cast_neg, ← hpow, ← neg_div]
    exact roundEven_mono (div_le_div_zpow _ hlt.1.le)
  exact abs_le.mpr ⟨hlow, hhigh⟩

/-- **What is rounded has 53 digits.** -/
theorem isDouble_nearest (x : ℚ) : IsDouble (nearest x) :=
  ⟨_, _, roundEven_le x, le_lastDigit x, rfl⟩

/-- Rounding among positive numbers, whose digits may differ in worth. -/
theorem nearest_mono_of_pos {x y : ℚ} (hx : 0 < x) (h : x ≤ y) : nearest x ≤ nearest y := by
  rcases (lastDigit_mono hx h).lt_or_eq with hlt | heq
  · -- a power of 2 lies between
    have hhigh : nearest x ≤ 2 ^ 53 * 2 ^ lastDigit x := by
      have hround : (roundEven (x / 2 ^ lastDigit x) : ℚ) ≤ 2 ^ 53 := by
        exact_mod_cast (abs_le.mp (roundEven_le x)).2
      exact mul_le_mul_of_nonneg_right hround (by positivity)
    have hlow : 2 ^ 52 * 2 ^ lastDigit y ≤ nearest y := by
      have hpow := zpow_div_zpow (lastDigit y) 52
      rw [Nat.cast_ofNat] at hpow
      have hround : 2 ^ 52 ≤ roundEven (y / 2 ^ lastDigit y) := by
        rw [← roundEven_intCast (2 ^ 52), ← hpow]
        have hleast := le_lastDigit x
        exact roundEven_mono (div_le_div_zpow _ (le_of_lastDigit (hx.trans_le h) (by omega)))
      have hcast : (2 ^ 52 : ℚ) ≤ roundEven (y / 2 ^ lastDigit y) := by exact_mod_cast hround
      exact mul_le_mul_of_nonneg_right hcast (by positivity)
    have hpowers : (2 : ℚ) ^ 53 * 2 ^ lastDigit x ≤ 2 ^ 52 * 2 ^ lastDigit y := by
      rw [← zpow_natCast, ← zpow_natCast, ← zpow_add₀ (by norm_num), ← zpow_add₀ (by norm_num)]
      exact zpow_le_zpow_right₀ (by norm_num) (by push_cast; omega)
    exact hhigh.trans (hpowers.trans hlow)
  · have hround : (roundEven (x / 2 ^ lastDigit y) : ℚ) ≤ roundEven (y / 2 ^ lastDigit y) := by
      exact_mod_cast roundEven_mono (div_le_div_zpow _ h)
    rw [nearest, nearest, heq]
    exact mul_le_mul_of_nonneg_right hround (by positivity)

/-- **Rounding is monotone.** -/
theorem nearest_mono {x y : ℚ} (h : x ≤ y) : nearest x ≤ nearest y := by
  rcases lt_or_ge 0 x with hx | hx
  · exact nearest_mono_of_pos hx h
  · rcases lt_or_ge y 0 with hy | hy
    · have hneg := nearest_mono_of_pos (neg_pos.mpr hy) (neg_le_neg h)
      rw [nearest_neg, nearest_neg] at hneg
      linarith
    · exact (nearest_nonpos hx).trans (nearest_nonneg hy)

/-! ### The numbers that are left alone -/

/-- Without the power of 2. -/
theorem IsDouble.strict {x : ℚ} (h : IsDouble x) :
    ∃ m e : ℤ, |m| < 2 ^ 53 ∧ -1074 ≤ e ∧ x = m * 2 ^ e := by
  obtain ⟨m, e, hm, he, rfl⟩ := h
  rcases hm.lt_or_eq with hlt | heq
  · exact ⟨m, e, hlt, he, rfl⟩
  · rcases abs_eq (by norm_num) |>.mp heq with rfl | rfl
    · refine ⟨2 ^ 52, e + 1, by norm_num, by omega, ?_⟩
      rw [zpow_add₀ (by norm_num)]
      push_cast
      ring
    · refine ⟨-2 ^ 52, e + 1, by norm_num, by omega, ?_⟩
      rw [zpow_add₀ (by norm_num)]
      push_cast
      ring

/-- **A number of 53 digits is left alone.** -/
theorem IsDouble.nearest {x : ℚ} (h : IsDouble x) : Doubles.nearest x = x := by
  by_cases hx : x = 0
  · rw [hx, nearest_zero]
  · obtain ⟨m, e, hm, he, hval⟩ := h.strict
    have habs : |x| < 2 ^ (e + 53) := by
      have hcast : |(m : ℚ)| < 2 ^ 53 := by exact_mod_cast hm
      rw [hval, abs_mul, abs_of_pos (show (0 : ℚ) < 2 ^ e by positivity), add_comm,
        zpow_add₀ (by norm_num)]
      exact mul_lt_mul_of_pos_right hcast (by positivity)
    -- its digits are those up to the last one
    obtain ⟨k, hk⟩ := Int.eq_ofNat_of_zero_le (sub_nonneg.mpr (lastDigit_le hx he habs))
    have hdigits : x / 2 ^ lastDigit x = ((m * 2 ^ k : ℤ) : ℚ) := by
      have hpow : (2 : ℚ) ^ e / 2 ^ lastDigit x = 2 ^ k := by
        rw [← zpow_sub₀ (by norm_num), hk, zpow_natCast]
      calc x / 2 ^ lastDigit x = m * 2 ^ e / 2 ^ lastDigit x := by rw [← hval]
        _ = m * (2 ^ e / 2 ^ lastDigit x) := mul_div_assoc _ _ _
        _ = ((m * 2 ^ k : ℤ) : ℚ) := by rw [hpow]; push_cast; rfl
    rw [Doubles.nearest, hdigits, roundEven_intCast, ← hdigits]
    exact div_mul_cancel₀ x (by positivity)

/-- Rounding does not pass a number of 53 digits. -/
theorem nearest_le {x d : ℚ} (hd : IsDouble d) (h : x ≤ d) : nearest x ≤ d := by
  have hmono := nearest_mono h
  rwa [hd.nearest] at hmono

theorem le_nearest {x d : ℚ} (hd : IsDouble d) (h : d ≤ x) : d ≤ nearest x := by
  have hmono := nearest_mono h
  rwa [hd.nearest] at hmono

theorem IsDouble.neg {x : ℚ} (h : IsDouble x) : IsDouble (-x) := by
  obtain ⟨m, e, hm, he, rfl⟩ := h
  exact ⟨-m, e, by rwa [abs_neg], he, by push_cast; ring⟩

theorem abs_nearest_le {x d : ℚ} (hd : IsDouble d) (h : |x| ≤ d) : |nearest x| ≤ d := by
  rw [abs_le] at h ⊢
  exact ⟨le_nearest hd.neg h.1, nearest_le hd h.2⟩

theorem isDouble_intCast {z : ℤ} (h : |z| ≤ 2 ^ 53) : IsDouble z :=
  ⟨z, 0, h, by norm_num, by simp⟩

theorem isDouble_natCast {n : ℕ} (h : n ≤ 2 ^ 53) : IsDouble n := by
  have hcast : IsDouble ((n : ℤ) : ℚ) := isDouble_intCast (by rw [Nat.abs_cast]; exact_mod_cast h)
  rwa [Int.cast_natCast] at hcast

theorem isDouble_natCast_mul {n : ℕ} (h : n ≤ 2 ^ 53) (k : ℕ) : IsDouble (n * 2 ^ k) :=
  ⟨n, k, by rw [Nat.abs_cast]; exact_mod_cast h, by omega, by simp⟩

theorem isDouble_two_pow (k : ℕ) : IsDouble (2 ^ k) :=
  ⟨1, k, by norm_num, by omega, by simp⟩

theorem nearest_intCast {z : ℤ} (h : |z| ≤ 2 ^ 53) : nearest z = z := (isDouble_intCast h).nearest

theorem nearest_natCast {n : ℕ} (h : n ≤ 2 ^ 53) : nearest n = n := (isDouble_natCast h).nearest

/-- An integer is rounded to an integer. -/
theorem exists_nearest_intCast (z : ℤ) : ∃ k : ℤ, nearest z = k := by
  rcases lt_or_ge (lastDigit z) 0 with hneg | hpos
  · -- it has no more than 53 digits
    have hlt : |(z : ℚ)| < 2 ^ (53 : ℤ) :=
      (abs_lt_lastDigit z).trans (zpow_lt_zpow_right₀ (by norm_num) (by omega))
    have hle : |z| ≤ 2 ^ 53 := by
      have hcast : |(z : ℚ)| < 2 ^ 53 := by exact_mod_cast hlt
      exact_mod_cast hcast.le
    exact ⟨z, nearest_intCast hle⟩
  · obtain ⟨k, hk⟩ := Int.eq_ofNat_of_zero_le hpos
    refine ⟨roundEven (z / 2 ^ lastDigit z) * 2 ^ k, ?_⟩
    rw [nearest, hk, zpow_natCast]
    push_cast
    rfl

/-- From 1 to `2 ^ 53`, a step down by 1 is exact. -/
theorem IsDouble.sub_one {x : ℚ} (h : IsDouble x) (hone : 1 ≤ x) (hx : x ≤ 2 ^ 53) :
    IsDouble (x - 1) := by
  obtain ⟨m, e, hm, he, hval⟩ := h
  rcases le_total 0 e with hpos | hneg
  · -- an integer
    obtain ⟨k, rfl⟩ := Int.eq_ofNat_of_zero_le hpos
    have hint : x = ((m * 2 ^ k : ℤ) : ℚ) := by
      rw [hval, zpow_natCast]
      push_cast
      rfl
    have hstep : x - 1 = ((m * 2 ^ k - 1 : ℤ) : ℚ) := by
      rw [hint]
      push_cast
      rfl
    rw [hint] at hone hx
    have hlow : 1 ≤ m * 2 ^ k := by exact_mod_cast hone
    have hhigh : m * 2 ^ k ≤ 2 ^ 53 := by exact_mod_cast hx
    rw [hstep]
    exact isDouble_intCast (abs_le.mpr ⟨by omega, by omega⟩)
  · -- the digits less those of 1
    obtain ⟨k, hk⟩ := Int.eq_ofNat_of_zero_le (neg_nonneg.mpr hneg)
    have hone' : (1 : ℚ) = ((2 ^ k : ℤ) : ℚ) * 2 ^ e := by
      rw [show e = -(k : ℤ) by omega, zpow_neg, zpow_natCast]
      push_cast
      rw [mul_inv_cancel₀ (by positivity)]
    have hpow : (0 : ℚ) < 2 ^ e := by positivity
    have hdigits : (2 ^ k : ℤ) ≤ m := by
      have hle : ((2 ^ k : ℤ) : ℚ) * 2 ^ e ≤ m * 2 ^ e := by rw [← hone', ← hval]; exact hone
      exact_mod_cast le_of_mul_le_mul_right hle hpow
    refine ⟨m - 2 ^ k, e, ?_, he, ?_⟩
    · have hk : (0 : ℤ) ≤ 2 ^ k := by positivity
      rw [abs_of_nonneg (by omega)]
      have := le_abs_self m
      omega
    · rw [hval]
      nth_rewrite 1 [hone']
      push_cast
      ring

end CodeHive.Numbers.Doubles
