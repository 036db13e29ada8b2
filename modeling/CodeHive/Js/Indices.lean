import CodeHive.Js.Value
import CodeHive.Lists.Pages
import Mathlib.Algebra.Order.Floor.Ring
import Mathlib.Data.Rat.Floor
import Mathlib.Tactic.Linarith

/-! # Indices of array methods

An index is rounded toward zero, and a negative one counts from the end. -/

namespace CodeHive.Js.Indices

set_option autoImplicit false

open CodeHive.Js.Value CodeHive.Lists.Pages

/-- An index is rounded toward zero. -/
def trunc (q : Finite) : ℤ := q.num.tdiv q.den

theorem trunc_of_nonneg {q : Finite} (h : 0 ≤ q) : trunc q = ⌊q⌋ := by
  rw [trunc, Rat.floor_def', Int.tdiv_eq_ediv_of_nonneg (Rat.num_nonneg.mpr h)]

theorem trunc_neg (q : Finite) : trunc (-q) = -trunc q := by
  rw [trunc, Rat.neg_num, Rat.neg_den, Int.neg_tdiv, trunc]

theorem trunc_of_nonpos {q : Finite} (h : q ≤ 0) : trunc q = ⌈q⌉ := by
  have hneg := trunc_of_nonneg (neg_nonneg.mpr h)
  rw [trunc_neg, Int.floor_neg] at hneg
  omega

theorem trunc_intCast (z : ℤ) : trunc z = z := by simp [trunc]

theorem trunc_mono {p q : Finite} (h : p ≤ q) : trunc p ≤ trunc q := by
  rcases le_total 0 p with hp | hp
  · rw [trunc_of_nonneg hp, trunc_of_nonneg (hp.trans h)]
    exact Int.floor_mono h
  · rcases le_total 0 q with hq | hq
    · have hzero : ⌈p⌉ ≤ 0 := Int.ceil_le.mpr (by exact_mod_cast hp)
      have hfloor : 0 ≤ ⌊q⌋ := Int.floor_nonneg.mpr hq
      rw [trunc_of_nonpos hp, trunc_of_nonneg hq]
      omega
    · rw [trunc_of_nonpos hp, trunc_of_nonpos hq]
      exact Int.ceil_mono h

/-- Rounding does not lengthen an interval of whole length. -/
theorem trunc_add_le {p : Finite} {n : ℕ} (h : p ≤ n) (q : Finite) :
    trunc (q + p) ≤ trunc q + n := by
  have hmono : trunc (q + p) ≤ trunc (q + n) := trunc_mono (by linarith)
  refine hmono.trans ?_
  rcases le_total 0 q with hq | hq
  · have hn : 0 ≤ q + n := by positivity
    rw [trunc_of_nonneg hq, trunc_of_nonneg hn, Int.floor_add_natCast]
  · rcases le_total 0 (q + n) with hn | hn
    · rw [trunc_of_nonpos hq, trunc_of_nonneg hn, Int.floor_add_natCast]
      have := Int.floor_le_ceil q
      omega
    · rw [trunc_of_nonpos hq, trunc_of_nonpos hn, Int.ceil_add_natCast]

theorem clampIndex_fin (len : ℕ) (q : Finite) : (Number.fin q).clampIndex len =
    if trunc q < 0 then (len + trunc q).toNat else min (trunc q).toNat len := rfl

/-- An index that is not negative is rounded down. -/
theorem clampIndex_floor (len : ℕ) {r : ℚ} (hr : 0 ≤ r) :
    (Number.fin r).clampIndex len = min ⌊r⌋₊ len := by
  have hpos : ¬ ⌊r⌋ < 0 := not_lt.mpr (Int.floor_nonneg.mpr hr)
  rw [clampIndex_fin, trunc_of_nonneg hr, if_neg hpos, Int.floor_toNat]

theorem clampIndex_le (len : ℕ) (x : Number) : x.clampIndex len ≤ len := by
  cases x with
  | nan => exact Nat.zero_le _
  | negInf => exact Nat.zero_le _
  | posInf => exact Nat.le_refl _
  | fin q =>
    rw [clampIndex_fin]
    split_ifs with h <;> omega

section
variable {α : Type}

theorem length_slice (xs : List α) (start stop : Number) : (slice xs start stop).length =
    stop.clampIndex xs.length - start.clampIndex xs.length := by
  have := clampIndex_le xs.length stop
  rw [slice, List.length_take, List.length_drop]
  omega

/-- Indices that are not negative cut out a page. -/
theorem slice_fin (xs : List α) {p q : Finite} (hp : 0 ≤ p) (hq : 0 ≤ q) :
    slice xs (.fin p) (.fin q) = page ⌊p⌋₊ (⌊q⌋₊ - ⌊p⌋₊) xs := by
  rw [slice, clampIndex_floor _ hp, clampIndex_floor _ hq, page]
  rcases le_total xs.length ⌊p⌋₊ with hlen | hlen
  · rw [List.drop_eq_nil_of_le (by omega), List.drop_eq_nil_of_le hlen, List.take_nil, List.take_nil]
  · rw [Nat.min_eq_left hlen, List.take_eq_take_iff, List.length_drop]
    omega

/-- From the front, as many as there are at most. -/
theorem slice_zero (xs : List α) {q : Finite} (hq : 0 ≤ q) :
    slice xs (.fin 0) (.fin q) = xs.take ⌊q⌋₊ := by
  rw [slice_fin xs le_rfl hq, Nat.floor_zero, Nat.sub_zero, page, List.drop_zero]

theorem isInfix_slice (xs : List α) (start stop : Number) : slice xs start stop <:+: xs :=
  (List.take_prefix _ _).isInfix.trans (List.drop_suffix _ _).isInfix

end

end CodeHive.Js.Indices
