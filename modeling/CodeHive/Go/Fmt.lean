import Mathlib.Data.Int.Basic

/-! # The verb `%d`

An integer in base ten, as `toString` spells it. -/

namespace CodeHive.Go.Fmt

set_option autoImplicit false

theorem repr_inj {m n : ℕ} (h : m.repr = n.repr) : m = n := by
  have hdigits := congrArg (fun s => Nat.ofDigitChars 10 s.toList 0) h
  simpa only [Nat.toList_repr, Nat.ofDigitChars_ten_toDigits] using hdigits

/-- A natural number is spelled without a sign. -/
theorem repr_ne_neg (m : ℕ) (s : String) : m.repr ≠ "-" ++ s := by
  intro h
  have hmem : '-' ∈ Nat.toDigits 10 m := by
    rw [← Nat.toList_repr, h]
    simp
  exact absurd (Nat.isDigit_of_mem_toDigits (by omega) (by omega) hmem) (by decide)

/-- **Different integers are spelled differently.** -/
theorem toString_inj {x y : ℤ} (h : toString x = toString y) : x = y := by
  cases x with
  | ofNat m =>
    cases y with
    | ofNat n => exact congrArg Int.ofNat (repr_inj h)
    | negSucc n => exact absurd h (repr_ne_neg m _)
  | negSucc m =>
    cases y with
    | ofNat n => exact absurd h.symm (repr_ne_neg n _)
    | negSucc n =>
      have hneg : "-" ++ (m + 1).repr = "-" ++ (n + 1).repr := h
      have hsucc := repr_inj ((String.append_right_inj "-").mp hneg)
      exact congrArg Int.negSucc (Nat.succ.inj hsucc)

end CodeHive.Go.Fmt
