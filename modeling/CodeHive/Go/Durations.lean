import Mathlib.Algebra.Group.Nat.Defs
import Mathlib.Algebra.Ring.Int.Defs
import Mathlib.Data.Int.Basic
import Mathlib.Data.List.TakeWhile

/-! # `time.Duration` as text

`Duration.String` and `time.ParseDuration`. A `uint64` is a natural number; where a sum may not fit
it is taken modulo `2 ^ 64`. What `ParseDuration` computes in `float64` is a parameter. -/

namespace CodeHive.Go.Durations

set_option autoImplicit false

/-! ### `String` -/

/-- `fmtInt`. -/
def fmtInt (v : ℕ) : List Char := Nat.toDigits 10 v

/-- The loop of `fmtFrac`: zeros are not printed before the first digit that is none. -/
def fmtDigits : ℕ → ℕ → Bool → List Char → Bool × List Char × ℕ
  | 0, v, print, buf => (print, buf, v)
  | prec + 1, v, print, buf =>
    let print := print || v % 10 != 0
    fmtDigits prec (v / 10) print (if print then (v % 10).digitChar :: buf else buf)

/-- `fmtFrac`: the fraction of `v / 10 ^ prec` before `buf`, and the whole part. -/
def fmtFrac (buf : List Char) (v prec : ℕ) : List Char × ℕ :=
  let (print, buf, v) := fmtDigits prec v false buf
  (if print then '.' :: buf else buf, v)

/-- Less than a second, in the largest unit that fits: its decimals, and its name. -/
def smallUnit (u : ℕ) : ℕ × List Char :=
  if u < 10 ^ 3 then (0, ['n', 's'])
  else if u < 10 ^ 6 then (3, ['µ', 's'])
  else (6, ['m', 's'])

def formatSmall (u : ℕ) : List Char :=
  let (prec, unit) := smallUnit u
  let (buf, u) := fmtFrac unit u prec
  fmtInt u ++ buf

def formatLarge (u : ℕ) : List Char :=
  let (buf, u) := fmtFrac ['s'] u 9
  let buf := fmtInt (u % 60) ++ buf
  let u := u / 60
  if 0 < u then
    let buf := fmtInt (u % 60) ++ 'm' :: buf
    let u := u / 60
    if 0 < u then fmtInt u ++ 'h' :: buf else buf
  else buf

/-- `format`. -/
def format (d : ℤ) : List Char :=
  let u := d.natAbs
  let body := if u = 0 then ['0', 's'] else if u < 10 ^ 9 then formatSmall u else formatLarge u
  if d < 0 then '-' :: body else body

/-- `Duration.String`. -/
def Duration.String (d : ℤ) : String := String.ofList (format d)

/-! ### `ParseDuration` -/

/-- `leadingInt`; `none` on overflow. -/
def leadingInt : List Char → ℕ → Option (ℕ × List Char)
  | [], x => some (x, [])
  | c :: s, x =>
    if c.isDigit then
      if 2 ^ 63 / 10 < x then none
      else
        let x := 10 * x + (c.toNat - '0'.toNat)
        if 2 ^ 63 < x then none else leadingInt s x
    else some (x, c :: s)

/-- `leadingFraction`: the digits, as far as they fit, and the power of ten they are over. -/
def leadingFraction : List Char → ℕ → ℕ → Bool → ℕ × ℕ × List Char
  | [], x, scale, _ => (x, scale, [])
  | c :: s, x, scale, overflow =>
    if c.isDigit then
      if overflow then leadingFraction s x scale true
      else if (2 ^ 63 - 1) / 10 < x then leadingFraction s x scale true
      else
        let y := 10 * x + (c.toNat - '0'.toNat)
        if 2 ^ 63 < y then leadingFraction s x scale true
        else leadingFraction s y (scale * 10) false
    else (x, scale, c :: s)

/-- `unitMap`, in nanoseconds. -/
def unitMap : String → Option ℕ
  | "ns" => some 1
  | "us" => some (10 ^ 3)
  | "µs" => some (10 ^ 3)
  | "μs" => some (10 ^ 3)
  | "ms" => some (10 ^ 6)
  | "s" => some (10 ^ 9)
  | "m" => some (60 * 10 ^ 9)
  | "h" => some (3600 * 10 ^ 9)
  | _ => none

/-- A unit ends at a digit or a point. -/
def inUnit (c : Char) : Bool := !(c = '.' || c.isDigit)

/-- The digits after a point, if there is one: `f`, `scale`, what follows, and whether there are
any. -/
def fraction : List Char → ℕ × ℕ × List Char × Bool
  | '.' :: s =>
    let (f, scale, rest) := leadingFraction s 0 1 false
    (f, scale, rest, s.length ≠ rest.length)
  | s => (0, 1, s, false)

/-- `uint64(float64(f) * (float64(unit) / scale))`. -/
abbrev Scaling := ℕ → ℕ → ℕ → ℕ

/-- `float64` is exact where quotient and product are integers below `2 ^ 53`. -/
def Exact (scaled : Scaling) : Prop :=
  ∀ f unit scale, scale ∣ unit → unit / scale < 2 ^ 53 → f * (unit / scale) < 2 ^ 53 →
    scaled f unit scale = f * (unit / scale)

section
variable (scaled : Scaling)

/-- One pass of the loop of `ParseDuration`: a number with its unit, and what follows. -/
def parsePart (s : List Char) : Option (ℕ × List Char) := do
  if inUnit (s.headD 'x') then none
  let (v, s₁) ← leadingInt s 0
  let (f, scale, s₂, post) := fraction s₁
  if s.length = s₁.length ∧ post = false then none
  let u := s₂.takeWhile inUnit
  let rest := s₂.dropWhile inUnit
  if u = [] then none
  let unit ← unitMap (String.ofList u)
  if 2 ^ 63 / unit < v then none
  let v := v * unit
  if 0 < f then
    let v := v + scaled f unit scale
    if 2 ^ 63 < v then none else some (v, rest)
  else some (v, rest)

/-- The loop of `ParseDuration`; each pass consumes a character, so that there are no more passes
than characters. -/
def parseParts : ℕ → List Char → ℕ → Option ℕ
  | _, [], d => some d
  | 0, _ :: _, _ => none
  | k + 1, c :: s, d => do
    let (v, rest) ← parsePart scaled (c :: s)
    let d := (d + v) % 2 ^ 64
    if 2 ^ 63 < d then none else parseParts k rest d

/-- The sign, if there is one. -/
def sign : List Char → Bool × List Char
  | '-' :: s => (true, s)
  | '+' :: s => (false, s)
  | s => (false, s)

def parse (s : List Char) : Option ℤ :=
  let (neg, s) := sign s
  if s = ['0'] then some 0
  else if s = [] then none
  else do
    let d ← parseParts scaled s.length s 0
    if neg then some (-(d : ℤ))
    else if 2 ^ 63 - 1 < d then none
    else some d

/-- `time.ParseDuration`. -/
def ParseDuration (s : String) : Option ℤ := parse scaled s.toList

end

/-! ### Digits are read as they were written -/

/-- What follows does not begin with a character that is `p`. -/
def Stops (p : Char → Bool) (rest : List Char) : Prop := ∀ c ∈ rest.head?, p c = false

/-- All characters are digits. -/
def Digits (ds : List Char) : Prop := ∀ c ∈ ds, c.isDigit = true

section
variable {ds rest : List Char} {x : ℕ}

theorem le_ofDigitChars (ds : List Char) (x : ℕ) : x ≤ Nat.ofDigitChars 10 ds x := by
  induction ds generalizing x with
  | nil => rw [Nat.ofDigitChars_nil]
  | cons c ds ih =>
    rw [Nat.ofDigitChars_cons]
    exact Nat.le_trans (by omega) (ih _)

theorem leadingInt_stops (h : Stops Char.isDigit rest) (x : ℕ) :
    leadingInt rest x = some (x, rest) := by
  cases rest with
  | nil => rfl
  | cons c rest => exact if_neg (Bool.eq_false_iff.mp (h c rfl))

theorem leadingInt_digits (hds : Digits ds) (hrest : Stops Char.isDigit rest)
    (hx : Nat.ofDigitChars 10 ds x ≤ 2 ^ 63) :
    leadingInt (ds ++ rest) x = some (Nat.ofDigitChars 10 ds x, rest) := by
  induction ds generalizing x with
  | nil => exact leadingInt_stops hrest x
  | cons c ds ih =>
    rw [Nat.ofDigitChars_cons] at hx
    have hle := le_ofDigitChars ds (10 * x + (c.toNat - '0'.toNat))
    have hdiv : ¬ 2 ^ 63 / 10 < x := by omega
    have hfits : ¬ 2 ^ 63 < 10 * x + (c.toNat - '0'.toNat) := by omega
    rw [List.cons_append, leadingInt, if_pos (hds c List.mem_cons_self), if_neg hdiv]
    simp only [if_neg hfits]
    exact ih (fun d hd => hds d (List.mem_cons_of_mem _ hd)) hx

theorem leadingFraction_stops (h : Stops Char.isDigit rest) (x scale : ℕ) (overflow : Bool) :
    leadingFraction rest x scale overflow = (x, scale, rest) := by
  cases rest with
  | nil => rfl
  | cons c rest => exact if_neg (Bool.eq_false_iff.mp (h c rfl))

theorem leadingFraction_digits (hds : Digits ds) (hrest : Stops Char.isDigit rest) {scale : ℕ}
    (hx : Nat.ofDigitChars 10 ds x < 10 ^ 9) :
    leadingFraction (ds ++ rest) x scale false =
      (Nat.ofDigitChars 10 ds x, scale * 10 ^ ds.length, rest) := by
  induction ds generalizing x scale with
  | nil => simpa using leadingFraction_stops hrest x scale false
  | cons c ds ih =>
    rw [Nat.ofDigitChars_cons] at hx
    have hle := le_ofDigitChars ds (10 * x + (c.toNat - '0'.toNat))
    have hdiv : ¬ (2 ^ 63 - 1) / 10 < x := by omega
    have hfits : ¬ 2 ^ 63 < 10 * x + (c.toNat - '0'.toNat) := by omega
    rw [List.cons_append, leadingFraction, if_pos (hds c List.mem_cons_self), if_neg (by simp),
      if_neg hdiv]
    simp only [if_neg hfits]
    have hscale : scale * 10 ^ (c :: ds).length = scale * 10 * 10 ^ ds.length := by
      rw [List.length_cons, Nat.pow_succ', Nat.mul_assoc]
    rw [ih (fun d hd => hds d (List.mem_cons_of_mem _ hd)) hx, hscale, Nat.ofDigitChars_cons]

theorem digits_fmtInt (v : ℕ) : Digits (fmtInt v) := fun _ hc =>
  Nat.isDigit_of_mem_toDigits (by omega) (by omega) hc

theorem leadingInt_fmtInt {v : ℕ} (hv : v ≤ 2 ^ 63) (hrest : Stops Char.isDigit rest) :
    leadingInt (fmtInt v ++ rest) 0 = some (v, rest) := by
  have hval : Nat.ofDigitChars 10 (fmtInt v) 0 = v := Nat.ofDigitChars_ten_toDigits
  have hread := leadingInt_digits (digits_fmtInt v) hrest (hval.symm ▸ hv)
  rwa [hval] at hread

end

/-! ### Fractions -/

/-- `F` spells `r / 10 ^ prec`, which is less than one: by nothing at all, or with a point. -/
inductive IsFrac (prec : ℕ) : ℕ → List Char → Prop where
  | none : IsFrac prec 0 []
  | some {ds : List Char} {k : ℕ} (hds : Digits ds) (hne : ds ≠ []) (hlen : ds.length + k = prec) :
      IsFrac prec (Nat.ofDigitChars 10 ds 0 * 10 ^ k) ('.' :: ds)

theorem isDigit_digitChar {n : ℕ} (h : n < 10) : n.digitChar.isDigit = true :=
  Nat.isDigit_of_mem_toDigits (b := 10) (n := n) (by omega) (by omega)
    (by rw [Nat.toDigits_of_lt_base h]; exact List.mem_singleton_self _)

/-- What the loop prints: nothing, or the last digits of `v` without zeros at their end. -/
theorem fmtDigits_spec (prec v : ℕ) (print : Bool) (buf : List Char) :
    ∃ ds k, Digits ds ∧ ds.length + k = prec ∧
      fmtDigits prec v print buf = (print || v % 10 ^ prec != 0, ds ++ buf, v / 10 ^ prec) ∧
      Nat.ofDigitChars 10 ds 0 * 10 ^ k = v % 10 ^ prec ∧ (print = true → k = 0) ∧
      (print = false → v % 10 ^ prec = 0 → ds = []) := by
  induction prec generalizing v print buf with
  | zero =>
    exact ⟨[], 0, by simp [Digits], rfl, by simp [fmtDigits, Nat.mod_one], by simp [Nat.mod_one],
      fun _ => rfl, fun _ _ => rfl⟩
  | succ prec ih =>
    have hmod : v % 10 ^ (prec + 1) = v % 10 + 10 * (v / 10 % 10 ^ prec) := by
      rw [Nat.pow_succ', Nat.mod_mul]
    have hdiv : v / 10 / 10 ^ prec = v / 10 ^ (prec + 1) := by
      rw [Nat.pow_succ', Nat.div_div_eq_div_mul]
    by_cases hp : (print || v % 10 != 0) = true
    · obtain ⟨ds, k, hds, hlen, heq, hval, hk, -⟩ := ih (v / 10) true ((v % 10).digitChar :: buf)
      obtain rfl := hk rfl
      have hlt : v % 10 < 10 := Nat.mod_lt _ (by omega)
      refine ⟨ds ++ [(v % 10).digitChar], 0, ?_, by simp; omega, ?_, ?_, fun _ => rfl, ?_⟩
      · intro c hc
        rcases List.mem_append.mp hc with hc | hc
        · exact hds c hc
        · rw [List.mem_singleton.mp hc]
          exact isDigit_digitChar hlt
      · have hflag : (print || v % 10 ^ (prec + 1) != 0) = true := by
          cases print with
          | true => rfl
          | false =>
            have hne : v % 10 ≠ 0 := by simpa using hp
            have hne' : v % 10 ^ (prec + 1) ≠ 0 := by omega
            simpa using hne'
        rw [fmtDigits, hp, if_pos rfl, heq, hdiv, hflag, List.append_assoc]
        rfl
      · rw [Nat.ofDigitChars_append, Nat.ofDigitChars_cons_digitChar_of_lt_ten hlt,
          Nat.ofDigitChars_nil, hmod]
        simp only [Nat.pow_zero, Nat.mul_one] at hval ⊢
        omega
      · intro hprint hzero
        have hne : v % 10 ≠ 0 := by simpa [hprint] using hp
        omega
    · have hfalse : (print || v % 10 != 0) = false := by simpa using hp
      obtain ⟨rfl, hzero⟩ : print = false ∧ v % 10 = 0 := by simpa using hfalse
      obtain ⟨ds, k, hds, hlen, heq, hval, -, hnil⟩ := ih (v / 10) false buf
      refine ⟨ds, k + 1, hds, by omega, ?_, ?_, by simp, fun _ h => hnil rfl (by omega)⟩
      · have hflag : (v / 10 % 10 ^ prec != 0) = (v % 10 ^ (prec + 1) != 0) := by
          rw [hmod, hzero, Bool.eq_iff_iff]
          simp only [bne_iff_ne]
          omega
        rw [fmtDigits, hfalse, if_neg (by simp), heq, hdiv, hflag]
      · rw [Nat.pow_succ, ← Nat.mul_assoc, hval, hmod, hzero]
        omega

/-- **`fmtFrac` splits a number** into its whole part and a fraction that spells the rest. -/
theorem fmtFrac_spec (buf : List Char) (v prec : ℕ) :
    ∃ F, fmtFrac buf v prec = (F ++ buf, v / 10 ^ prec) ∧ IsFrac prec (v % 10 ^ prec) F := by
  obtain ⟨ds, k, hds, hlen, heq, hval, -, hnil⟩ := fmtDigits_spec prec v false buf
  unfold fmtFrac
  rw [heq]
  by_cases hzero : v % 10 ^ prec = 0
  · refine ⟨[], ?_, by rw [hzero]; exact .none⟩
    simp [hzero, hnil rfl hzero]
  · have hne : ds ≠ [] := by
      rintro rfl
      rw [Nat.ofDigitChars_nil, Nat.zero_mul] at hval
      exact hzero hval.symm
    exact ⟨'.' :: ds, by simp [hzero], hval ▸ .some hds hne hlen⟩

/-! ### Numbers with their units -/

section
variable {scaled : Scaling} {prec q r unit : ℕ} {F U rest : List Char}

theorem not_isDigit_of_inUnit {c : Char} (h : inUnit c = true) : c.isDigit = false := by
  simp only [inUnit, Bool.not_eq_true', Bool.or_eq_false_iff] at h
  exact h.2

theorem ne_point_of_inUnit {c : Char} (h : inUnit c = true) : c ≠ '.' := by
  simp only [inUnit, Bool.not_eq_true', Bool.or_eq_false_iff, decide_eq_false_iff_not] at h
  exact h.1

theorem fraction_of_inUnit {c : Char} (h : inUnit c = true) (s : List Char) :
    fraction (c :: s) = (0, 1, c :: s, false) := by
  unfold fraction
  split
  · next heq => exact absurd (List.cons.inj heq).1 (ne_point_of_inUnit h)
  · rfl

/-- A fraction is read as a number over a power of ten. -/
theorem fraction_frac (hF : IsFrac prec r F) (hr : r < 10 ^ prec) (hp : prec ≤ 9) {c : Char}
    (hc : inUnit c = true) (s : List Char) :
    ∃ f m post, fraction (F ++ c :: s) = (f, 10 ^ m, c :: s, post) ∧ m ≤ prec ∧
      f * 10 ^ (prec - m) = r := by
  cases hF with
  | none => exact ⟨0, 0, false, fraction_of_inUnit hc s, Nat.zero_le _, Nat.zero_mul _⟩
  | @some ds k hds hne hlen =>
    have hpow : 10 ^ prec ≤ 10 ^ 9 := Nat.pow_le_pow_right (by omega) hp
    have hmul : Nat.ofDigitChars 10 ds 0 ≤ Nat.ofDigitChars 10 ds 0 * 10 ^ k :=
      Nat.le_mul_of_pos_right _ (Nat.pow_pos (by omega))
    have hread : leadingFraction (ds ++ c :: s) 0 1 false =
        (Nat.ofDigitChars 10 ds 0, 1 * 10 ^ ds.length, c :: s) := by
      refine leadingFraction_digits hds (fun d hd => ?_) (by omega)
      cases hd
      exact not_isDigit_of_inUnit hc
    refine ⟨Nat.ofDigitChars 10 ds 0, ds.length, (ds ++ c :: s).length ≠ (c :: s).length, ?_,
      by omega, ?_⟩
    · rw [List.cons_append, fraction, hread, Nat.one_mul]
    · rw [show prec - ds.length = k by omega]

theorem fmtInt_ne_nil (q : ℕ) : fmtInt q ≠ [] := Nat.toDigits_ne_nil

theorem headD_fmtInt (q : ℕ) (s : List Char) : inUnit ((fmtInt q ++ s).headD 'x') = false := by
  obtain ⟨c, t, hq⟩ := List.exists_cons_of_ne_nil (fmtInt_ne_nil q)
  have hc : c.isDigit = true := digits_fmtInt q c (hq ▸ List.mem_cons_self)
  rw [hq, List.cons_append, List.headD_cons, inUnit, hc, Bool.or_true, Bool.not_true]

/-- What is not printed before a unit does not begin with a digit. -/
theorem stops_frac (hF : IsFrac prec r F) {c : Char} (hc : inUnit c = true) (s : List Char) :
    Stops Char.isDigit (F ++ c :: s) := by
  intro d hd
  cases hF with
  | none =>
    cases hd
    exact not_isDigit_of_inUnit hc
  | some hds hne hlen =>
    cases hd
    decide

/-- **A number with its unit is read as it was written.** -/
theorem parsePart_part (hscaled : Exact scaled) (hF : IsFrac prec r F) (hr : r < 10 ^ prec)
    (hp : prec ≤ 9) (hU : ∀ c ∈ U, inUnit c = true) (hne : U ≠ [])
    (hunit : unitMap (String.ofList U) = some unit) (hpos : 0 < unit)
    (hscale : r = 0 ∨ unit = 10 ^ prec) (hrest : Stops inUnit rest)
    (hle : q * unit + r ≤ 2 ^ 63) :
    parsePart scaled (fmtInt q ++ (F ++ (U ++ rest))) = some (q * unit + r, rest) := by
  obtain ⟨c, u, rfl⟩ := List.exists_cons_of_ne_nil hne
  have hc := hU c List.mem_cons_self
  obtain ⟨f, m, post, hfrac, hm, hf⟩ := fraction_frac hF hr hp hc (u ++ rest)
  have hq : q ≤ 2 ^ 63 := Nat.le_trans (Nat.le_mul_of_pos_right q hpos) (by omega)
  have hint : leadingInt (fmtInt q ++ (F ++ (c :: u ++ rest))) 0 =
      some (q, F ++ (c :: u ++ rest)) := leadingInt_fmtInt hq (stops_frac hF hc _)
  have hlen : (fmtInt q ++ (F ++ (c :: u ++ rest))).length ≠ (F ++ (c :: u ++ rest)).length := by
    have hq0 := List.length_pos_iff.mpr (fmtInt_ne_nil q)
    rw [List.length_append]
    omega
  have htake : (c :: u ++ rest).takeWhile inUnit = c :: u := by
    rw [List.takeWhile_append_of_pos hU]
    cases rest with
    | nil => rw [List.takeWhile_nil, List.append_nil]
    | cons d rest => rw [List.takeWhile_cons, hrest d rfl, if_neg (by simp), List.append_nil]
  have hdrop : (c :: u ++ rest).dropWhile inUnit = rest := by
    rw [List.dropWhile_append_of_pos hU]
    cases rest with
    | nil => rfl
    | cons d rest => rw [List.dropWhile_cons, hrest d rfl, if_neg (by simp)]
  have hdiv : ¬ 2 ^ 63 / unit < q := by
    rw [Nat.not_lt, Nat.le_div_iff_mul_le hpos]
    omega
  unfold parsePart
  rw [headD_fmtInt, hint]
  simp only [List.cons_append] at hfrac htake hdrop hlen ⊢
  simp only [Bool.false_eq_true, if_false, hfrac, htake, hdrop, hunit, if_neg hdiv, hlen,
    false_and, Option.bind_eq_bind, Option.bind_some, reduceCtorEq]
  by_cases hzero : f = 0
  · have hr0 : r = 0 := by rw [← hf, hzero, Nat.zero_mul]
    rw [if_neg (by omega), hr0, Nat.add_zero]
  · have hrpos : r ≠ 0 := fun h => hzero (by
      have hpow : 0 < 10 ^ (prec - m) := Nat.pow_pos (by omega)
      rw [h] at hf
      exact (Nat.mul_eq_zero.mp hf).resolve_right (by omega))
    have hunit' := hscale.resolve_left hrpos
    have hquot : unit / 10 ^ m = 10 ^ (prec - m) := by rw [hunit', Nat.pow_div hm (by omega)]
    have hsmall : 10 ^ (prec - m) ≤ 10 ^ 9 := Nat.pow_le_pow_right (by omega) (by omega)
    have hpow : 10 ^ prec ≤ 10 ^ 9 := Nat.pow_le_pow_right (by omega) hp
    have hexact : scaled f unit (10 ^ m) = r := by
      rw [hscaled f unit (10 ^ m) (hunit' ▸ Nat.pow_dvd_pow 10 hm) (by rw [hquot]; omega)
        (by rw [hquot, hf]; omega), hquot, hf]
    rw [if_pos (by omega), hexact, if_neg (by omega)]

end

/-! ### What is formatted is parsed -/

section
variable {scaled : Scaling} {s rest : List Char} {u v w : ℕ}

/-- From here on `s` adds `v` to what has been read. -/
def Reads (scaled : Scaling) (s : List Char) (v : ℕ) : Prop :=
  ∀ k d, s.length ≤ k → d + v ≤ 2 ^ 63 → parseParts scaled k s d = some (d + v)

theorem reads_nil : Reads scaled [] 0 := fun k d _ _ => by cases k <;> rfl

theorem Reads.part (hs : s ≠ []) (hlen : rest.length < s.length)
    (hpart : parsePart scaled s = some (v, rest)) (hrest : Reads scaled rest w) :
    Reads scaled s (v + w) := by
  intro k d hk hd
  obtain ⟨c, t, rfl⟩ := List.exists_cons_of_ne_nil hs
  cases k with
  | zero => simp at hk
  | succ k =>
    have hmod : (d + v) % 2 ^ 64 = d + v := Nat.mod_eq_of_lt (by omega)
    have hfits : ¬ 2 ^ 63 < d + v := by omega
    have hmore := hrest k (d + v) (by omega) (by omega)
    rw [parseParts, hpart, Option.bind_eq_bind, Option.bind_some]
    simp only [hmod, if_neg hfits, hmore, Nat.add_assoc]

/-- `s` is a text for `u` as `format` makes them. -/
structure Body (scaled : Scaling) (s : List Char) (u : ℕ) : Prop where
  reads : Reads scaled s u
  stops : Stops inUnit s
  head : s.headD 'x' ≠ '-' ∧ s.headD 'x' ≠ '+'
  mem : 's' ∈ s

/-- A number with its unit, and a text after it. -/
theorem reads_number (hscaled : Exact scaled) {prec q r unit : ℕ} {F U : List Char}
    (hF : IsFrac prec r F) (hr : r < 10 ^ prec) (hp : prec ≤ 9) (hU : ∀ c ∈ U, inUnit c = true)
    (hne : U ≠ []) (hunit : unitMap (String.ofList U) = some unit) (hpos : 0 < unit)
    (hscale : r = 0 ∨ unit = 10 ^ prec) (hle : q * unit + r ≤ 2 ^ 63) (hstops : Stops inUnit rest)
    (hrest : Reads scaled rest w) :
    Reads scaled (fmtInt q ++ (F ++ (U ++ rest))) (q * unit + r + w) := by
  have hlen := List.length_pos_iff.mpr (fmtInt_ne_nil q)
  refine Reads.part (by simp [fmtInt_ne_nil]) ?_
    (parsePart_part hscaled hF hr hp hU hne hunit hpos hscale hstops hle) hrest
  simp only [List.length_append]
  omega

theorem stops_fmtInt (q : ℕ) (s : List Char) : Stops inUnit (fmtInt q ++ s) := by
  intro c hc
  have hhead := headD_fmtInt q s
  rwa [List.headD_eq_head?_getD, hc] at hhead

theorem head_fmtInt (q : ℕ) (s : List Char) :
    (fmtInt q ++ s).headD 'x' ≠ '-' ∧ (fmtInt q ++ s).headD 'x' ≠ '+' := by
  have hhead := headD_fmtInt q s
  constructor <;> intro h <;> rw [h] at hhead <;> cases hhead

theorem body_fmtInt {q : ℕ} (hreads : Reads scaled (fmtInt q ++ s) u) (hmem : 's' ∈ s) :
    Body scaled (fmtInt q ++ s) u :=
  ⟨hreads, stops_fmtInt q s, head_fmtInt q s, List.mem_append_right _ hmem⟩

theorem inUnit_nil : ∀ c ∈ ([] : List Char), inUnit c = true := fun _ hc => by cases hc

theorem inUnit_cons {c : Char} {cs : List Char} (hc : inUnit c = true)
    (hcs : ∀ c ∈ cs, inUnit c = true) : ∀ d ∈ c :: cs, inUnit d = true :=
  List.forall_mem_cons.mpr ⟨hc, hcs⟩

theorem smallUnit_cases (u : ℕ) :
    (smallUnit u).1 ≤ 9 ∧ (∀ c ∈ (smallUnit u).2, inUnit c = true) ∧ 's' ∈ (smallUnit u).2 ∧
      unitMap (String.ofList (smallUnit u).2) = some (10 ^ (smallUnit u).1) := by
  unfold smallUnit
  split
  · exact ⟨by decide, inUnit_cons rfl (inUnit_cons rfl inUnit_nil), by decide, rfl⟩
  · split
    · exact ⟨by decide, inUnit_cons rfl (inUnit_cons rfl inUnit_nil), by decide, rfl⟩
    · exact ⟨by decide, inUnit_cons rfl (inUnit_cons rfl inUnit_nil), by decide, rfl⟩

theorem body_small (hscaled : Exact scaled) (hu : u < 10 ^ 9) : Body scaled (formatSmall u) u := by
  obtain ⟨hp, hU, hmem, hunit⟩ := smallUnit_cases u
  obtain ⟨F, heq, hF⟩ := fmtFrac_spec (smallUnit u).2 u (smallUnit u).1
  have hpos : 0 < 10 ^ (smallUnit u).1 := Nat.pow_pos (by omega)
  have hsplit := Nat.div_add_mod u (10 ^ (smallUnit u).1)
  have hreads := reads_number hscaled hF (Nat.mod_lt u hpos) hp hU (List.ne_nil_of_mem hmem) hunit
    hpos (Or.inr rfl) (q := u / 10 ^ (smallUnit u).1) (by rw [Nat.mul_comm]; omega)
    (fun c hc => by cases hc) reads_nil
  unfold formatSmall
  simp only [heq]
  rw [Nat.mul_comm, hsplit, List.append_nil] at hreads
  exact body_fmtInt hreads (List.mem_append_right _ hmem)

/-- Minutes or hours before a text. -/
theorem Body.before (hscaled : Exact scaled) (hs : Body scaled s w) {c : Char} {q unit : ℕ}
    (hc : inUnit c = true) (hunit : unitMap (String.ofList [c]) = some unit) (hpos : 0 < unit)
    (hle : q * unit ≤ 2 ^ 63) : Body scaled (fmtInt q ++ c :: s) (q * unit + w) := by
  have hreads := reads_number hscaled (IsFrac.none : IsFrac 0 0 []) (by decide) (by omega)
    (U := [c]) (fun d hd => by rwa [List.mem_singleton.mp hd]) (by simp) hunit hpos (Or.inl rfl)
    (q := q) hle hs.stops hs.reads
  exact body_fmtInt hreads (List.mem_cons_of_mem _ hs.mem)

theorem body_large (hscaled : Exact scaled) (hu : u ≤ 2 ^ 63) : Body scaled (formatLarge u) u := by
  obtain ⟨F, heq, hF⟩ := fmtFrac_spec ['s'] u 9
  have hseconds : Body scaled (fmtInt (u / 10 ^ 9 % 60) ++ (F ++ ['s']))
      (u / 10 ^ 9 % 60 * 10 ^ 9 + u % 10 ^ 9) := by
    have hunit : unitMap (String.ofList ['s']) = some (10 ^ 9) := rfl
    have hreads := reads_number hscaled hF (Nat.mod_lt u (by decide)) (by omega)
      (inUnit_cons rfl inUnit_nil) (by simp) hunit (by decide) (Or.inr rfl) (q := u / 10 ^ 9 % 60) (by omega)
      (fun c hc => by cases hc) reads_nil
    rw [List.append_nil, Nat.add_zero] at hreads
    exact body_fmtInt hreads (List.mem_append_right _ (List.mem_singleton_self _))
  unfold formatLarge
  simp only [heq]
  split
  · split
    · have hminutes := (hseconds.before hscaled (c := 'm') (q := u / 10 ^ 9 / 60 % 60) rfl rfl
        (by decide) (by omega)).before hscaled (c := 'h') (q := u / 10 ^ 9 / 60 / 60) rfl rfl
        (by decide) (by omega)
      have hsum : u / 10 ^ 9 / 60 / 60 * (3600 * 10 ^ 9) + (u / 10 ^ 9 / 60 % 60 * (60 * 10 ^ 9) +
          (u / 10 ^ 9 % 60 * 10 ^ 9 + u % 10 ^ 9)) = u := by omega
      rwa [hsum] at hminutes
    · have hminutes := hseconds.before hscaled (c := 'm') (q := u / 10 ^ 9 / 60 % 60) rfl rfl
        (by decide) (by omega)
      have hsum : u / 10 ^ 9 / 60 % 60 * (60 * 10 ^ 9) +
          (u / 10 ^ 9 % 60 * 10 ^ 9 + u % 10 ^ 9) = u := by omega
      rwa [hsum] at hminutes
  · have hsum : u / 10 ^ 9 % 60 * 10 ^ 9 + u % 10 ^ 9 = u := by omega
    rwa [hsum] at hseconds

theorem body_zero (hscaled : Exact scaled) : Body scaled ['0', 's'] 0 := by
  have hreads := reads_number hscaled (IsFrac.none : IsFrac 9 0 []) (by decide) (by omega)
    (U := ['s']) (inUnit_cons rfl inUnit_nil) (by simp) rfl (by decide) (Or.inl rfl) (q := 0) (by decide)
    (fun c hc => by cases hc) reads_nil
  exact body_fmtInt (q := 0) (s := ['s']) hreads (by decide)

/-- A sign, and a text for a number. -/
theorem parse_body (hs : Body scaled s u) :
    (u < 2 ^ 63 → parse scaled s = some (u : ℤ)) ∧
      (u ≤ 2 ^ 63 → parse scaled ('-' :: s) = some (-(u : ℤ))) := by
  have hne : s ≠ [] := List.ne_nil_of_mem hs.mem
  have hzero : s ≠ ['0'] := by
    rintro rfl
    exact absurd hs.mem (by decide)
  have hsign : sign s = (false, s) := by
    unfold sign
    split
    · exact absurd rfl hs.head.1
    · exact absurd rfl hs.head.2
    · rfl
  have hread : u ≤ 2 ^ 63 → parseParts scaled s.length s 0 = some u := fun hu => by
    have h := hs.reads s.length 0 (Nat.le_refl _) (by omega)
    rwa [Nat.zero_add] at h
  constructor
  · intro hu
    have hlt : ¬ 2 ^ 63 - 1 < u := by omega
    unfold parse
    simp only [hsign, if_neg hzero, if_neg hne, hread (Nat.le_of_lt hu)]
    exact if_neg hlt
  · intro hu
    simp [parse, sign, hzero, hne, hread hu]

end

/-- **A duration is parsed as it was formatted**, for each of the `2 ^ 64` durations. -/
theorem ParseDuration_String {scaled : Scaling} (hscaled : Exact scaled) {d : ℤ}
    (hlow : -2 ^ 63 ≤ d) (hhigh : d < 2 ^ 63) :
    ParseDuration scaled (Duration.String d) = some d := by
  unfold ParseDuration Duration.String
  rw [String.toList_ofList, format]
  have hbody : Body scaled (if d.natAbs = 0 then ['0', 's'] else if d.natAbs < 10 ^ 9 then
      formatSmall d.natAbs else formatLarge d.natAbs) d.natAbs := by
    split
    · next hzero =>
      rw [hzero]
      exact body_zero hscaled
    · split
      · next hsmall => exact body_small hscaled hsmall
      · exact body_large hscaled (by omega)
  obtain ⟨hpos, hneg⟩ := parse_body hbody
  by_cases hd : d < 0
  · simp only [if_pos hd]
    rw [hneg (by omega), Int.ofNat_natAbs_of_nonpos (by omega), Int.neg_neg]
  · simp only [if_neg hd]
    rw [hpos (by omega), Int.natAbs_of_nonneg (by omega)]

end CodeHive.Go.Durations
