import CodeHive.Api.Listing
import CodeHive.Api.RecordState
import CodeHive.Js.Timestamps
import Mathlib.Algebra.Order.BigOperators.Group.List
import Mathlib.Algebra.Order.Floor.Ring
import Mathlib.Data.Rat.Floor
import Mathlib.Tactic.Linarith

/-! # The statistics

`GET /api/stats` averages over the durations of the completed jobs, and `resultSchema` asks of a
timestamp only that it is a string. So the average is a number that is not negative exactly as far
as the timestamps are dates and the jobs have, on the whole, ended after they started; in particular
where this is so of every result that is recorded. The durations are added as doubles, one after the
other: the sum is the exact one up to `2 ^ 53` (`durationSum_eq`). -/

namespace CodeHive.Api.Statistics

set_option autoImplicit false

open CodeHive.Js.Value CodeHive.Js.Timestamps CodeHive.Api.Types CodeHive.Api.Stores
open CodeHive.Api.Messages CodeHive.Api.Program CodeHive.Api.Queue CodeHive.Api.Routes
open CodeHive.Api.System CodeHive.Api.History CodeHive.Api.Invariant CodeHive.Api.Handlers
open CodeHive.Api.Runs CodeHive.Api.Alone CodeHive.Api.Listing CodeHive.Api.RecordState
open CodeHive.Concurrency.Calls CodeHive.Concurrency.Pool CodeHive.Concurrency.Solo
open CodeHive.Numbers.Doubles

/-! ### Well-formed statistics -/

/-- The numbers of an answer are in their ranges. -/
structure Sane (day week : ℕ) (avg rate : Number) : Prop where
  days : day ≤ week
  avg : ∃ q, avg = .fin q ∧ 0 ≤ q
  rate : ∃ q, rate = .fin q ∧ 0 ≤ q ∧ q ≤ 1

/-- **The answer is well formed.** -/
def WellFormed (answer : Option Outcome) : Prop :=
  ∃ day week avg rate, answer = some (.reply ⟨200, .stats day week 0 avg rate⟩) ∧
    Sane day week avg rate

section
variable (env : Op → Input) (s : Store)

def dayAgo : String := toISOString ((env (.host .now)).ms - 86400000)
def weekAgo : String := toISOString ((env (.host .now)).ms - 604800000)

/-- The jobs in the queue. -/
def queued : List Job := (pending .memory s).filterMap (lookup .memory s)

/-- The first 500 of them that are from the last day, and those that have completed. -/
def dayResults : List Job :=
  ((queued s).filter fun job => decide (dayAgo env ≤ job.createdAt)).take 500
def completed : List Job := (dayResults env s).filter fun job => job.status = .completed

/-- When they started and finished, where they say so. -/
def spans : List (String × String) := (completed env s).filterMap timesOf

/-- The milliseconds of both timestamps, if they are dates. -/
def datesOf (times : String × String) : Option (TimeValue × TimeValue) := do
  let start ← dateOf env times.1
  let finish ← dateOf env times.2
  return (start, finish)

/-- One more duration, in doubles. -/
def addDuration (sum : ℚ) (dates : TimeValue × TimeValue) : ℚ :=
  nearest (sum + nearest ((dates.2.val - dates.1.val : ℤ) : ℚ))

/-- The sum of some durations, in doubles. -/
def durationSum (dates : List (TimeValue × TimeValue)) : ℚ := dates.foldl addDuration 0

/-- **What makes the statistics well formed.** -/
structure WellTimed : Prop where
  /-- What is from the last day is from the last week. -/
  days : ∀ job ∈ queued s, dayAgo env ≤ job.createdAt → weekAgo env ≤ job.createdAt
  dates : ∀ times ∈ spans env s, (datesOf env times).isSome
  /-- The jobs finished after they started, all in all and to half a millisecond each. -/
  forward : -((completed env s).length : ℚ) / 2 ≤
    durationSum ((spans env s).filterMap (datesOf env))

end

/-! ### The counts -/

section
variable {α : Type}

/-- Of two conditions the weaker of which is met as often as the other. -/
theorem forall_of_length_filter_le {l : List α} {p q : α → Bool}
    (hqp : ∀ x ∈ l, q x = true → p x = true) (hlen : (l.filter p).length ≤ (l.filter q).length) :
    ∀ x ∈ l, p x = true → q x = true := by
  have hsub : l.filter q = (l.filter p).filter q := by
    rw [List.filter_filter]
    refine List.filter_congr fun x hx => ?_
    cases hq : q x with
    | true => simp [hqp x hx hq]
    | false => simp
  have hall : ((l.filter p).filter q).length = (l.filter p).length :=
    le_antisymm (List.length_filter_le _ _) (by rw [← hsub]; exact hlen)
  intro x hx hp
  exact List.length_filter_eq_length_iff.mp hall x (List.mem_filter.mpr ⟨hx, hp⟩)

theorem length_filter_mono {l : List α} {p q : α → Bool}
    (hpq : ∀ x ∈ l, p x = true → q x = true) : (l.filter p).length ≤ (l.filter q).length := by
  rw [← List.countP_eq_length_filter, ← List.countP_eq_length_filter]
  exact List.countP_mono_left hpq

end

/-- **The counts are in order** just when every job of the last day is of the last week. -/
theorem pendingSince_le_iff {s : Store} {day week : String} :
    pendingSince .memory s day ≤ pendingSince .memory s week ↔
      ∀ job ∈ queued s, day ≤ job.createdAt → week ≤ job.createdAt := by
  have hmono : (∀ job ∈ queued s, day ≤ job.createdAt → week ≤ job.createdAt) →
      pendingSince .memory s day ≤ pendingSince .memory s week := fun h =>
    length_filter_mono fun job hjob hday =>
      decide_eq_true (h job hjob (of_decide_eq_true hday))
  refine ⟨fun hle => ?_, hmono⟩
  rcases le_total week day with hwd | hdw
  · exact fun job _ hday => hwd.trans hday
  · intro job hjob hday
    have h := forall_of_length_filter_le (l := queued s)
      (p := fun job => decide (day ≤ job.createdAt)) (q := fun job => decide (week ≤ job.createdAt))
      (fun job _ hweek => decide_eq_true (hdw.trans (of_decide_eq_true hweek))) hle
    exact of_decide_eq_true (h job hjob (decide_eq_true hday))

/-! ### The average -/

section
variable {env : Op → Input} {s : Store} {sum : ℚ} {dates : TimeValue × TimeValue}
  {l : List (TimeValue × TimeValue)}

theorem abs_duration_le (dates : TimeValue × TimeValue) :
    |nearest ((dates.2.val - dates.1.val : ℤ) : ℚ)| ≤ 2 ^ 54 := by
  obtain ⟨⟨start, hstart⟩, finish, hfinish⟩ := dates
  rw [abs_le] at hstart hfinish
  refine abs_nearest_le (isDouble_two_pow 54) ?_
  have hle : |finish - start| ≤ 2 ^ 54 := abs_le.mpr ⟨by omega, by omega⟩
  exact_mod_cast hle

/-- A sum of `n` durations has a bound. -/
theorem abs_addDuration_le {n : ℕ} (hn : n < 2 ^ 53) (hsum : |sum| ≤ n * 2 ^ 54) :
    |addDuration sum dates| ≤ (n + 1 : ℕ) * 2 ^ 54 := by
  have hduration := abs_duration_le dates
  refine abs_nearest_le (isDouble_natCast_mul hn 54) ((abs_add_le _ _).trans ?_)
  push_cast at hduration ⊢
  linarith

/-- And it is an integer. -/
theorem exists_addDuration {z : ℤ} (hsum : sum = z) : ∃ k : ℤ, addDuration sum dates = k := by
  obtain ⟨d, hd⟩ := exists_nearest_intCast (dates.2.val - dates.1.val)
  obtain ⟨k, hk⟩ := exists_nearest_intCast (z + d)
  refine ⟨k, ?_⟩
  rw [addDuration, hsum, hd, ← hk]
  push_cast
  rfl

theorem foldl_addDuration_bounds {n : ℕ} {z : ℤ} (hl : n + l.length < 2 ^ 53)
    (hsum : |sum| ≤ n * 2 ^ 54) (hz : sum = z) :
    |l.foldl addDuration sum| ≤ (n + l.length : ℕ) * 2 ^ 54 ∧
      ∃ k : ℤ, l.foldl addDuration sum = k := by
  induction l generalizing sum n z with
  | nil => exact ⟨hsum, z, hz⟩
  | cons dates l ih =>
    rw [List.length_cons] at hl ⊢
    obtain ⟨k, hk⟩ : ∃ k : ℤ, addDuration sum dates = k := exists_addDuration hz
    have hrest := ih (by omega) (abs_addDuration_le (by omega) hsum) hk
    rwa [Nat.add_right_comm] at hrest

/-- Jobs that finished after they started. -/
theorem durationSum_nonneg (h : ∀ dates ∈ l, dates.1.val ≤ dates.2.val) : 0 ≤ durationSum l := by
  have hfold : ∀ sum : ℚ, 0 ≤ sum → 0 ≤ l.foldl addDuration sum := by
    induction l with
    | nil => exact fun sum hsum => hsum
    | cons dates l ih =>
      intro sum hsum
      have hforward : (0 : ℚ) ≤ ((dates.2.val - dates.1.val : ℤ) : ℚ) := by
        exact_mod_cast sub_nonneg.mpr (h dates List.mem_cons_self)
      exact ih (fun dates hmem => h dates (List.mem_cons_of_mem _ hmem)) _
        (nearest_nonneg (add_nonneg hsum (nearest_nonneg hforward)))
  exact hfold 0 le_rfl

/-- **Up to `2 ^ 53` the sum is exact.** -/
theorem durationSum_eq (h : (l.map fun dates => |dates.2.val - dates.1.val|).sum ≤ 2 ^ 53) :
    durationSum l = ((l.map fun dates => dates.2.val - dates.1.val).sum : ℤ) := by
  have hfold : ∀ z : ℤ, |z| + (l.map fun dates => |dates.2.val - dates.1.val|).sum ≤ 2 ^ 53 →
      l.foldl addDuration z = (z + (l.map fun dates => dates.2.val - dates.1.val).sum : ℤ) := by
    clear h
    induction l with
    | nil => simp
    | cons dates l ih =>
      intro z hz
      rw [List.map_cons, List.sum_cons] at hz
      have hrest : 0 ≤ (l.map fun dates => |dates.2.val - dates.1.val|).sum :=
        List.sum_nonneg fun x hx => by
          obtain ⟨d, -, rfl⟩ := List.mem_map.mp hx
          exact abs_nonneg _
      have hz₀ := abs_nonneg z
      have hadd := abs_add_le z (dates.2.val - dates.1.val)
      have hstep : addDuration z dates = (z + (dates.2.val - dates.1.val) : ℤ) := by
        rw [addDuration, nearest_intCast (by omega), ← Int.cast_add, nearest_intCast (by omega)]
      rw [List.foldl_cons, hstep, ih _ (by omega), List.map_cons, List.sum_cons, add_assoc]
  have hsum := hfold 0 (by simpa using h)
  rwa [Int.cast_zero, zero_add] at hsum

/-! Its value in JavaScript -/

theorem ofRat_of_abs_le {x : ℚ} {n : ℕ} (hn : n ≤ 2 ^ 53) (h : |x| ≤ n * 2 ^ 54) :
    Number.ofRat x = .fin (nearest x) := by
  refine Number.ofRat_eq_fin.mpr ⟨rfl, (abs_nearest_le (isDouble_natCast_mul hn 54) h).trans_lt ?_⟩
  have hcast : (n : ℚ) ≤ 2 ^ 53 := by exact_mod_cast hn
  calc (n : ℚ) * 2 ^ 54 ≤ 2 ^ 53 * 2 ^ 54 := mul_le_mul_of_nonneg_right hcast (by positivity)
    _ = 2 ^ 107 := by norm_num
    _ < ((2 ^ 1024 : ℤ) : ℚ) := by
      rw [Int.cast_pow, Int.cast_ofNat]
      exact pow_lt_pow_right₀ (by norm_num) (by norm_num)

/-- A duration is added, if both timestamps are dates. -/
theorem addSpan_fin {n : ℕ} (hn : n < 2 ^ 53) (hsum : |sum| ≤ n * 2 ^ 54)
    (times : String × String) : addSpan env (.fin sum) times =
      ((datesOf env times).map fun dates => Number.fin (addDuration sum dates)).getD .nan := by
  unfold addSpan timeOf datesOf
  cases hfinish : dateOf env times.2 with
  | none => cases dateOf env times.1 <;> rfl
  | some finish =>
    cases hstart : dateOf env times.1 with
    | none => rfl
    | some start =>
      have hduration := abs_duration_le (start, finish)
      have hsub : (getTime (some finish)).sub (getTime (some start)) =
          .fin (nearest ((finish.val - start.val : ℤ) : ℚ)) := by
        change (Number.fin _).sub (.fin _) = _
        rw [Number.sub_fin, ← Int.cast_sub]
        have hle : |finish.val - start.val| ≤ 1 * 2 ^ 54 := by
          have hfinish := abs_le.mp finish.2
          have hstart := abs_le.mp start.2
          exact abs_le.mpr ⟨by omega, by omega⟩
        exact ofRat_of_abs_le (n := 1) (by norm_num) (by exact_mod_cast hle)
      have hadd : |sum + nearest ((finish.val - start.val : ℤ) : ℚ)| ≤ (n + 1 : ℕ) * 2 ^ 54 := by
        refine (abs_add_le _ _).trans ?_
        push_cast at hduration ⊢
        linarith
      rw [hsub, Number.add_fin, ofRat_of_abs_le hn hadd]
      rfl

theorem foldl_addSpan_nan (l : List (String × String)) : l.foldl (addSpan env) .nan = .nan := by
  induction l with
  | nil => rfl
  | cons times l ih => exact ih

/-- **The sum of the durations is finite** just when all timestamps are dates. -/
theorem foldl_eq_fin {l : List (String × String)} {n : ℕ} {z : ℤ} {q : ℚ}
    (hl : n + l.length < 2 ^ 53) (hsum : |sum| ≤ n * 2 ^ 54) (hz : sum = z) :
    l.foldl (addSpan env) (.fin sum) = .fin q ↔ (∀ times ∈ l, (datesOf env times).isSome) ∧
      q = (l.filterMap (datesOf env)).foldl addDuration sum := by
  induction l generalizing sum n z with
  | nil => exact ⟨fun h => ⟨by simp, (Number.fin.inj h).symm⟩, fun h => congrArg _ h.2.symm⟩
  | cons times l ih =>
    rw [List.length_cons] at hl
    rw [List.foldl_cons, addSpan_fin (by omega) hsum, List.forall_mem_cons]
    cases hdates : datesOf env times with
    | none =>
      refine iff_of_false ?_ (by simp)
      rw [Option.map_none, Option.getD_none, foldl_addSpan_nan]
      simp
    | some dates =>
      obtain ⟨k, hk⟩ : ∃ k : ℤ, addDuration sum dates = k := exists_addDuration hz
      rw [Option.map_some, Option.getD_some,
        ih (by omega) (abs_addDuration_le (by omega) hsum) hk, List.filterMap_cons_some hdates,
        List.foldl_cons, Option.isSome_some]
      simp only [true_and]

/-- Half a millisecond is rounded up. -/
theorem round_nonneg_iff {x : Number} :
    (∃ q, x.round = .fin q ∧ 0 ≤ q) ↔ ∃ q, x = .fin q ∧ -1 / 2 ≤ q := by
  cases x with
  | fin q =>
    have hround : (Number.fin q).round = .fin (⌊q + 1 / 2⌋ : ℤ) := rfl
    have hfloor : (0 : ℚ) ≤ (⌊q + 1 / 2⌋ : ℤ) ↔ -1 / 2 ≤ q := by
      rw [Int.cast_nonneg_iff, Int.floor_nonneg]
      constructor <;> intro h <;> linarith
    rw [hround]
    constructor
    · rintro ⟨_, hq, hle⟩
      obtain rfl := Number.fin.inj hq
      exact ⟨q, rfl, hfloor.mp hle⟩
    · rintro ⟨_, hq, hle⟩
      obtain rfl := Number.fin.inj hq
      exact ⟨_, rfl, hfloor.mpr hle⟩
  | _ => simp [Number.round]

/-- An integer over a small one is half a negative one at least, or clearly less. -/
theorem half_le_nearest_iff {z : ℤ} {n : ℕ} (hpos : 0 < n) (hn : n ≤ 512) :
    -1 / 2 ≤ nearest (z / n) ↔ -(n : ℚ) / 2 ≤ z := by
  have hn₀ : (0 : ℚ) < n := by exact_mod_cast hpos
  have hhalf : IsDouble (-1 / 2) := ⟨-1, -1, by norm_num, by norm_num, by norm_num⟩
  constructor
  · intro h
    by_contra hlt
    -- half an integer less is more than `1 / 1024` less
    have hint : 2 * z + 1 ≤ -(n : ℤ) := by
      have hcast : (2 * z : ℚ) < -n := by linarith
      have hless : 2 * z < -(n : ℤ) := by exact_mod_cast hcast
      omega
    have hcast : (2 * z + 1 : ℚ) ≤ -n := by exact_mod_cast hint
    have hsmall : (n : ℚ) ≤ 512 := by exact_mod_cast hn
    have hdouble : IsDouble (-513 / 1024) := ⟨-513, -10, by norm_num, by norm_num, by norm_num⟩
    have hle : (z : ℚ) / n ≤ -513 / 1024 := by
      rw [div_le_iff₀ hn₀]
      linarith
    have hnearest := nearest_le hdouble hle
    linarith
  · intro h
    refine le_nearest hhalf ?_
    rw [le_div_iff₀ hn₀]
    linarith

theorem divNat_eq_fin {x : Number} {n : ℕ} {q : ℚ} :
    x.divNat n = .fin q ↔ ∃ p, x = .fin p ∧ Number.ofRat (p / n) = .fin q := by
  cases x <;> simp [Number.divNat]

/-- The sum of the durations of no more jobs than are asked for. -/
theorem sumOf_eq_fin {jobs : List Job} (hlen : jobs.length ≤ 500) {q : ℚ} :
    sumOf env (.fin 0) jobs = .fin q ↔
      (∀ times ∈ jobs.filterMap timesOf, (datesOf env times).isSome) ∧
        q = durationSum ((jobs.filterMap timesOf).filterMap (datesOf env)) := by
  have hspans := List.length_filterMap_le timesOf jobs
  exact foldl_eq_fin (n := 0) (z := 0) (by omega) (by simp) Int.cast_zero.symm

theorem durationSum_bounds (hlen : l.length ≤ 500) :
    |durationSum l| ≤ (500 : ℕ) * 2 ^ 54 ∧ ∃ z : ℤ, durationSum l = z := by
  have hle : ((0 + l.length : ℕ) : ℚ) ≤ (500 : ℕ) := by exact_mod_cast (by omega)
  obtain ⟨hbound, hint⟩ := @foldl_addDuration_bounds 0 l 0 0 (by omega) (by simp)
    Int.cast_zero.symm
  exact ⟨hbound.trans (mul_le_mul_of_nonneg_right hle (by positivity)), hint⟩

/-- **The average is well formed** just when the timestamps are dates and the jobs have, all in all,
finished after they started. -/
theorem avg_iff {jobs : List Job} (hlen : jobs.length ≤ 500) :
    (∃ q, (avgOf env jobs).round = .fin q ∧ 0 ≤ q) ↔
      (∀ times ∈ jobs.filterMap timesOf, (datesOf env times).isSome) ∧
        -(jobs.length : ℚ) / 2 ≤
          durationSum ((jobs.filterMap timesOf).filterMap (datesOf env)) := by
  rw [round_nonneg_iff]
  unfold avgOf
  by_cases hpos : 0 < jobs.length
  · have hspans : ((jobs.filterMap timesOf).filterMap (datesOf env)).length ≤ 500 :=
      (List.length_filterMap_le _ _).trans ((List.length_filterMap_le _ _).trans hlen)
    obtain ⟨hbound, z, hz⟩ := durationSum_bounds hspans
    have hhalf := half_le_nearest_iff (z := z) hpos (by omega)
    rw [← hz] at hhalf
    rw [if_pos hpos]
    constructor
    · rintro ⟨q, hq, hle⟩
      obtain ⟨sum, hsum, hdiv⟩ := divNat_eq_fin.mp hq
      obtain ⟨hdates, rfl⟩ := (sumOf_eq_fin hlen).mp hsum
      obtain ⟨rfl, -⟩ := Number.ofRat_eq_fin.mp hdiv
      exact ⟨hdates, hhalf.mp hle⟩
    · rintro ⟨hdates, hle⟩
      have hone : (1 : ℚ) ≤ jobs.length := by exact_mod_cast hpos
      have hquotient : |durationSum ((jobs.filterMap timesOf).filterMap (datesOf env)) /
          jobs.length| ≤ (500 : ℕ) * 2 ^ 54 := by
        rw [abs_div, Nat.abs_cast]
        exact (div_le_self (abs_nonneg _) hone).trans hbound
      exact ⟨_, divNat_eq_fin.mpr ⟨_, (sumOf_eq_fin hlen).mpr ⟨hdates, rfl⟩,
        ofRat_of_abs_le (by norm_num) hquotient⟩, hhalf.mpr hle⟩
  · obtain rfl : jobs = [] := List.eq_nil_of_length_eq_zero (by omega)
    rw [if_neg hpos]
    refine iff_of_true ⟨0, rfl, by norm_num⟩ ⟨by simp, ?_⟩
    simp [durationSum]

/-! ### The success rate -/

/-- A share is rounded to a share. -/
theorem exists_ofRat {q : ℚ} {n : ℕ} (hn : n ≤ 2 ^ 53) (h₀ : 0 ≤ q) (h₁ : q ≤ n) :
    ∃ r, Number.ofRat q = .fin r ∧ 0 ≤ r ∧ r ≤ n := by
  have hle := nearest_le (isDouble_natCast hn) h₁
  refine ⟨nearest q, ofRat_of_abs_le hn ?_, nearest_nonneg h₀, hle⟩
  rw [abs_of_nonneg h₀]
  exact h₁.trans (le_mul_of_one_le_right (Nat.cast_nonneg n) (by norm_num))

/-- A share in hundredths. -/
theorem exists_hundredths {q : ℚ} (h₀ : 0 ≤ q) (h₁ : q ≤ 1) :
    ∃ r, (((Number.fin q).mulNat 100).round.divNat 100) = .fin r ∧ 0 ≤ r ∧ r ≤ 1 := by
  obtain ⟨p, hp, hp₀, hp₁⟩ := exists_ofRat (q := q * (100 : ℕ)) (n := 100) (by norm_num)
    (by positivity) (by push_cast; linarith)
  have hlow : 0 ≤ ⌊p + 1 / 2⌋ := Int.floor_nonneg.mpr (by linarith)
  have hhigh : ⌊p + 1 / 2⌋ < 101 := Int.floor_lt.mpr (by push_cast at hp₁ ⊢; linarith)
  have hlow' : (0 : ℚ) ≤ (⌊p + 1 / 2⌋ : ℤ) := by exact_mod_cast hlow
  have hhigh' : ((⌊p + 1 / 2⌋ : ℤ) : ℚ) ≤ 100 := by exact_mod_cast Int.lt_add_one_iff.mp hhigh
  obtain ⟨r, hr, hr₀, hr₁⟩ := exists_ofRat (q := (⌊p + 1 / 2⌋ : ℤ) / (100 : ℕ)) (n := 1)
    (by norm_num) (by positivity) (by push_cast; linarith)
  refine ⟨r, ?_, hr₀, by exact_mod_cast hr₁⟩
  rw [Number.mulNat, hp]
  exact hr

/-- **The success rate is a share**, whatever has happened. -/
theorem rate_range {jobs done : List Job} (h : done.length ≤ jobs.length) :
    ∃ q, successRate done jobs = .fin q ∧ 0 ≤ q ∧ q ≤ 1 := by
  unfold successRate
  by_cases hpos : 0 < jobs.length
  · have hn : (0 : ℚ) < jobs.length := by exact_mod_cast hpos
    have hle : (done.length : ℚ) / jobs.length ≤ (1 : ℕ) := by
      rw [Nat.cast_one, div_le_one hn]
      exact_mod_cast h
    obtain ⟨q, hq, hq₀, hq₁⟩ := exists_ofRat (by norm_num) (by positivity) hle
    rw [if_pos hpos, Number.divNat, hq]
    exact exists_hundredths hq₀ (by exact_mod_cast hq₁)
  · rw [if_neg hpos]
    exact exists_hundredths zero_le_one le_rfl

/-- 23 of 40 are a little less than 57.5 hundredths of them. -/
example : (((Number.fin 23).divNat 40).mulNat 100).round = .fin 57 := by decide +kernel

end

/-! ### The answer -/

section
variable {env : Op → Input} {s : Store}

/-- A page of ids that pass holds the records that pass. -/
theorem filterMap_take_filter {since : String} (hne : since ≠ "") (n : ℕ) (l : List String) :
    ((l.filter fun i => decide (since ≤ ((s.mem.jobs i).map (·.createdAt)).getD "")).take
      n).filterMap (lookup .memory s) =
    ((l.filterMap (lookup .memory s)).filter fun job => decide (since ≤ job.createdAt)).take n := by
  induction l generalizing n with
  | nil => simp
  | cons i l ih =>
    cases hi : s.mem.jobs i with
    | none => simpa [lookup, hi, not_le_empty hne] using ih n
    | some job =>
      by_cases hle : since ≤ job.createdAt
      · cases n with
        | zero => simp
        | succ n => simpa [lookup, hi, hle] using ih n
      · simpa [lookup, hi, hle] using ih n

theorem dayResults_eq : (slice (s.mem.filtered (some (dayAgo env))) (.fin 0)
    ((Number.fin 0).add (.fin 500))).filterMap (lookup .memory s) = dayResults env s := by
  have hne : dayAgo env ≠ "" := toISOString_ne_empty _
  have hstop : (Number.fin 0).add (.fin 500) = .fin (500 : ℕ) := by decide +kernel
  have htruthy : truthy (some (dayAgo env)) = some (dayAgo env) := by simp [truthy, hne]
  unfold MemoryQueue.filtered
  rw [hstop, slice_natCast, htruthy]
  exact filterMap_take_filter hne 500 _

theorem ask_stats_memory : ask .memory env .stats s = some (.reply ⟨200, .stats
    (pendingSince .memory s (dayAgo env)) (pendingSince .memory s (weekAgo env)) 0
    (avgOf env (completed env s)).round (successRate (completed env s) (dayResults env s))⟩) := by
  unfold completed
  rw [← dayResults_eq]
  exact ask_stats_of (settles_mem rfl) (holds_getJob _)

/-- **The statistics are well formed** just when the queue is well timed. -/
theorem wellFormed_iff : WellFormed (ask .memory env .stats s) ↔ WellTimed env s := by
  have hlen : (completed env s).length ≤ 500 :=
    (List.length_filter_le _ _).trans (List.length_take_le _ _)
  constructor
  · rintro ⟨day, week, avg, rate, hanswer, hsane⟩
    rw [ask_stats_memory] at hanswer
    simp only [Option.some.injEq, Outcome.reply.injEq, Reply.mk.injEq, Body.stats.injEq] at hanswer
    obtain ⟨-, rfl, rfl, -, rfl, rfl⟩ := hanswer
    obtain ⟨hdates, hforward⟩ := (avg_iff hlen).mp hsane.avg
    exact ⟨pendingSince_le_iff.mp hsane.days, hdates, hforward⟩
  · intro h
    refine ⟨_, _, _, _, ask_stats_memory, pendingSince_le_iff.mpr h.days, ?_, ?_⟩
    · exact (avg_iff hlen).mpr ⟨h.dates, h.forward⟩
    · exact rate_range (List.length_filter_le _ _)

end

/-! ### What is recorded -/

/-- Both timestamps are dates, the second not before the first. -/
def inOrder (env : Op → Input) (times : String × String) : Bool :=
  (datesOf env times).any fun dates => decide (dates.1.val ≤ dates.2.val)

/-- The timestamps of a result, if both are given and not empty. -/
def resultTimes (r : ExecutionResult) : Option (String × String) := do
  let startedAt ← truthy r.startedAt
  let finishedAt ← truthy r.finishedAt
  return (startedAt, finishedAt)

/-- The update records no completed execution, or its timestamps are in order. -/
def timely (env : Op → Input) (u : PartialJob) : Bool :=
  match u.status, u.result with
  | some .completed, some (some r) => (resultTimes r).all (inOrder env)
  | _, _ => true

/-- The updates of records, by workers and by inline executions. -/
def updateOf : Event → Option PartialJob
  | .ran _ o _ => (recordWrite o).map Prod.snd
  | _ => none
def updates (log : List Event) : List PartialJob := log.filterMap updateOf

/-- A completed job has its timestamps in order. -/
def Timed (env : Op → Input) (job : Job) : Prop :=
  job.status = .completed → ∀ times, timesOf job = some times → inOrder env times = true

section
variable {env : Op → Input}

theorem timesOf_eq (job : Job) : timesOf job = job.result.bind resultTimes := by
  unfold timesOf resultTimes
  cases job.result <;> rfl

theorem timed_rewritten {a : Actor} {i : String} {u : PartialJob} {job job' : Job}
    (hu : Update a i u) (h : Rewritten u job job') (ht : timely env u = true) : Timed env job' := by
  intro hdone times htimes
  rcases update_shape hu with ⟨hst, -⟩ | ⟨r, hst, hres, -, -⟩
  · rw [h.status, hst] at hdone
    cases hdone
  · have hr : r.status = .completed := by
      rw [h.status, hst] at hdone
      exact hdone
    rw [timesOf_eq, h.result, hres] at htimes
    have hall : (resultTimes r).all (inOrder env) = true := by
      unfold timely at ht
      rw [hst, hres, hr] at ht
      exact ht
    have hbind : resultTimes r = some times := htimes
    rw [hbind] at hall
    exact hall

/-- **What is so of all records**: what is so of a new one, and stays so with each update that has
been recorded. -/
theorem records_keep {P : Job → Prop} {c : MemConfig} (hc : Reachable .memory c)
    (hnew : ∀ j request now, P (newJob j request now))
    (hwrite : ∀ a j u job job', Update a j u → u ∈ updates c.world.log → Rewritten u job job' →
      P job → P job') : ∀ i job, lookup .memory c.world.state i = some job → P job := by
  induction hc with
  | refl => exact fun i job h => by cases h
  | @step c c' l hc _ hs ih =>
    have hlog : c.world.log <+: c'.world.log := (stepped_of_step hs).extends.log
    have hupdates : updates c.world.log ⊆ updates c'.world.log :=
      (hlog.sublist.filterMap updateOf).subset
    have ih := ih fun a j u job job' hu hmem => hwrite a j u job job' hu (hupdates hmem)
    cases stepped_of_step hs with
    | arrive => exact ih
    | resume => exact ih
    | fork => exact ih
    | pause => exact ih
    | @op t a o k inp r w hrun hp hf =>
      rcases record_cases hc hp hf with ⟨j, u, ho, hu, hother, hnone, hsome⟩ |
        ⟨-, hl | ⟨j, request, now, -, hsome, hother⟩⟩
      · have hmem : u ∈ updates w.log := by
          obtain ⟨s, -, rfl⟩ := World.fire_eq_some.mp hf
          have hupdate : updateOf (.ran a o r) = some u := by simp [updateOf, ho]
          exact List.mem_filterMap.mpr ⟨_, List.mem_concat_self, hupdate⟩
        intro i job hjob
        by_cases hij : i = j
        · subst hij
          cases hold : lookup .memory c.world.state i with
          | none => exact absurd (hjob.symm.trans (hnone hold)) (by simp)
          | some old =>
            obtain ⟨job', hjob', hrew⟩ := hsome old hold
            obtain rfl : job' = job := Option.some_inj.mp (hjob'.symm.trans hjob)
            exact hwrite a i u old job' hu hmem hrew (ih i old hold)
        · exact ih i job ((hother i hij).symm.trans hjob)
      · exact fun i job hjob => ih i job ((hl i).symm.trans hjob)
      · intro i job hjob
        by_cases hij : i = j
        · subst hij
          obtain rfl := Option.some_inj.mp (hsome.symm.trans hjob)
          exact hnew i request now
        · exact ih i job ((hother i hij).symm.trans hjob)

/-- **As long as what is recorded is in order**, the timestamps of the completed jobs are. -/
theorem all_timed {c : MemConfig} (hc : Reachable .memory c)
    (ht : (updates c.world.log).all (timely env) = true) :
    ∀ i job, lookup .memory c.world.state i = some job → Timed env job := by
  rw [List.all_eq_true] at ht
  refine records_keep hc (fun j request now hdone => ?_) fun a j u job job' hu hmem hrew _ => ?_
  · cases hdone
  · exact timed_rewritten hu hrew (ht u hmem)

/-- The years of the clock have four digits. -/
def Ordinary (env : Op → Input) : Prop :=
  FourDigitYear ((env (.host .now)).ms - 604800000) ∧
    FourDigitYear ((env (.host .now)).ms - 86400000)

theorem weekAgo_le (h : Ordinary env) : weekAgo env ≤ dayAgo env :=
  toISOString_le (by omega) h.1 h.2

theorem mem_spans {s : Store} {times : String × String} (h : times ∈ spans env s) :
    ∃ i job, lookup .memory s i = some job ∧ job.status = .completed ∧
      timesOf job = some times := by
  obtain ⟨job, hjob, htimes⟩ := List.mem_filterMap.mp h
  obtain ⟨hday, hdone⟩ := List.mem_filter.mp hjob
  obtain ⟨i, -, hi⟩ := List.mem_filterMap.mp (List.mem_of_mem_filter (List.mem_of_mem_take hday))
  exact ⟨i, job, hi, of_decide_eq_true hdone, htimes⟩

theorem wellTimed_of_timed {s : Store} (hclock : Ordinary env)
    (h : ∀ i job, lookup .memory s i = some job → Timed env job) : WellTimed env s := by
  have horder : ∀ times ∈ spans env s, inOrder env times = true := by
    intro times htimes
    obtain ⟨i, job, hi, hdone, hjob⟩ := mem_spans htimes
    exact h i job hi hdone times hjob
  refine ⟨fun job _ hday => (weekAgo_le hclock).trans hday, fun times htimes => ?_, ?_⟩
  · exact Option.isSome_of_any (horder times htimes)
  · have hsum : 0 ≤ durationSum ((spans env s).filterMap (datesOf env)) := by
      refine durationSum_nonneg fun dates hdates => ?_
      obtain ⟨times, htimes, hsome⟩ := List.mem_filterMap.mp hdates
      have hle := horder times htimes
      rw [inOrder, hsome, Option.any_some, decide_eq_true_eq] at hle
      exact hle
    have hhalf : (0 : ℚ) ≤ (completed env s).length / 2 := by positivity
    linarith

/-- **The statistics are well formed** in a state of the API on the in-memory queue just when the
queue is well timed; and so they are, in years of four digits, in every state of a run in which the
timestamps of all completed executions that are recorded are in order. -/
theorem stats_wellFormed (c : MemConfig) (hc : Reachable .memory c) (env : Op → Input) :
    (WellFormed (ask .memory env .stats c.world.state) ↔ WellTimed env c.world.state) ∧
    (Ordinary env → (updates c.world.log).all (timely env) = true →
      WellFormed (ask .memory env .stats c.world.state)) :=
  ⟨wellFormed_iff, fun hclock ht =>
    wellFormed_iff.mpr (wellTimed_of_timed hclock (all_timed hc ht))⟩

end

/-! ### Two runs -/

/-- What a worker posts about a completed execution. -/
def completedResult (startedAt finishedAt : String) : Json :=
  .obj [("stdout", .str "42"), ("stderr", .str ""), ("exitCode", .num 0),
    ("status", .str "completed"), ("startedAt", .str startedAt), ("finishedAt", .str finishedAt)]

/-- A job is submitted, and a worker posts its result. -/
def postedRun (startedAt finishedAt : String) : List (Label Task Input) :=
  submission 0 ++
    .arrive (.request (.jobResult "w" "job" (completedResult startedAt finishedAt))) ::
      turn 2 2 {} ++ turn 2 2 {} ++ turn 2 1 {}

/-- An environment that reads two timestamps. -/
def reader : Op → Input
  | .host (.getTime "2024-01-01T00:00:00.000Z") => { time := some ⟨1704067200000, by decide⟩ }
  | .host (.getTime "2024-01-01T00:00:01.500Z") => { time := some ⟨1704067201500, by decide⟩ }
  | _ => {}

theorem stats_wellFormed_posted : ∃ c,
    (start .memory).run (postedRun "2024-01-01T00:00:00.000Z" "2024-01-01T00:00:01.500Z") =
      some c ∧ WellFormed (ask .memory reader .stats c.world.state) := by
  obtain ⟨c, hc⟩ : ∃ c, (start .memory).run
      (postedRun "2024-01-01T00:00:00.000Z" "2024-01-01T00:00:01.500Z") = some c :=
    Option.isSome_iff_exists.mp rfl
  have htimely : ((start .memory).run
      (postedRun "2024-01-01T00:00:00.000Z" "2024-01-01T00:00:01.500Z")).map
      (fun c => (updates c.world.log).all (timely reader)) = some true := by decide +kernel
  have hclock : Ordinary reader := by unfold Ordinary; decide +kernel
  rw [hc, Option.map_some, Option.some.injEq] at htimely
  exact ⟨c, hc, (stats_wellFormed c (reaches_of_run hc) reader).2 hclock htimely⟩

/-- The timestamps of an accepted result are no dates, and the average is not a number. -/
theorem stats_not_a_number : ∃ c, (start .memory).run (postedRun "unknown" "unknown") = some c ∧
    (∃ a, c.pool[2]? = some (a, .done (.reply ⟨200, .ok⟩))) ∧
    ¬ WellFormed (ask .memory reader .stats c.world.state) := by
  obtain ⟨c, hc⟩ : ∃ c, (start .memory).run (postedRun "unknown" "unknown") = some c :=
    Option.isSome_iff_exists.mp rfl
  have haccepted : ∃ a, ((start .memory).run (postedRun "unknown" "unknown")).bind
      (fun c => c.pool[2]?) = some (a, .done (.reply ⟨200, .ok⟩)) := ⟨_, rfl⟩
  have hspans : ((start .memory).run (postedRun "unknown" "unknown")).map
      (fun c => spans reader c.world.state) = some [("unknown", "unknown")] := by decide +kernel
  rw [hc, Option.bind_some] at haccepted
  rw [hc, Option.map_some, Option.some.injEq] at hspans
  refine ⟨c, hc, haccepted, fun h => ?_⟩
  have hdates := (wellFormed_iff.mp h).dates ("unknown", "unknown") (by rw [hspans]; simp)
  cases hdates

end CodeHive.Api.Statistics
