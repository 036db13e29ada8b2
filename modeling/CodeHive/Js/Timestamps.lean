import CodeHive.Js.Value
import Mathlib.Data.String.Basic

/-! # The order of ISO timestamps

In the years 0 to 9999 all the fields of an ISO timestamp have fixed widths, so the timestamps of
later times come later as strings (`toISOString_le`). -/

namespace CodeHive.Js.Timestamps

set_option autoImplicit false

open CodeHive.Js.Value

/-! ### Dates -/

/-- The year of the era, counted from 1 March, that the day `doe` of an era is in. -/
def yoe (doe : ℕ) : ℕ := (doe - doe / 1460 + doe / 36524 - doe / 146096) / 365

/-- The first day of a year of the era. -/
def firstDay (y : ℕ) : ℕ := 365 * y + y / 4 - y / 100

theorem yoe_le {doe doe' : ℕ} (h : doe ≤ doe') (hlt : doe' < 146097) : yoe doe ≤ yoe doe' := by
  induction doe' with
  | zero => rw [Nat.le_zero.mp h]
  | succ n ih =>
    rcases Nat.lt_or_eq_of_le h with h | rfl
    · refine (ih (by omega) (by omega)).trans ?_
      unfold yoe
      omega
    · exact Nat.le_refl _

theorem yoe_lt {doe : ℕ} (h : doe < 146097) : yoe doe < 400 := by
  unfold yoe
  omega

/-- The years of an era begin on their first days. -/
theorem yoe_firstDay : ∀ y < 400, yoe (firstDay y) = y ∧ (y = 0 ∨ yoe (firstDay y - 1) = y - 1) := by
  decide +kernel

/-- A day of the era is one of the 366 from the first day of its year on. -/
theorem day_of_year {doe : ℕ} (h : doe < 146097) :
    firstDay (yoe doe) ≤ doe ∧ doe - firstDay (yoe doe) ≤ 365 := by
  have hy := yoe_lt h
  constructor
  · by_contra hlt
    obtain ⟨-, hzero | hprev⟩ := yoe_firstDay (yoe doe) hy
    · rw [hzero] at hlt
      exact hlt (Nat.zero_le _)
    · have hle : yoe doe ≤ yoe (firstDay (yoe doe) - 1) := by
        refine yoe_le (by omega) ?_
        unfold firstDay
        omega
      rw [hprev] at hle
      have hz : yoe doe = 0 := by omega
      rw [hz] at hlt
      exact hlt (Nat.zero_le _)
  · by_contra hgt
    by_cases hlast : yoe doe = 399
    · rw [hlast] at hgt
      simp only [firstDay] at hgt
      omega
    · obtain ⟨hnext, -⟩ := yoe_firstDay (yoe doe + 1) (by omega)
      have hle : yoe (firstDay (yoe doe + 1)) ≤ yoe doe := by
        refine yoe_le ?_ h
        simp only [firstDay] at hgt ⊢
        omega
      omega

/-- The day of its year, and the month counted from March. -/
def doy (doe : ℕ) : ℕ := doe - firstDay (yoe doe)
def monthOf (doe : ℕ) : ℕ := (5 * doy doe + 2) / 153

/-- The date of the day `doe` of an era. -/
def date (era : ℤ) (doe : ℕ) : ℤ × ℕ × ℕ :=
  let m := if monthOf doe < 10 then monthOf doe + 3 else monthOf doe - 9
  (yoe doe + era * 400 + (if m ≤ 2 then 1 else 0), m, doy doe - (153 * monthOf doe + 2) / 5 + 1)

theorem civil_eq (days : ℤ) : ∃ (era : ℤ) (doe : ℕ), days + 719468 = era * 146097 + doe ∧
    doe < 146097 ∧ civil days = date era doe := by
  have hfdiv : (days + 719468).fdiv 146097 = (days + 719468) / 146097 :=
    Int.fdiv_eq_ediv_of_nonneg _ (by decide)
  refine ⟨(days + 719468).fdiv 146097,
    (days + 719468 - (days + 719468).fdiv 146097 * 146097).toNat, ?_, ?_, rfl⟩ <;>
  · rw [hfdiv]
    omega

/-- The months are counted through, and the fields of a date have two digits. -/
theorem date_parts (era : ℤ) {doe : ℕ} (h : doe < 146097) :
    12 * (date era doe).1 + (date era doe).2.1 = 12 * (yoe doe + era * 400) + monthOf doe + 3 ∧
    1 ≤ (date era doe).2.1 ∧ (date era doe).2.1 ≤ 12 ∧ (date era doe).2.2 ≤ 31 := by
  have hdoy : doy doe ≤ 365 := (day_of_year h).2
  have hmonth : monthOf doe ≤ 11 := by
    unfold monthOf
    omega
  refine ⟨?_, ?_, ?_, ?_⟩
  · simp only [date]
    split_ifs <;> omega
  · simp only [date]
    split_ifs <;> omega
  · simp only [date]
    split_ifs <;> omega
  · simp only [date, monthOf]
    omega

/-- One date is before another. -/
def Before (x y : ℤ × ℕ × ℕ) : Prop :=
  x.1 < y.1 ∨ (x.1 = y.1 ∧ (x.2.1 < y.2.1 ∨ (x.2.1 = y.2.1 ∧ x.2.2 < y.2.2)))

/-- Within an era. -/
theorem parts_lt {doe doe' : ℕ} (h : doe < doe') (hlt : doe' < 146097) :
    yoe doe < yoe doe' ∨ (yoe doe = yoe doe' ∧ (monthOf doe < monthOf doe' ∨
      (monthOf doe = monthOf doe' ∧
        doy doe - (153 * monthOf doe + 2) / 5 < doy doe' - (153 * monthOf doe' + 2) / 5))) := by
  rcases Nat.lt_or_eq_of_le (yoe_le h.le hlt) with hy | hy
  · exact Or.inl hy
  · have hfirst := (day_of_year (h.trans hlt)).1
    have hdoy : doy doe < doy doe' := by
      unfold doy
      rw [← hy]
      omega
    refine Or.inr ⟨hy, ?_⟩
    unfold monthOf
    omega

/-- **Later days have later dates.** -/
theorem civil_lt {days days' : ℤ} (h : days < days') : Before (civil days) (civil days') := by
  obtain ⟨era, doe, hdays, hdoe, hcivil⟩ := civil_eq days
  obtain ⟨era', doe', hdays', hdoe', hcivil'⟩ := civil_eq days'
  obtain ⟨hmonths, hlow, hhigh, -⟩ := date_parts era hdoe
  obtain ⟨hmonths', hlow', hhigh', -⟩ := date_parts era' hdoe'
  have hday : (date era doe).2.2 = doy doe - (153 * monthOf doe + 2) / 5 + 1 := rfl
  have hday' : (date era' doe').2.2 = doy doe' - (153 * monthOf doe' + 2) / 5 + 1 := rfl
  have hmonth : monthOf doe ≤ 11 := by
    have hdoy : doy doe ≤ 365 := (day_of_year hdoe).2
    unfold monthOf
    omega
  have hy := yoe_lt hdoe
  rw [hcivil, hcivil']
  unfold Before
  by_cases hera : era < era'
  · omega
  · obtain rfl : era = era' := by omega
    have hlt : doe < doe' := by omega
    have hparts := parts_lt hlt hdoe'
    omega

theorem civil_fields (days : ℤ) : (civil days).2.1 ≤ 12 ∧ (civil days).2.2 ≤ 31 := by
  obtain ⟨era, doe, -, hdoe, hcivil⟩ := civil_eq days
  rw [hcivil]
  exact ⟨(date_parts era hdoe).2.2.1, (date_parts era hdoe).2.2.2⟩

/-! ### Digits -/

/-- The last `n` digits of `x`. -/
def digits : ℕ → ℕ → List Char
  | 0, _ => []
  | n + 1, x => digits n (x / 10) ++ [(x % 10).digitChar]

theorem length_digits (n x : ℕ) : (digits n x).length = n := by
  induction n generalizing x with
  | zero => rfl
  | succ n ih => rw [digits, List.length_append, ih, List.length_singleton]

theorem digits_zero (n : ℕ) : digits n 0 = List.replicate n '0' := by
  induction n with
  | zero => rfl
  | succ n ih => rw [digits, Nat.zero_div, ih, List.replicate_succ']; rfl

/-- Padding gives the last `n` digits of a number that has no more. -/
theorem toList_padStart {n x : ℕ} (hn : 1 ≤ n) (hx : x < 10 ^ n) :
    (padStart n x).toList = digits n x := by
  induction n, hn using Nat.le_induction generalizing x with
  | base =>
    have hlt : x < 10 := by simpa using hx
    have hrepr : toString x = String.singleton x.digitChar := Nat.repr_of_lt hlt
    simp [padStart, hrepr, digits, Nat.mod_eq_of_lt hlt]
  | succ n hn ih =>
    by_cases hlt : x < 10
    · have hrepr : toString x = String.singleton x.digitChar := Nat.repr_of_lt hlt
      rw [digits, Nat.div_eq_of_lt hlt, digits_zero, Nat.mod_eq_of_lt hlt]
      simp [padStart, hrepr]
    · have hdiv : x / 10 < 10 ^ n := by
        rw [Nat.pow_succ] at hx
        omega
      have hrepr : toString x = toString (x / 10) ++ String.singleton (x % 10).digitChar :=
        Nat.repr_of_ge (by omega)
      rw [digits, ← ih hdiv]
      simp [padStart, hrepr]

/-- A list that is before another of the same length stays before it, whatever follows. -/
theorem append_lt_append {l l' : List Char} (hlen : l.length = l'.length) (h : l < l')
    (r r' : List Char) : l ++ r < l' ++ r' := by
  induction l generalizing l' with
  | nil =>
    rw [List.eq_nil_of_length_eq_zero hlen.symm] at h
    exact absurd h (List.not_lt_nil _)
  | cons c l ih =>
    cases l' with
    | nil => cases hlen
    | cons c' l' =>
      rw [List.cons_append, List.cons_append, List.cons_lt_cons_iff]
      rcases List.cons_lt_cons_iff.mp h with hc | ⟨rfl, hl⟩
      · exact Or.inl hc
      · exact Or.inr ⟨rfl, ih (Nat.succ.inj hlen) hl⟩

theorem digitChar_lt : ∀ d' < 10, ∀ d < d', d.digitChar < d'.digitChar := by decide

theorem digits_lt {n x x' : ℕ} (h : x < x') (hx' : x' < 10 ^ n) : digits n x < digits n x' := by
  induction n generalizing x x' with
  | zero => omega
  | succ n ih =>
    have hdiv' : x' / 10 < 10 ^ n := by
      rw [Nat.pow_succ] at hx'
      omega
    rw [digits, digits]
    by_cases hdiv : x / 10 < x' / 10
    · exact append_lt_append (by rw [length_digits, length_digits]) (ih hdiv hdiv') _ _
    · have heq : x / 10 = x' / 10 := by omega
      have hlast : (x % 10).digitChar < (x' % 10).digitChar :=
        digitChar_lt _ (by omega) _ (by omega)
      rw [heq]
      exact List.append_left_lt (List.cons_lt_cons_iff.mpr (Or.inl hlast))

/-! ### Strings -/

/-- What follows decides between strings that begin in the same way. -/
theorem append_mono (s : String) {r r' : String} (h : r ≤ r') : s ++ r ≤ s ++ r' := by
  rw [String.le_iff_toList_le] at h ⊢
  rw [String.toList_append, String.toList_append]
  rcases lt_or_eq_of_le h with h | h
  · exact (List.append_left_lt h).le
  · rw [h]

/-- A smaller number of the same width comes first, whatever follows. -/
theorem padStart_lt {n x x' : ℕ} (hn : 1 ≤ n) (h : x < x') (hx' : x' < 10 ^ n) (r r' : String) :
    padStart n x ++ r ≤ padStart n x' ++ r' := by
  refine le_of_lt ?_
  rw [String.lt_iff_toList_lt, String.toList_append, String.toList_append,
    toList_padStart hn (h.trans hx'), toList_padStart hn hx']
  exact append_lt_append (by rw [length_digits, length_digits]) (digits_lt h hx') _ _

/-- A number of fixed width, and what follows if it is the same. -/
theorem field_le {n x x' : ℕ} {r r' : String} (hn : 1 ≤ n) (hx' : x' < 10 ^ n)
    (h : x < x' ∨ (x = x' ∧ r ≤ r')) : padStart n x ++ r ≤ padStart n x' ++ r' := by
  rcases h with h | ⟨rfl, h⟩
  · exact padStart_lt hn h hx' r r'
  · exact append_mono _ h

/-! ### Timestamps -/

/-- The time of the day. -/
def timeString (t : ℕ) : String :=
  padStart 2 (t / 3600000) ++ (":" ++ (padStart 2 (t / 60000 % 60) ++ (":" ++
    (padStart 2 (t / 1000 % 60) ++ ("." ++ (padStart 3 (t % 1000) ++ "Z"))))))

theorem timeString_le {t t' : ℕ} (h : t ≤ t') (hlt : t' < 86400000) :
    timeString t ≤ timeString t' := by
  refine field_le (by decide) (by omega) ?_
  by_cases hh : t / 3600000 < t' / 3600000
  · exact Or.inl hh
  refine Or.inr ⟨by omega, append_mono _ (field_le (by decide) (by omega) ?_)⟩
  by_cases hm : t / 60000 % 60 < t' / 60000 % 60
  · exact Or.inl hm
  refine Or.inr ⟨by omega, append_mono _ (field_le (by decide) (by omega) ?_)⟩
  by_cases hs : t / 1000 % 60 < t' / 1000 % 60
  · exact Or.inl hs
  refine Or.inr ⟨by omega, append_mono _ (field_le (by decide) (by omega) ?_)⟩
  by_cases hms : t % 1000 < t' % 1000
  · exact Or.inl hms
  · exact Or.inr ⟨by omega, le_refl _⟩

/-- The date, and what follows. -/
def dateString (date : ℤ × ℕ × ℕ) (r : String) : String :=
  padStart 4 date.1.toNat ++ ("-" ++ (padStart 2 date.2.1 ++ ("-" ++ (padStart 2 date.2.2 ++
    ("T" ++ r)))))

theorem dateString_mono (date : ℤ × ℕ × ℕ) {r r' : String} (h : r ≤ r') :
    dateString date r ≤ dateString date r' :=
  append_mono _ (append_mono _ (append_mono _ (append_mono _ (append_mono _ (append_mono _ h)))))

theorem dateString_le {x y : ℤ × ℕ × ℕ} (h : Before x y) (hx : 0 ≤ x.1) (hy : y.1 ≤ 9999)
    (hm : y.2.1 ≤ 12) (hd : y.2.2 ≤ 31) (r r' : String) : dateString x r ≤ dateString y r' := by
  refine field_le (by decide) (by omega) ?_
  rcases h with h | ⟨h, hrest⟩
  · exact Or.inl (by omega)
  refine Or.inr ⟨by rw [h], append_mono _ (field_le (by decide) (by omega) ?_)⟩
  rcases hrest with h | ⟨h, hrest⟩
  · exact Or.inl h
  · exact Or.inr ⟨h, append_mono _ (padStart_lt (by decide) hrest (by omega) _ _)⟩

/-- The year of the time has four digits. -/
def FourDigitYear (ms : ℤ) : Prop :=
  0 ≤ (civil (ms.fdiv 86400000)).1 ∧ (civil (ms.fdiv 86400000)).1 ≤ 9999

instance (ms : ℤ) : Decidable (FourDigitYear ms) := inferInstanceAs (Decidable (_ ∧ _))

theorem toISOString_eq {ms : ℤ} (h : FourDigitYear ms) :
    toISOString ms = dateString (civil (ms.fdiv 86400000))
      (timeString (ms - ms.fdiv 86400000 * 86400000).toNat) := by
  have hyear : 0 ≤ (civil (ms.fdiv 86400000)).1 ∧ (civil (ms.fdiv 86400000)).1 ≤ 9999 := h
  unfold toISOString dateString timeString
  simp only [String.append_assoc]
  rw [if_pos hyear]

/-- **Later times have later timestamps.** -/
theorem toISOString_le {ms ms' : ℤ} (h : ms ≤ ms') (hms : FourDigitYear ms)
    (hms' : FourDigitYear ms') : toISOString ms ≤ toISOString ms' := by
  rw [toISOString_eq hms, toISOString_eq hms']
  have hfdiv : ∀ x : ℤ, x.fdiv 86400000 = x / 86400000 := fun x =>
    Int.fdiv_eq_ediv_of_nonneg _ (by decide)
  by_cases hday : ms.fdiv 86400000 < ms'.fdiv 86400000
  · obtain ⟨hm, hd⟩ := civil_fields (ms'.fdiv 86400000)
    exact dateString_le (civil_lt hday) hms.1 hms'.2 hm hd _ _
  · have heq : ms.fdiv 86400000 = ms'.fdiv 86400000 := by
      rw [hfdiv, hfdiv] at hday ⊢
      omega
    rw [heq]
    refine dateString_mono _ (timeString_le ?_ ?_)
    · omega
    · rw [hfdiv]
      omega

end CodeHive.Js.Timestamps
