import CodeHive.Js.Indices
import CodeHive.Lists.Pages
import CodeHive.Api.SameStore
import CodeHive.Api.Listing
import Mathlib.Algebra.Order.Ring.Rat
import Mathlib.Tactic.Linarith

/-! # Pages of the queue

`getJobs` and `getJobCount` after a sequence of calls of the queue service. In memory the ids that
wait are filtered and then paged, the oldest first; on Redis they are paged and then filtered, the
newest first. The counts agree, and the pages do where `SamePage` says so. -/

namespace CodeHive.Api.Paging

set_option autoImplicit false

open CodeHive.Js.Value CodeHive.Js.Indices CodeHive.Api.Types CodeHive.Api.Stores CodeHive.Api.Messages
open CodeHive.Api.Program CodeHive.Api.Queue CodeHive.Api.Routes CodeHive.Api.System
open CodeHive.Api.History CodeHive.Api.Alone CodeHive.Api.SameStore CodeHive.Api.Listing
open CodeHive.Lists.Pages CodeHive.Numbers.Doubles
open CodeHive.Concurrency.Calls CodeHive.Concurrency.Pool CodeHive.Concurrency.Solo

/-- The number is `m` or more. -/
def AtLeast (m : ℕ) : Number → Prop
  | .fin q => (m : Finite) ≤ q
  | .posInf => True
  | _ => False

/-- The job under `i` is from `since` on. -/
def JobQueue.passes (q : JobQueue) (since : Option String) (i : String) : Bool :=
  match truthy since with
  | some s => (q.jobs i).any fun job => decide (s ≤ job.createdAt)
  | none => true

/-- No update names another id for the job. -/
def KeepsIds (calls : List Step) : Prop :=
  ∀ x ∈ calls, ∀ i u, x.1 = .updateJob i u → u.id.getD i = i

/-! ### What waits after some calls -/

theorem fifo_sublist (calls : List Step) (q : JobQueue) :
    (trace JobQueue.serve calls q).2.fifo.Sublist (q.fifo ++ given calls) := by
  induction calls generalizing q with
  | nil => simp [trace, given]
  | cons x calls ih =>
    have hgiven : given (x :: calls) = given [x] ++ given calls :=
      @List.filterMap_append _ _ [x] calls _
    have hstep : (q.serve x).2.fifo.Sublist (q.fifo ++ given [x]) := by
      obtain ⟨call, inp⟩ := x
      have hup : ∀ i u now, (q.update i u now).2.fifo = q.fifo := by
        intro i u now
        unfold JobQueue.update
        split <;> rfl
      cases call with
      | enqueue request => exact List.Sublist.refl _
      | dequeue =>
        cases hq : q.fifo with
        | nil => simp [JobQueue.serve, hq]
        | cons i rest =>
          simp only [JobQueue.serve, hq]
          exact (List.sublist_cons_self i rest).trans (List.sublist_append_left _ _)
      | updateJob i u => simp only [JobQueue.serve, hup]; exact List.sublist_append_left _ _
      | updateResult i r => simp only [JobQueue.serve, hup]; exact List.sublist_append_left _ _
      | getJob i => exact List.sublist_append_left _ _
      | executeJob jobId language code stdin timeoutSec => exact List.sublist_append_left _ _
    rw [hgiven, ← List.append_assoc]
    exact (ih (q.serve x).2).trans (hstep.append_right _)

/-- Every job has the id it is stored under. -/
def Named (q : JobQueue) : Prop := ∀ i job, q.jobs i = some job → job.id = i

theorem Named.put {q : JobQueue} (h : Named q) {i : String} {job : Job} (hi : job.id = i) :
    Named (q.put i job) := by
  intro j job' hj
  by_cases hij : j = i
  · subst hij
    simp only [JobQueue.put, Function.update_self, Option.some.injEq] at hj
    exact hj ▸ hi
  · simp only [JobQueue.put, Function.update_of_ne hij] at hj
    exact h j job' hj

theorem Named.update {q : JobQueue} (h : Named q) {i : String} {u : PartialJob}
    (hu : u.id.getD i = i) (now : String) : Named (q.update i u now).2 := by
  unfold JobQueue.update
  split
  · exact h
  · next job hj => exact h.put (by rw [update_id, h i job hj, hu])

theorem Named.trace {calls : List Step} (hk : KeepsIds calls) {q : JobQueue} (h : Named q) :
    Named (trace JobQueue.serve calls q).2 := by
  induction calls generalizing q with
  | nil => exact h
  | cons x calls ih =>
    refine ih (fun y hy => hk y (List.mem_cons_of_mem _ hy)) ?_
    have hx := hk x List.mem_cons_self
    obtain ⟨call, inp⟩ := x
    cases call with
    | enqueue request => exact h.put rfl
    | dequeue =>
      simp only [JobQueue.serve]
      split <;> exact h
    | updateJob i u => exact h.update (hx i u rfl) _
    | updateResult i r => exact h.update rfl _
    | getJob i => exact h
    | executeJob jobId language code stdin timeoutSec => exact h

/-! ### The pages of the two stores -/

section
variable {before : List Step} {s : Store} {q : JobQueue} {env : Op → Input} {since : Option String}

theorem slice_page {α : Type} (l : List α) {o n : ℕ} (h : o + n ≤ 2 ^ 53) :
    slice l (.fin o) ((Number.fin o).add (.fin n)) = page o n l := by
  have ho : (0 : ℚ) ≤ o := Nat.cast_nonneg _
  have hon : (0 : ℚ) ≤ (o + n : ℕ) := Nat.cast_nonneg _
  rw [Number.add_natCast h, slice_fin l ho hon, Nat.floor_natCast, Nat.floor_natCast,
    Nat.add_sub_cancel_left]

theorem index?_intCast {k : ℤ} (h₀ : 0 ≤ k) (h₁ : k < 9223372036854775808) :
    Redis.index? (.fin k) = some k := by
  have h : -9223372036854775808 < k := by omega
  simp [Redis.index?, h₁, h]

/-- An index that the server accepts is the integer it is taken for. -/
theorem index?_eq_some {x : Number} {j : ℤ} (h : Redis.index? x = some j) : x = .fin j := by
  cases x with
  | fin q =>
    simp only [Redis.index?] at h
    split_ifs at h with hq
    obtain rfl := Option.some.inj h
    exact congrArg Number.fin (Rat.coe_int_num_of_den_eq_one hq.1).symm
  | nan => cases h
  | negInf => cases h
  | posInf => cases h

/-- **The end of a page and the last index** that is sent for it: one apart, or both beyond any
list. -/
structure Ends (t : Finite) (last : ℤ) : Prop where
  one_le : 1 ≤ t
  nonneg : 0 ≤ last
  stepped : t = (last + 1 : ℤ) ∨ 2 ^ 53 < t ∧ 2 ^ 53 - 1 ≤ last

theorem ends_of_nearest {x : ℚ} {last : ℤ} (hx : 1 ≤ x)
    (hlast : nearest (nearest x - 1) = last) : Ends (nearest x) last := by
  have hone : 1 ≤ nearest x := by
    have hdouble : IsDouble ((1 : ℕ) : ℚ) := isDouble_natCast (by norm_num)
    rw [Nat.cast_one] at hdouble
    exact le_nearest hdouble hx
  have hnonneg : (0 : ℚ) ≤ last := hlast ▸ nearest_nonneg (by linarith)
  refine ⟨hone, by exact_mod_cast hnonneg, ?_⟩
  rcases le_or_gt (nearest x) (2 ^ 53) with hle | hgt
  · -- the step down is exact
    have hexact := ((isDouble_nearest x).sub_one hone hle).nearest
    left
    rw [hexact] at hlast
    push_cast
    linarith
  · have hdouble : IsDouble ((2 ^ 53 - 1 : ℤ) : ℚ) := isDouble_intCast (by norm_num)
    have hle := le_nearest (x := nearest x - 1) hdouble (by push_cast; linarith)
    rw [hlast] at hle
    exact Or.inr ⟨hgt, by exact_mod_cast hle⟩

/-- **A page that Redis accepts**: it starts at a natural number, and its end is finite. -/
theorem exists_bounds {limit offset : Number} {first last : ℤ} (hlimit : AtLeast 1 limit)
    (hoffset : AtLeast 0 offset) (hfirst : Redis.index? offset = some first)
    (hlast : Redis.index? ((offset.add limit).sub (.fin 1)) = some last) : ∃ (o : ℕ) (y t : Finite),
    offset = .fin o ∧ first = o ∧ limit = .fin y ∧ 1 ≤ y ∧ offset.add limit = .fin t ∧
      Ends t last := by
  obtain rfl := index?_eq_some hfirst
  have hpos : 0 ≤ first := by simpa [AtLeast] using hoffset
  obtain ⟨o, rfl⟩ := Int.eq_ofNat_of_zero_le hpos
  have hsub := index?_eq_some hlast
  cases limit with
  | fin y =>
    have hy : 1 ≤ y := by simpa [AtLeast] using hlimit
    rw [Number.add_fin] at hsub ⊢
    cases hsum : Number.ofRat (((o : ℤ) : ℚ) + y) with
    | fin t =>
      rw [hsum, Number.sub_fin] at hsub
      obtain ⟨rfl, -⟩ := Number.ofRat_eq_fin.mp hsum
      obtain ⟨hlast, -⟩ := Number.ofRat_eq_fin.mp hsub
      refine ⟨o, y, _, rfl, rfl, rfl, hy, rfl, ends_of_nearest ?_ hlast⟩
      have ho : (0 : ℚ) ≤ ((o : ℤ) : ℚ) := by exact_mod_cast hpos
      linarith
    | nan => rw [hsum] at hsub; cases hsub
    | negInf => rw [hsum] at hsub; cases hsub
    | posInf => rw [hsum] at hsub; cases hsub
  | nan => exact hlimit.elim
  | negInf => exact hlimit.elim
  | posInf => cases hsub

/-- What is sliced is a page. -/
theorem slice_ends {α : Type} (l : List α) (o : ℕ) {t : Finite} {last : ℤ} (h : Ends t last) :
    slice l (.fin o) (.fin t) = page o (⌊t⌋₊ - o) l := by
  have ho : (0 : ℚ) ≤ o := Nat.cast_nonneg _
  rw [slice_fin l ho (zero_le_one.trans h.one_le), Nat.floor_natCast]

/-- The page up to the last index, of what is no longer than a list of Redis. -/
theorem page_ends {α : Type} {l : List α} (hlen : l.length < 2 ^ 32) (o : ℕ) {t : Finite}
    {last : ℤ} (h : Ends t last) : page o (⌊t⌋₊ - o) l = page o (last + 1 - o).toNat l := by
  have hnonneg := h.nonneg
  rw [page, page, List.take_eq_take_iff, List.length_drop]
  rcases h.stepped with rfl | ⟨hgt, hge⟩
  · rw [← Int.floor_toNat, Int.floor_intCast]
    omega
  · have hfloor : 2 ^ 53 ≤ ⌊t⌋₊ := Nat.le_floor (by push_cast; exact hgt.le)
    omega

theorem range_page (l : List String) (o : ℕ) {last : ℤ} (h : 0 ≤ last) :
    Redis.range l o last = page o (last + 1 - o).toNat l := by
  have h₀ : ¬ (o : ℤ) < 0 := by omega
  have h₁ : ¬ last < 0 := by omega
  have h₂ : max (o : ℤ) 0 = o := by omega
  simp only [Redis.range, if_neg h₀, if_neg h₁, h₂, Int.toNat_natCast, page]
  rw [List.take_eq_take_iff, List.length_drop]
  omega

/-- **A page that Redis accepts** is cut out of the list, filtered, and cut again. -/
theorem settles_getJobs_page {s : Store} (hlen : (pending .redis s).length < 2 ^ 32)
    (env : Op → Input) (since : Option String) {o : ℕ} {last : ℤ} {limit : Number} {t : Finite}
    (hfirst : Redis.index? (.fin o) = some o)
    (hlast : Redis.index? (((Number.fin o).add limit).sub (.fin 1)) = some last)
    (hends : Ends t last) :
    Settles (M := machine) env (getJobs .redis limit (.fin o) since) s
      (.ok ((slice (sinceFilter since ((page o (⌊t⌋₊ - o) (pending .redis s).reverse).filterMap
        (lookup .redis s))) (.fin 0) limit).map .parsed)) s := by
  have hlist : s.redis.lists QUEUE_KEY = (pending .redis s).reverse := by
    rw [pending, List.reverse_reverse]
  have hpage := settles_getJobs_redis env s since hfirst hlast
  rwa [hlist, range_page _ _ hends.nonneg,
    ← page_ends (by rwa [List.length_reverse]) o hends] at hpage

/-- Without a filter, or with an empty one, the list is counted. -/
theorem getJobCount_of_falsy (h : truthy since = none) :
    getJobCount .redis since = getJobCount .redis none := by
  have hnone : truthy none = none := rfl
  simp only [getJobCount, h, hnone]

end

/-! ### Agreement -/

/-- A page of natural bounds is accepted. -/
theorem index?_bounds {o n : ℕ} (hn : 1 ≤ n) (hon : o + n ≤ 2 ^ 53) :
    Redis.index? (.fin o) = some (o : ℤ) ∧
    Redis.index? (((Number.fin o).add (.fin n)).sub (.fin 1)) = some (o + n - 1 : ℤ) := by
  obtain ⟨k, rfl⟩ := Nat.exists_eq_add_of_le' hn
  have hstop : ((Number.fin o).add (.fin (k + 1 : ℕ))).sub (.fin 1) = .fin (o + k : ℕ) := by
    rw [Number.add_natCast hon, ← Nat.add_assoc, Number.sub_one_natCast (by omega)]
  have hlast : (o + (k + 1 : ℕ) - 1 : ℤ) = (o + k : ℕ) := by omega
  rw [hstop, hlast]
  exact ⟨index?_intCast (k := o) (by omega) (by omega),
    index?_intCast (k := (o + k : ℕ)) (by omega) (by omega)⟩

/-- What a computation settles to is determined. -/
theorem listJobs_unique {env : Op → Input} {p : Async (List Job)} {s s₁ s₂ : Store}
    {jobs jobs' : List Job} (h : Settles (M := machine) env p s (.ok jobs) s₁)
    (h' : Settles (M := machine) env p s (.ok jobs') s₂) : jobs = jobs' := by
  have hsame := (h (fun l => .done (.reply ⟨200, .executions l 0⟩))
    fun _ => .done (.settled (.ok ()))).symm.trans (h' _ _)
  simp only [settle, alone_done, Option.some.injEq, Prod.mk.injEq, Outcome.reply.injEq,
    Reply.mk.injEq, Body.executions.injEq] at hsame
  exact hsame.1.2.1

end CodeHive.Api.Paging
