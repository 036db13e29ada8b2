import CodeHive.Js.Indices
import CodeHive.Api.Paging
import CodeHive.Api.Runs

/-! # The pages of the in-memory queue

The ids in the order of a `MemoryQueue` are distinct and have their records, whatever is done to it.
So the pages of size `k`, from the front up to the first empty one, hold each queued job that is from
`since` on exactly once. The offsets `k`, `2k` and so on are exact as far as the queue reaches, since
an array has fewer than `2 ^ 32` elements; what is beyond is beyond the queue. -/

namespace CodeHive.Api.MemoryPages

set_option autoImplicit false

open CodeHive.Js.Value CodeHive.Js.Indices CodeHive.Api.Types CodeHive.Api.Stores
open CodeHive.Api.Queue CodeHive.Api.System CodeHive.Api.History CodeHive.Api.Invariant
open CodeHive.Api.Runs CodeHive.Api.Paging CodeHive.Lists.Pages CodeHive.Concurrency.Pool
open CodeHive.Numbers.Doubles

/-! ### The states of a queue -/

/-- **The states that a `MemoryQueue` gets into** by its own methods; an id that is enqueued does not
wait already, and fits into the array. -/
inductive Reached : MemoryQueue → Prop where
  | new : Reached .empty
  | enqueue {q : MemoryQueue} {job : Job} (h : Reached q) (hfresh : job.id ∉ q.order)
      (hroom : q.order.length + 1 < 2 ^ 32) : Reached (q.enqueue job)
  | dequeue {q : MemoryQueue} (h : Reached q) : Reached q.dequeue.2
  | updateJob {q : MemoryQueue} {id : String} {updates : PartialJob} {now : String}
      (h : Reached q) : Reached (q.updateJob id updates now).2
  | clear {q : MemoryQueue} (h : Reached q) : Reached .empty

/-- **The invariant**: the ids in the order are distinct, and there is a record for each. -/
structure Sound (q : MemoryQueue) : Prop where
  nodup : q.order.Nodup
  stored : ∀ id ∈ q.order, (q.jobs id).isSome

theorem Sound.empty : Sound .empty := ⟨List.nodup_nil, fun _ h => by cases h⟩

theorem Sound.enqueue {q : MemoryQueue} {job : Job} (h : Sound q) (hfresh : job.id ∉ q.order) :
    Sound (q.enqueue job) where
  nodup := List.nodup_append.mpr ⟨h.nodup, List.nodup_singleton _, fun i hi j hj heq =>
    hfresh (by rw [← List.mem_singleton.mp hj, ← heq]; exact hi)⟩
  stored id hid := by
    simp only [MemoryQueue.enqueue, Function.update_apply]
    split_ifs with hne
    · rfl
    · rcases List.mem_append.mp hid with hid | hid
      · exact h.stored id hid
      · exact absurd (List.mem_singleton.mp hid) hne

theorem Sound.dequeue {q : MemoryQueue} (h : Sound q) : Sound q.dequeue.2 := by
  rw [Records.dequeue_snd]
  exact ⟨h.nodup.tail, fun id hid => h.stored id (List.mem_of_mem_tail hid)⟩

theorem Sound.updateJob {q : MemoryQueue} (h : Sound q) (id : String) (updates : PartialJob)
    (now : String) : Sound (q.updateJob id updates now).2 := by
  unfold MemoryQueue.updateJob
  cases hid : q.jobs id with
  | none => exact h
  | some job =>
    refine ⟨h.nodup, fun j hj => ?_⟩
    simp only [Function.update_apply]
    split_ifs
    · rfl
    · exact h.stored j hj

/-- **Every operation keeps the invariant.** -/
theorem Reached.sound {q : MemoryQueue} (h : Reached q) : Sound q := by
  induction h with
  | new => exact .empty
  | enqueue _ hfresh _ ih => exact ih.enqueue hfresh
  | dequeue _ ih => exact ih.dequeue
  | updateJob _ ih => exact ih.updateJob _ _ _
  | clear => exact .empty

theorem Reached.length_lt {q : MemoryQueue} (h : Reached q) : q.order.length < 2 ^ 32 := by
  induction h with
  | new => exact Nat.two_pow_pos 32
  | enqueue _ _ hroom _ =>
    simp only [MemoryQueue.enqueue, List.length_append, List.length_singleton]
    exact hroom
  | @dequeue q _ ih =>
    rw [Records.dequeue_snd]
    exact q.order.length_tail.trans_lt (by omega)
  | updateJob _ ih => rwa [Records.updateJob_order]
  | clear => exact Nat.two_pow_pos 32

/-- The queue of a process is one of these. -/
theorem sound_of_reachable {c : Config (apiSystem .memory)} (hc : Reachable .memory c) :
    Sound c.world.state.mem where
  nodup := by
    have hnodup := hc.inv.nodup
    rw [← hc.inv.fifo] at hnodup
    exact (List.nodup_append.mp hnodup).2.1
  stored id hid := by
    obtain ⟨job, hjob⟩ := hc.inv.lookup_some (hc.inv.pending_mem hid)
    exact Option.isSome_iff_exists.mpr ⟨job, hjob⟩

/-! ### Pages -/

/-- A page size: a whole number from 1 on, or no limit. -/
def PageSize : Number → Prop
  | .fin q => ∃ n : ℕ, 1 ≤ n ∧ q = n
  | .posInf => True
  | _ => False

/-- The offset of page `m`: `0`, `k`, `2k` and so on. -/
def offsetOf (k : Number) : ℕ → Number
  | 0 => .fin 0
  | m + 1 => (offsetOf k m).add k

/-- The job queued under `id` is from `since` on. -/
def MemoryQueue.passes (q : MemoryQueue) (since : Option String) (id : String) : Bool :=
  match truthy since with
  | some s => (q.jobs id).any fun job => decide (s ≤ job.createdAt)
  | none => true

/-- **The pages of size `k` partition the queue**: up to the first empty one, they hold all jobs that
pass in queue order, each once, and as many as are counted. -/
structure Partitioned (q : MemoryQueue) (k : Number) (since : Option String) (n : ℕ) : Prop where
  nonempty : ∀ m < n, q.getJobs k (offsetOf k m) since ≠ []
  empty : q.getJobs k (offsetOf k n) since = []
  concat : ((List.range n).flatMap fun m => q.getJobs k (offsetOf k m) since) =
    (q.order.filter (MemoryQueue.passes q since)).map .stored
  once : (q.order.filter (MemoryQueue.passes q since)).Nodup
  stored : ∀ id ∈ q.order, ∃ job, q.jobs id = some job
  count : ((List.range n).flatMap fun m => q.getJobs k (offsetOf k m) since).length =
    q.getJobCount since

/-! ### Where the pages are cut -/

theorem atLeast_ofRat {N : ℕ} (hN : N ≤ 2 ^ 53) {q : ℚ} (h : (N : ℚ) ≤ q) :
    AtLeast N (Number.ofRat q) := by
  have hle : (N : ℚ) ≤ nearest q := le_nearest (isDouble_natCast hN) h
  unfold Number.ofRat
  split_ifs with hfin hpos
  · exact hle
  · trivial
  · -- nothing that is not positive is rounded up so far
    have hzero : nearest q = 0 :=
      le_antisymm (nearest_nonpos (not_lt.mp hpos)) ((Nat.cast_nonneg N).trans hle)
    rw [hzero, abs_zero] at hfin
    exact absurd (by positivity) hfin

theorem atLeast_add {N : ℕ} (hN : N ≤ 2 ^ 53) {x y : Number} (hx : AtLeast N x)
    (hy : AtLeast 0 y) : AtLeast N (x.add y) := by
  cases x with
  | nan => exact hx.elim
  | negInf => exact hx.elim
  | posInf => cases y <;> first | exact hy.elim | trivial
  | fin p =>
    cases y with
    | nan => exact hy.elim
    | negInf => exact hy.elim
    | posInf => trivial
    | fin q =>
      have hp : (N : ℚ) ≤ p := hx
      have hq : 0 ≤ q := by simpa [AtLeast] using hy
      exact atLeast_ofRat hN (by linarith)

/-- The offsets are exact up to `2 ^ 53`, and do not come back from there. -/
theorem offsetOf_natCast (n m : ℕ) : (m * n ≤ 2 ^ 53 ∧ offsetOf (.fin n) m = .fin (m * n : ℕ)) ∨
    (2 ^ 53 < m * n ∧ AtLeast (2 ^ 53) (offsetOf (.fin n) m)) := by
  induction m with
  | zero =>
    left
    simp [offsetOf]
  | succ m ih =>
    have hstep : (m + 1) * n = m * n + n := Nat.succ_mul m n
    rw [offsetOf, hstep]
    rcases ih with ⟨-, hm⟩ | ⟨hm, hfar⟩
    · rw [hm]
      rcases Nat.lt_or_ge (2 ^ 53) (m * n + n) with hlt | hle
      · refine Or.inr ⟨hlt, atLeast_ofRat le_rfl ?_⟩
        rw [← Nat.cast_add]
        exact_mod_cast hlt.le
      · exact Or.inl ⟨hle, Number.add_natCast hle⟩
    · have hsize : AtLeast 0 (.fin n) := by simp [AtLeast]
      exact Or.inr ⟨by omega, atLeast_add le_rfl hfar hsize⟩

/-- An index beyond the list. -/
theorem clampIndex_atLeast {len N : ℕ} (h : len ≤ N) {x : Number} (hx : AtLeast N x) :
    x.clampIndex len = len := by
  cases x with
  | nan => exact hx.elim
  | negInf => exact hx.elim
  | posInf => rfl
  | fin q =>
    have hq : (N : ℚ) ≤ q := hx
    have hfloor : N ≤ ⌊q⌋₊ := Nat.le_floor hq
    rw [clampIndex_floor len ((Nat.cast_nonneg N).trans hq)]
    omega

theorem clampIndex_offsetOf {len : ℕ} (hlen : len < 2 ^ 32) (n m : ℕ) :
    (offsetOf (.fin n) m).clampIndex len = min (m * n) len := by
  rcases offsetOf_natCast n m with ⟨-, hm⟩ | ⟨hm, hfar⟩
  · rw [hm]
    exact Number.clampIndex_natCast len (m * n)
  · rw [clampIndex_atLeast (by omega) hfar]
    omega

theorem offsetOf_posInf (m : ℕ) : offsetOf .posInf (m + 1) = .posInf := by
  induction m with
  | zero => rfl
  | succ m ih => rw [offsetOf, ih]; rfl

/-- The cuts of the pages of size `k` advance from the front up to the end. -/
theorem cuts_advance {k : Number} (hk : PageSize k) {len : ℕ} (hlen : len < 2 ^ 32) (m : ℕ) :
    (offsetOf k m).clampIndex len ≤ len ∧
    (offsetOf k m).clampIndex len ≤ (offsetOf k (m + 1)).clampIndex len ∧
    ((offsetOf k m).clampIndex len < len →
      (offsetOf k m).clampIndex len < (offsetOf k (m + 1)).clampIndex len) := by
  cases k with
  | nan => exact hk.elim
  | negInf => exact hk.elim
  | fin r =>
    obtain ⟨n, hn, rfl⟩ := hk
    have hstep : (m + 1) * n = m * n + n := Nat.succ_mul m n
    rw [clampIndex_offsetOf hlen, clampIndex_offsetOf hlen, hstep]
    omega
  | posInf =>
    rw [offsetOf_posInf]
    have hlast : Number.posInf.clampIndex len = len := rfl
    rw [hlast]
    cases m with
    | zero =>
      have hfirst : (offsetOf .posInf 0).clampIndex len = 0 := by
        simp [offsetOf, Number.clampIndex]
      omega
    | succ m =>
      rw [offsetOf_posInf, hlast]
      omega

/-! ### The partition -/

section
variable {q : MemoryQueue} {since : Option String}

/-- The default of the filter never passes. -/
theorem filtered_eq_passes (h : Sound q) :
    q.filtered since = q.order.filter (MemoryQueue.passes q since) := by
  unfold MemoryQueue.filtered MemoryQueue.passes
  cases truthy since with
  | none => simp
  | some s =>
    refine List.filter_congr fun id hid => ?_
    obtain ⟨job, hjob⟩ := Option.isSome_iff_exists.mp (h.stored id hid)
    simp [hjob]

/-- A page has all the jobs whose ids it cuts out. -/
theorem getJobs_eq (h : Sound q) (k : Number) (m : ℕ) :
    q.getJobs k (offsetOf k m) since =
      (page ((offsetOf k m).clampIndex (q.filtered since).length)
        ((offsetOf k (m + 1)).clampIndex (q.filtered since).length -
          (offsetOf k m).clampIndex (q.filtered since).length) (q.filtered since)).map .stored := by
  have hget : ∀ l : List String, l ⊆ q.order → l.filterMap q.getJob = l.map .stored := by
    intro l hl
    induction l with
    | nil => rfl
    | cons id l ih =>
      obtain ⟨job, hjob⟩ := Option.isSome_iff_exists.mp (h.stored id (hl List.mem_cons_self))
      have hid : q.getJob id = some (.stored id) := by simp [MemoryQueue.getJob, hjob]
      rw [List.filterMap_cons_some hid, ih (List.subset_of_cons_subset hl), List.map_cons]
  have hsub : q.filtered since ⊆ q.order := by
    rw [filtered_eq_passes h]
    exact List.filter_subset_self _
  exact hget _ (List.Subset.trans (page_sublist _ _ _).subset hsub)

theorem exists_partition (h : Sound q) (hlen : q.order.length < 2 ^ 32) {k : Number}
    (hk : PageSize k) (since : Option String) : ∃ n, Partitioned q k since n := by
  have hfiltered : (q.filtered since).length < 2 ^ 32 := by
    rw [filtered_eq_passes h]
    exact (List.length_filter_le _ _).trans_lt hlen
  have hfirst : (offsetOf k 0).clampIndex (q.filtered since).length = 0 := by
    simp [offsetOf, Number.clampIndex]
  obtain ⟨n, hbefore, hlast, hconcat⟩ := @exists_pages _
    (fun m => (offsetOf k m).clampIndex (q.filtered since).length) (q.filtered since) hfirst
    (fun m => (cuts_advance hk hfiltered m).2.1) (fun m => (cuts_advance hk hfiltered m).1)
    fun m => (cuts_advance hk hfiltered m).2.2
  have hflat : ((List.range n).flatMap fun m => q.getJobs k (offsetOf k m) since) =
      (q.filtered since).map .stored := by
    simp only [getJobs_eq h, ← List.map_flatMap, hconcat]
  refine ⟨n, fun m hm => ?_, ?_, ?_, h.nodup.filter _, fun id hid => ?_, ?_⟩
  · rw [getJobs_eq h, Ne, List.map_eq_nil_iff]
    exact hbefore m hm
  · rw [getJobs_eq h, List.map_eq_nil_iff]
    exact hlast
  · rw [hflat, filtered_eq_passes h]
  · exact Option.isSome_iff_exists.mp (h.stored id hid)
  · rw [hflat, List.length_map, MemoryQueue.getJobCount]

end

/-- **In-memory pagination partitions the queue**, in every state that its methods lead to, for every
page size from 1 on and every filter. -/
theorem pages_partition (q : MemoryQueue) (hq : Reached q) (k : Number) (hk : PageSize k)
    (since : Option String) : ∃ n, Partitioned q k since n :=
  exists_partition hq.sound hq.length_lt hk since

/-- A job that is named by the time of its creation. -/
def jobOf (year : String) : Job := newJob year ⟨"", [], none, none, none, none⟩ year

/-- A queue of four jobs, the second of which has been updated. -/
def fourJobs : MemoryQueue :=
  (((((MemoryQueue.empty.enqueue (jobOf "2023")).enqueue (jobOf "2024")).enqueue
    (jobOf "2025")).enqueue (jobOf "2026")).updateJob "2024" { status := some .running } "2027").2

/-- Three of the four are from 2024 on, on two pages of two. -/
theorem pages_partition_run : (fourJobs.getJobCount (some "2024") = 3) ∧
    ∃ n, Partitioned fourJobs (.fin 2) (some "2024") n :=
  ⟨by decide +kernel, pages_partition fourJobs
    (.updateJob (.enqueue (.enqueue (.enqueue (.enqueue .new (by decide) (by decide)) (by decide)
      (by decide)) (by decide) (by decide)) (by decide) (by decide)))
    (.fin 2) ⟨2, by decide, rfl⟩ (some "2024")⟩

/-- In every state of a process too. -/
theorem process_partition {c : Config (apiSystem .memory)} (hc : Reachable .memory c)
    (hlen : c.world.state.mem.order.length < 2 ^ 32) {k : Number} (hk : PageSize k)
    (since : Option String) : ∃ n, Partitioned c.world.state.mem k since n :=
  exists_partition (sound_of_reachable hc) hlen hk since

end CodeHive.Api.MemoryPages
