import CodeHive.Api.Paging
import CodeHive.Api.Runs
import CodeHive.Js.Timestamps

/-! # Pages on Redis, the newest first

`getJobs` on Redis cuts a page out of the ids before it filters the records. This is the page of the
filtered records because the list is in the order of their creation, so that a filter keeps a
prefix: jobs are pushed at the one end with the time of the clock and popped at the other, and what
the updates do to a record leaves that time alone. -/

namespace CodeHive.Api.NewestFirst

set_option autoImplicit false

open CodeHive.Js.Value CodeHive.Js.Indices CodeHive.Js.Timestamps CodeHive.Api.Types CodeHive.Api.Stores
open CodeHive.Api.Messages CodeHive.Api.Program CodeHive.Api.Queue CodeHive.Api.System
open CodeHive.Api.History CodeHive.Api.Handlers CodeHive.Api.Invariant CodeHive.Api.Runs
open CodeHive.Api.Alone CodeHive.Api.SameStore CodeHive.Api.Listing CodeHive.Api.Paging
open CodeHive.Lists.Pages CodeHive.Concurrency.Calls CodeHive.Concurrency.Pool
open CodeHive.Concurrency.Solo

/-- The job is from `since` on. -/
def fromSince (since : Option String) (job : Job) : Bool :=
  since.all fun s => decide (s ≤ job.createdAt)

/-- **The queued jobs from `since` on**, the newest first. -/
def queuedSince (s : Store) (since : Option String) : List Job :=
  ((pending .redis s).reverse.filterMap (lookup .redis s)).filter (fromSince since)

/-- The records of two ids are in the order of their creation. -/
def CreatedInOrder (s : Store) (i j : String) : Prop :=
  ∀ job job', lookup .redis s i = some job → lookup .redis s j = some job' →
    job.createdAt ≤ job'.createdAt

/-- **The list is in order**, and every id has its record. -/
structure Ordered (s : Store) : Prop where
  sorted : (pending .redis s).Pairwise (CreatedInOrder s)
  stored : ∀ i ∈ pending .redis s, ∃ job, lookup .redis s i = some job

/-- Redis accepts the indices of the first and the last element of a page. -/
def Accepted (limit offset : Number) : Prop :=
  ∃ first last : ℤ, Redis.index? offset = some first ∧
    Redis.index? ((offset.add limit).sub (.fin 1)) = some last

/-- **What `getJobs` and `getJobCount` return**: pages of the queued jobs from `since` on, and their
number; a page whose indices Redis does not accept is refused. -/
structure Sliced (s : Store) (env : Op → Input) (since : Option String) : Prop where
  /-- Natural bounds: the page. -/
  page : ∀ o n : ℕ, 1 ≤ n → o + n ≤ 2 ^ 53 →
    Settles (M := machine) env (getJobs .redis (.fin n) (.fin o) since) s
      (.ok ((page o n (queuedSince s since)).map .parsed)) s
  /-- All others: where the end of the slice is rounded up, it is cut again. -/
  accepted : ∀ limit offset, AtLeast 1 limit → AtLeast 0 offset → Accepted limit offset →
    Settles (M := machine) env (getJobs .redis limit offset since) s
      (.ok ((slice (slice (queuedSince s since) offset (offset.add limit)) (.fin 0) limit).map
        .parsed)) s
  refused : ∀ limit offset, AtLeast 1 limit → AtLeast 0 offset → ¬ Accepted limit offset →
    Settles (M := machine) env (getJobs .redis limit offset since) s
      (.error (.error "ERR value is not an integer or out of range")) s
  count : Settles (M := machine) env (getJobCount .redis since) s
    (.ok (queuedSince s since).length) s

section
variable {s : Store} {since : Option String} {env : Op → Input}

/-! ### One state -/

theorem empty_le (t : String) : "" ≤ t := by
  refine not_lt.mp fun h => ?_
  rw [String.lt_iff_toList_lt] at h
  exact List.not_lt_nil _ h

/-- An empty `since` keeps all jobs, as none does. -/
theorem sinceFilter_eq (since : Option String) (jobs : List Job) :
    sinceFilter since jobs = jobs.filter (fromSince since) := by
  unfold sinceFilter fromSince
  cases since with
  | none => simp [truthy]
  | some t =>
    by_cases ht : t = ""
    · subst ht
      have htruthy : truthy (some "") = none := rfl
      rw [htruthy]
      simp [empty_le]
    · have htruthy : truthy (some t) = some t := by simp [truthy, ht]
      rw [htruthy]
      rfl

/-- What a filter keeps of an ordered list is a prefix. -/
theorem Ordered.keeps_front (h : Ordered s) (since : Option String) :
    ((pending .redis s).reverse.filterMap (lookup .redis s)).Pairwise
      fun job job' => fromSince since job' = true → fromSince since job = true := by
  rw [List.pairwise_filterMap, List.pairwise_reverse]
  refine h.sorted.imp fun {i j} hij job hjob job' hjob' hfrom => ?_
  have hle : job'.createdAt ≤ job.createdAt := hij job' job hjob' hjob
  cases since with
  | none => rfl
  | some t =>
    simp only [fromSince, Option.all_some, decide_eq_true_eq] at hfrom ⊢
    exact hfrom.trans hle

theorem settles_accepted (h : Ordered s) (hlen : (pending .redis s).length < 2 ^ 32)
    {limit offset : Number} (hlimit : AtLeast 1 limit) (hoffset : AtLeast 0 offset)
    (hacc : Accepted limit offset) :
    Settles (M := machine) env (getJobs .redis limit offset since) s
      (.ok ((slice (slice (queuedSince s since) offset (offset.add limit)) (.fin 0) limit).map
        .parsed)) s := by
  obtain ⟨first, last, hfirst, hlast⟩ := hacc
  obtain ⟨o, y, t, rfl, rfl, rfl, -, hsum, hends⟩ := exists_bounds hlimit hoffset hfirst hlast
  have hpage := settles_getJobs_page hlen env since hfirst hlast hends
  have hstored : ∀ i ∈ (pending .redis s).reverse, ∃ job, lookup .redis s i = some job :=
    fun i hi => h.stored i (List.mem_reverse.mp hi)
  rw [hsum, slice_ends _ o hends]
  rwa [sinceFilter_eq, filterMap_page hstored, filter_page (h.keeps_front since)] at hpage

/-- Natural bounds are accepted, and there is nothing left to cut. -/
theorem settles_page (h : Ordered s) (hlen : (pending .redis s).length < 2 ^ 32) {o n : ℕ}
    (hn : 1 ≤ n) (hon : o + n ≤ 2 ^ 53) :
    Settles (M := machine) env (getJobs .redis (.fin n) (.fin o) since) s
      (.ok ((page o n (queuedSince s since)).map .parsed)) s := by
  have hlimit : AtLeast 1 (.fin n) := by simpa [AtLeast] using hn
  have hoffset : AtLeast 0 (.fin o) := by simp [AtLeast]
  obtain ⟨hfirst, hlast⟩ := index?_bounds hn hon
  have hpage := @settles_accepted s since env h hlen _ _ hlimit hoffset ⟨_, _, hfirst, hlast⟩
  have hshort : (page o n (queuedSince s since)).length ≤ n := by
    rw [length_page]
    exact Nat.min_le_left _ _
  have hcut : slice (page o n (queuedSince s since)) (.fin 0) (.fin n) =
      page o n (queuedSince s since) := by
    rw [slice_zero _ (Nat.cast_nonneg n), Nat.floor_natCast, List.take_of_length_le hshort]
  rwa [slice_page _ hon, hcut] at hpage

theorem settles_count (h : Ordered s) (env : Op → Input) (since : Option String) :
    Settles (M := machine) env (getJobCount .redis since) s
      (.ok (queuedSince s since).length) s := by
  unfold queuedSince
  rw [← sinceFilter_eq, List.filterMap_reverse]
  by_cases ht : ∃ t, since = some t ∧ t ≠ ""
  · obtain ⟨t, rfl, hne⟩ := ht
    have htruthy : truthy (some t) = some t := by simp [truthy, hne]
    simp only [sinceFilter, htruthy, List.filter_reverse, List.length_reverse]
    exact settles_getJobCount_since .redis hne
  · have htruthy : truthy since = none := by
      cases since with
      | none => rfl
      | some t => simpa [truthy] using fun hne => ht ⟨t, rfl, hne⟩
    have hlength : ((pending .redis s).filterMap (lookup .redis s)).length =
        (pending .redis s).length := by
      rw [List.length_filterMap_eq_countP, List.countP_eq_length]
      exact fun i hi => Option.isSome_iff_exists.mpr (h.stored i hi)
    simp only [sinceFilter, htruthy, List.length_reverse, hlength]
    rw [getJobCount_of_falsy htruthy]
    exact settles_getJobCount .redis

theorem sliced_of_ordered (h : Ordered s) (hlen : (pending .redis s).length < 2 ^ 32)
    (env : Op → Input) (since : Option String) : Sliced s env since where
  page _ _ := settles_page h hlen
  accepted _ _ := settles_accepted h hlen
  refused _ _ _ _ hnot := settles_getJobs_redis_error env s since
    fun first last hfirst hlast => hnot ⟨first, last, hfirst, hlast⟩
  count := settles_count h env since

end

/-! ### Sequences of calls -/

/-- No update names another time of creation. -/
def KeepsTimes (calls : List Step) : Prop :=
  ∀ x ∈ calls, ∀ i u, x.1 = .updateJob i u → u.createdAt = none

/-- **The clock**: it never goes backwards, and its years have four digits. -/
structure Clocked (now : ℤ) (calls : List Step) : Prop where
  since : ∀ x ∈ calls, now ≤ x.2.ms
  forward : calls.Pairwise fun x y => x.2.ms ≤ y.2.ms
  years : ∀ x ∈ calls, FourDigitYear x.2.ms

/-- **The queue is in the order of the clock**, whose time is `now`; `time` says when a job was
created. -/
structure Dated (q : JobQueue) (now : ℤ) (time : String → ℤ) : Prop where
  sorted : q.fifo.Pairwise fun i j => time i ≤ time j
  created : ∀ i ∈ q.fifo, time i ≤ now ∧ FourDigitYear (time i) ∧
    ∃ job, q.jobs i = some job ∧ job.createdAt = toISOString (time i)

section
variable {q : JobQueue} {now : ℤ} {time : String → ℤ}

theorem Dated.later (h : Dated q now time) {now' : ℤ} (hnow : now ≤ now') : Dated q now' time :=
  ⟨h.sorted, fun i hi => ⟨(h.created i hi).1.trans hnow, (h.created i hi).2⟩⟩

theorem Dated.dequeue (h : Dated q now time) {i : String} {rest : List String}
    (hq : q.fifo = i :: rest) : Dated { q with fifo := rest } now time := by
  have hsub : rest.Sublist q.fifo := hq ▸ List.sublist_cons_self i rest
  exact ⟨h.sorted.sublist hsub, fun j hj => h.created j (hsub.subset hj)⟩

/-- A job is pushed with the time of the clock. -/
theorem Dated.enqueue (h : Dated q now time) {i : String} (hi : i ∉ q.fifo)
    (hyear : FourDigitYear now) (request : ExecutionRequest) :
    Dated { q.put i (newJob i request (toISOString now)) with fifo := q.fifo ++ [i] } now
      (Function.update time i now) where
  sorted := by
    have hother : ∀ j ∈ q.fifo, Function.update time i now j = time j := fun j hj =>
      Function.update_of_ne (fun heq : j = i => hi (heq ▸ hj)) _ _
    refine List.pairwise_append.mpr ⟨?_, List.pairwise_singleton _ _, fun j hj k hk => ?_⟩
    · refine h.sorted.imp_of_mem fun {j k} hj hk hle => ?_
      rw [hother j hj, hother k hk]
      exact hle
    · rw [List.mem_singleton.mp hk, hother j hj, Function.update_self]
      exact (h.created j hj).1
  created j hj := by
    by_cases hji : j = i
    · subst hji
      rw [Function.update_self]
      exact ⟨le_refl _, hyear, newJob j request (toISOString now), by simp [JobQueue.put], rfl⟩
    · have hj : j ∈ q.fifo := by simpa [hji] using hj
      rw [Function.update_of_ne hji]
      obtain ⟨hle, hyear, job, hjob, hcreated⟩ := h.created j hj
      exact ⟨hle, hyear, job, by simp [JobQueue.put, hji, hjob], hcreated⟩

/-- An update leaves the time of creation alone. -/
theorem Dated.update (h : Dated q now time) {i : String} {u : PartialJob}
    (hu : u.createdAt = none) (stamp : String) : Dated (q.update i u stamp).2 now time := by
  unfold JobQueue.update
  cases hi : q.jobs i with
  | none => exact h
  | some old =>
    refine ⟨h.sorted, fun j hj => ?_⟩
    obtain ⟨hle, hyear, job, hjob, hcreated⟩ := h.created j hj
    refine ⟨hle, hyear, ?_⟩
    by_cases hji : j = i
    · subst hji
      obtain rfl : old = job := Option.some.inj (hi.symm.trans hjob)
      refine ⟨old.update u stamp, by simp [JobQueue.put], ?_⟩
      rw [update_createdAt, hu]
      exact hcreated
    · exact ⟨job, by simp [JobQueue.put, hji, hjob], hcreated⟩

/-- **One call** keeps the queue in the order of the clock. -/
theorem Dated.serve (h : Dated q now time) {x : Step} (hnow : now ≤ x.2.ms)
    (hyear : FourDigitYear x.2.ms) (hkeeps : ∀ i u, x.1 = .updateJob i u → u.createdAt = none)
    (hfresh : (q.fifo ++ given [x]).Nodup) : ∃ time', Dated (q.serve x).2 x.2.ms time' := by
  have hlater := h.later hnow
  obtain ⟨call, inp⟩ := x
  cases call with
  | enqueue request =>
    have hi : inp.uuid ∉ q.fifo := fun hmem =>
      (List.nodup_append.mp hfresh).2.2 _ hmem _ List.mem_cons_self rfl
    exact ⟨_, hlater.enqueue hi hyear request⟩
  | dequeue =>
    refine ⟨time, ?_⟩
    cases hq : q.fifo with
    | nil => simpa [JobQueue.serve, hq] using hlater
    | cons i rest => simpa [JobQueue.serve, hq] using hlater.dequeue hq
  | getJob i => exact ⟨time, hlater⟩
  | updateJob i u => exact ⟨time, hlater.update (hkeeps i u rfl) _⟩
  | updateResult i r => exact ⟨time, hlater.update rfl _⟩
  | executeJob jobId language code stdin timeoutSec => exact ⟨time, hlater⟩

/-- **A sequence of calls** keeps the queue in the order of the clock. -/
theorem Dated.trace {calls : List Step} (h : Dated q now time) (hclock : Clocked now calls)
    (hkeeps : KeepsTimes calls) (hfresh : (q.fifo ++ given calls).Nodup) :
    ∃ now' time', Dated (trace JobQueue.serve calls q).2 now' time' := by
  induction calls generalizing q now time with
  | nil => exact ⟨now, time, h⟩
  | cons x calls ih =>
    have hx : x ∈ x :: calls := List.mem_cons_self
    have hgiven : given (x :: calls) = given [x] ++ given calls :=
      @List.filterMap_append _ _ [x] calls _
    rw [hgiven, ← List.append_assoc] at hfresh
    obtain ⟨time', h'⟩ := h.serve (hclock.since x hx) (hclock.years x hx) (hkeeps x hx)
      (List.nodup_append.mp hfresh).1
    obtain ⟨hfirst, hforward⟩ := List.pairwise_cons.mp hclock.forward
    have hrest : Clocked x.2.ms calls :=
      ⟨hfirst, hforward, fun y hy => hclock.years y (List.mem_cons_of_mem _ hy)⟩
    refine ih h' hrest (fun y hy => hkeeps y (List.mem_cons_of_mem _ hy)) ?_
    have hsub : (q.serve x).2.fifo.Sublist (q.fifo ++ given [x]) := fifo_sublist [x] q
    exact (hsub.append_right _).nodup hfresh

/-- The list of Redis is in the order of the timestamps. -/
theorem Dated.ordered (h : Dated q now time) {before : List Step} {s : Store}
    (hs : Represents .redis before s q) : Ordered s where
  sorted := by
    rw [hs.fifo]
    refine h.sorted.imp_of_mem fun {i j} hi hj hle job job' hjob hjob' => ?_
    obtain ⟨-, hyear, old, hold, hcreated⟩ := h.created i hi
    obtain ⟨-, hyear', old', hold', hcreated'⟩ := h.created j hj
    rw [hs.jobs, hold, Option.some.injEq] at hjob
    rw [hs.jobs, hold', Option.some.injEq] at hjob'
    rw [← hjob, ← hjob', hcreated, hcreated']
    exact toISOString_le hle hyear hyear'
  stored i hi := by
    rw [hs.fifo] at hi
    obtain ⟨-, job, hjob⟩ := hs.stored i hi
    exact ⟨job, (hs.jobs i).trans hjob⟩

end

/-- **Slicing before filtering is sound on Redis**, after every sequence of calls of the queue
service on a clock that does not go backwards, whose updates leave the time of creation alone. A list
of Redis has fewer than `2 ^ 32` elements. -/
theorem redis_slices (calls : List Step) (hc : Admitted calls)
    (hclock : calls.Pairwise fun x y => x.2.ms ≤ y.2.ms)
    (hyears : ∀ x ∈ calls, FourDigitYear x.2.ms) (hkeeps : KeepsTimes calls)
    (hlen : (trace JobQueue.serve calls .empty).2.fifo.length < 2 ^ 32) : ∃ outs s,
    session (serve .redis) calls Store.empty = some (outs, s) ∧
    ∀ env since, Sliced s env since := by
  obtain ⟨s, hs, hq⟩ := session_represents .redis hc
  have hnow : ∃ now, ∀ x ∈ calls, now ≤ x.2.ms := by
    cases calls with
    | nil => exact ⟨0, fun x hx => by cases hx⟩
    | cons x calls =>
      refine ⟨x.2.ms, fun y hy => ?_⟩
      rcases List.mem_cons.mp hy with rfl | hy
      · exact le_refl _
      · exact (List.pairwise_cons.mp hclock).1 y hy
  obtain ⟨now, hnow⟩ := hnow
  have hempty : Dated .empty now fun _ => now := ⟨List.Pairwise.nil, fun i hi => by cases hi⟩
  obtain ⟨now', time, hdated⟩ := hempty.trace ⟨hnow, hclock, hyears⟩ hkeeps hc.fresh
  exact ⟨_, s, hs, sliced_of_ordered (hdated.ordered hq) (hq.fifo ▸ hlen)⟩

/-- Two jobs are enqueued, the first is updated and taken off the queue. -/
def clockedCalls : List Step :=
  [(.enqueue ⟨"", [], none, none, none, none⟩, { uuid := "a" }),
    (.enqueue ⟨"", [], none, none, none, none⟩, { uuid := "b", ms := 1 }),
    (.updateJob "a" { status := some .running }, { ms := 2 }), (.dequeue, { ms := 2 })]

theorem redis_slices_run : ∃ outs s,
    session (serve .redis) clockedCalls Store.empty = some (outs, s) ∧
    ∀ env since, Sliced s env since :=
  redis_slices clockedCalls ⟨by simp [clockedCalls, OfQueue], by decide, by decide⟩
    (by simp [clockedCalls]) (by decide +kernel) (by simp [KeepsTimes, clockedCalls]) (by decide)

/-! ### Where slicing first is wrong -/

/-- Two jobs are enqueued, and the creation of the second is set back. -/
def redatedCalls : List Step :=
  [(.enqueue ⟨"", [], none, none, none, none⟩, { uuid := "a" }),
    (.enqueue ⟨"", [], none, none, none, none⟩, { uuid := "b" }),
    (.updateJob "b" { createdAt := some "1969" }, {})]

/-- **Slicing before filtering is not sound** for a page beyond the numbers of Redis, nor after an
update of the time of creation. -/
theorem slices_fail :
    (¬ ∀ calls, Admitted calls → calls.Pairwise (fun x y => x.2.ms ≤ y.2.ms) →
      (∀ x ∈ calls, FourDigitYear x.2.ms) → KeepsTimes calls → ∀ outs s,
      session (serve .redis) calls Store.empty = some (outs, s) →
      ∀ env since limit offset, AtLeast 1 limit → AtLeast 0 offset →
        Settles (M := machine) env (getJobs .redis limit offset since) s
          (.ok ((slice (queuedSince s since) offset (offset.add limit)).map .parsed)) s) ∧
    ¬ ∀ calls, Admitted calls → calls.Pairwise (fun x y => x.2.ms ≤ y.2.ms) →
      (∀ x ∈ calls, FourDigitYear x.2.ms) → ∀ outs s,
      session (serve .redis) calls Store.empty = some (outs, s) →
      ∀ env since, ∀ o n : ℕ, 1 ≤ n → o + n ≤ 2 ^ 53 →
        Settles (M := machine) env (getJobs .redis (.fin n) (.fin o) since) s
          (.ok ((page o n (queuedSince s since)).map .parsed)) s := by
  constructor
  · intro h
    have hc : Admitted [] := ⟨by simp, List.nodup_nil, List.not_mem_nil⟩
    have hkeeps : KeepsTimes [] := by simp [KeepsTimes]
    have hlimit : AtLeast 1 (.fin (2 ^ 64)) := by norm_num [AtLeast]
    have hoffset : AtLeast 0 (.fin 0) := by norm_num [AtLeast]
    have hslice := h [] hc List.Pairwise.nil (by simp) hkeeps [] Store.empty rfl
      (fun _ => {}) none (.fin (2 ^ 64)) (.fin 0) hlimit hoffset
    have hordered : Ordered Store.empty := ⟨List.Pairwise.nil, fun i hi => by cases hi⟩
    have hrange : Redis.index? (((Number.fin 0).add (.fin (2 ^ 64))).sub (.fin 1)) = none := by
      decide +kernel
    have hrefused := (sliced_of_ordered hordered (by decide) (fun _ => {}) none).refused _ _
      hlimit hoffset (by
        rintro ⟨first, last, -, hlast⟩
        rw [hrange] at hlast
        cases hlast)
    have hsame := (hslice (fun _ => .done (.settled (.ok ())))
      fun err => .done (.settled (.error err))).symm.trans (hrefused _ _)
    simp [settle] at hsame
  · intro h
    have hc : Admitted redatedCalls :=
      ⟨by simp [redatedCalls, OfQueue], by decide, by decide⟩
    obtain ⟨s, hs, hq⟩ := session_represents .redis hc
    have hpage := h redatedCalls hc (by simp [redatedCalls]) (by decide +kernel) _ s hs
      (fun _ => {}) (some "197") 0 1 (by decide) (by decide)
    obtain ⟨hfirst, hlast⟩ := index?_bounds (o := 0) (n := 1) (by decide) (by decide)
    have hends : Ends 1 0 := ⟨le_refl _, le_refl _, Or.inl (by decide)⟩
    have hlen : (pending .redis s).length < 2 ^ 32 := by rw [hq.fifo]; decide
    have hcode := settles_getJobs_page hlen (fun _ => {}) (some "197") hfirst hlast hends
    have hsame := listJobs_unique (hpage.bind (settles_readAll (holds_parsed _)))
      (hcode.bind (settles_readAll (holds_parsed _)))
    have hjobs : lookup .redis s = (trace JobQueue.serve redatedCalls .empty).2.jobs :=
      funext hq.jobs
    rw [queuedSince, hq.fifo, hjobs] at hsame
    have hids := congrArg (List.map Job.id) hsame
    revert hids
    decide +kernel

/-! ### Processes -/

/-- The jobs were enqueued in the order of the clock. -/
def ClockOrder (log : List Event) : Prop :=
  (enqueues log).Pairwise fun x y => ∃ t t', t ≤ t' ∧ FourDigitYear t ∧ FourDigitYear t' ∧
    x.2.createdAt = toISOString t ∧ y.2.createdAt = toISOString t'

/-- **In every state of a process too**, however its requests interleave: what waits was enqueued in
order, and no request changes the time of creation. -/
theorem process_slices {c : Config (apiSystem .redis)} (hc : Reachable .redis c)
    (h : ClockOrder c.world.log) (hlen : (pending .redis c.world.state).length < 2 ^ 32)
    (env : Op → Input) (since : Option String) : Sliced c.world.state env since := by
  refine sliced_of_ordered ⟨?_, fun i hi => hc.inv.lookup_some (hc.inv.pending_mem hi)⟩ hlen env
    since
  have hids : (ids c.world.log).Pairwise (CreatedInOrder c.world.state) := by
    rw [ids, List.pairwise_map]
    refine h.imp_of_mem fun {x y} hx hy hle job job' hjob hjob' => ?_
    obtain ⟨t, t', hle, ht, ht', hcreated, hcreated'⟩ := hle
    have hkeeps : Keeps x.2 job := hc.inv.keeps hx hjob
    have hkeeps' : Keeps y.2 job' := hc.inv.keeps hy hjob'
    rw [hkeeps.createdAt, hkeeps'.createdAt, hcreated, hcreated']
    exact toISOString_le hle ht ht'
  rw [← hc.inv.fifo] at hids
  exact (List.pairwise_append.mp hids).2.1

end CodeHive.Api.NewestFirst
