import CodeHive.Api.Alone
import CodeHive.Api.Dispatch

/-! # The execution history

`GET /api/executions` and `GET /api/stats` know the jobs by the list of the ids that wait, and a
poll takes ids off it. So the history is complete exactly as long as no poll has been given a job. -/

namespace CodeHive.Api.Listing

set_option autoImplicit false

open CodeHive.Js.Value CodeHive.Api.Types CodeHive.Api.Stores CodeHive.Api.Messages
open CodeHive.Api.Program CodeHive.Api.Queue CodeHive.Api.Routes CodeHive.Api.System
open CodeHive.Api.History CodeHive.Api.Invariant CodeHive.Api.Handlers CodeHive.Api.Runs
open CodeHive.Api.Dispatch CodeHive.Api.Alone CodeHive.Api.ListLogic
open CodeHive.Concurrency.Calls CodeHive.Concurrency.Pool CodeHive.Concurrency.Solo

/-- What request `r` is answered when it is made in state `s` and left alone. -/
def ask (b : Backend) (env : Op → Input) (r : Request) (s : Store) : Option Outcome :=
  (alone (M := machine) env ((handle b r).toThread replied) s).map Prod.fst

/-- The jobs that submissions have enqueued. -/
def accepted (w : World) : List Job := (enqueues w.log).map Prod.snd

/-- How many of them were created at `since` or later. -/
def acceptedSince (w : World) (since : String) : ℕ :=
  ((accepted w).filter fun job => decide (since ≤ job.createdAt)).length

/-- **The history tells of every accepted job.** -/
structure Complete (b : Backend) (w : World) : Prop where
  /-- Every page gives their number. -/
  total : ∀ env limit offset items n,
    ask b env (.executions limit offset) w.state = some (.reply ⟨200, .executions items n⟩) →
    n = (accepted w).length
  /-- Each of them is in some page. -/
  listed : ∀ env, ∀ job ∈ accepted w, ∃ limit offset items n,
    ask b env (.executions limit offset) w.state = some (.reply ⟨200, .executions items n⟩) ∧
    ∃ item ∈ items, item.id = job.id
  /-- The statistics count those of the last day and of the last week. -/
  stats : ∀ env, ∃ avg rate, ask b env .stats w.state = some (.reply ⟨200, .stats
    (acceptedSince w (toISOString ((env (.host .now)).ms - 86400000)))
    (acceptedSince w (toISOString ((env (.host .now)).ms - 604800000))) 0 avg rate⟩)

/-- `ask` in the pool: the request arrives while no call is running, and is left alone. -/
theorem ask_reaches {b : Backend} {c : Config (apiSystem b)} {env : Op → Input} {r : Request}
    {out : Outcome} (hrun : c.running = none) (h : ask b env r c.world.state = some out) :
    ∃ c', Reaches (AnyStep (apiSystem b)) c c' ∧ c'.running = none ∧
      c'.pool[c.pool.length]? = some (c.fresh (.request r), .done out) := by
  obtain ⟨⟨out', s⟩, hs, rfl⟩ := Option.map_eq_some_iff.mp h
  have hentry : (apiSystem b).entry (.request r) = some ((handle b r).toThread replied) := rfl
  obtain ⟨c', hr, hnone, hdone, -⟩ := alone_arrives hrun hentry hs
  exact ⟨c', hr, hnone, hdone⟩

section
variable {b : Backend} {env : Op → Input} {s : Store}

/-! ### Reading records -/

/-- The caller's object has these fields. -/
def Holds (s : Store) : JobObj → Job → Prop
  | .stored key, job => lookup .memory s key = some job
  | .parsed job', job => job' = job

theorem settles_read {obj : JobObj} {job : Job} (h : Holds s obj job) :
    Settles (M := machine) env (read obj) s (.ok job) s := by
  cases obj with
  | stored key => exact settles_load h
  | parsed job' =>
    obtain rfl : job' = job := h
    exact Settles.pure _ _ _

theorem settles_readAll {objs : List JobObj} {jobs : List Job}
    (h : List.Forall₂ (Holds s) objs jobs) :
    Settles (M := machine) env (readAll objs) s (.ok jobs) s := by
  induction h with
  | nil => exact Settles.pure _ _ _
  | cons hread _ ih => exact (settles_read hread).bind (ih.bind (Settles.pure _ _ _))

/-- The records of some ids, on Redis. -/
theorem settles_getAll (l : List String) :
    Settles (M := machine) env (getAll l) s (.ok (l.filterMap (lookup .redis s))) s := by
  induction l with
  | nil => exact Settles.pure _ _ _
  | cons i l ih =>
    have hcons : (i :: l).filterMap (lookup .redis s) =
        (s.redis.strings (jobKey i)).toList ++ l.filterMap (lookup .redis s) := by
      cases hi : s.redis.strings (jobKey i) <;> simp [lookup, hi]
    rw [hcons]
    exact (settles_redis rfl).await.bind (ih.bind (Settles.pure _ _ _))

/-- The objects that the in-memory queue finds under some ids. -/
theorem holds_getJob (l : List String) :
    List.Forall₂ (Holds s) (l.filterMap s.mem.getJob) (l.filterMap (lookup .memory s)) := by
  induction l with
  | nil => exact .nil
  | cons i l ih =>
    cases hi : s.mem.jobs i with
    | none => simpa [MemoryQueue.getJob, lookup, hi] using ih
    | some job => simpa [MemoryQueue.getJob, lookup, hi, Holds] using ih

theorem holds_parsed (jobs : List Job) : List.Forall₂ (Holds s) (jobs.map .parsed) jobs := by
  induction jobs with
  | nil => exact .nil
  | cons job jobs ih => exact .cons rfl ih

/-! ### The pages -/

theorem settles_getJobs_redis (env : Op → Input) (s : Store) {limit offset : Number}
    (since : Option String) {m n : ℤ}
    (hm : Redis.index? offset = some m)
    (hn : Redis.index? ((offset.add limit).sub (.fin 1)) = some n) :
    Settles (M := machine) env (getJobs .redis limit offset since) s
      (.ok ((slice (sinceFilter since ((Redis.range (s.redis.lists QUEUE_KEY) m n).filterMap
        (lookup .redis s))) (.fin 0) limit).map .parsed)) s := by
  refine (settles_redis (r := .ok _) ?_).await.bind ((settles_getAll _).bind (Settles.pure _ _ _))
  simp only [Redis.exec, hm, hn]

/-- Bounds that the server does not accept. -/
theorem settles_getJobs_redis_error (env : Op → Input) (s : Store) {limit offset : Number}
    (since : Option String) (h : ∀ m n, Redis.index? offset = some m →
      Redis.index? ((offset.add limit).sub (.fin 1)) ≠ some n) :
    Settles (M := machine) env (getJobs .redis limit offset since) s
      (.error (.error "ERR value is not an integer or out of range")) s := by
  have herr : s.redis.exec (.lrange QUEUE_KEY offset ((offset.add limit).sub (.fin 1))) =
      (.error (.error "ERR value is not an integer or out of range"), s.redis) := by
    cases hm : Redis.index? offset with
    | none => simp only [Redis.exec, hm]
    | some m =>
      cases hn : Redis.index? ((offset.add limit).sub (.fin 1)) with
      | none => simp only [Redis.exec, hm, hn]
      | some n => exact absurd hn (h m n hm)
  exact (settles_redis herr).await.bind_error

/-- The records of some ids of the queue. -/
def FromQueue (b : Backend) (s : Store) (jobs : List Job) : Prop :=
  ∀ job ∈ jobs, ∃ i ∈ pending b s, lookup b s i = some job

theorem fromQueue_filterMap {l : List String} (h : ∀ i ∈ l, i ∈ pending b s) :
    FromQueue b s (l.filterMap (lookup b s)) := by
  intro job hjob
  obtain ⟨i, hi, hl⟩ := List.mem_filterMap.mp hjob
  exact ⟨i, h i hi, hl⟩

/-- The number of the ids that wait. -/
theorem settles_getJobCount (b : Backend) :
    Settles (M := machine) env (getJobCount b none) s (.ok (pending b s).length) s := by
  cases b with
  | memory => exact settles_mem rfl
  | redis =>
    rw [pending, List.length_reverse]
    exact (settles_redis (c := .llen QUEUE_KEY) rfl).await

theorem not_le_empty {t : String} (h : t ≠ "") : ¬ t ≤ "" := by
  intro hle
  refine hle ?_
  change [] < t.toList
  cases ht : t.toList with
  | nil => exact absurd (String.toList_eq_nil_iff.mp ht) h
  | cons c cs => exact List.Lex.nil

/-- The number of those whose record is from `since` on. -/
theorem settles_getJobCount_since (b : Backend) {since : String} (hne : since ≠ "") :
    Settles (M := machine) env (getJobCount b (some since)) s (.ok (((pending b s).filterMap
      (lookup b s)).filter fun job => decide (since ≤ job.createdAt)).length) s := by
  have htruthy : truthy (some since) = some since := by simp [truthy, hne]
  cases b with
  | memory =>
    refine settles_mem ?_
    have hcount : ∀ l : List String,
        (l.filter fun i => decide (since ≤ ((s.mem.jobs i).map (·.createdAt)).getD "")).length =
          ((l.filterMap (lookup .memory s)).filter fun job =>
            decide (since ≤ job.createdAt)).length := by
      intro l
      induction l with
      | nil => rfl
      | cons i l ih =>
        cases hi : s.mem.jobs i with
        | none => simpa [lookup, hi, not_le_empty hne] using ih
        | some job => by_cases hle : since ≤ job.createdAt <;> simpa [lookup, hi, hle] using ih
    simp only [MemCall.exec, MemoryQueue.getJobCount, MemoryQueue.filtered, htruthy, hcount]
    rfl
  | redis =>
    have hzero : Redis.index? (.fin 0) = some 0 := by decide
    have hlast : Redis.index? (.fin (-1)) = some (-1) := by decide
    have hlist : s.redis.exec (.lrange QUEUE_KEY (.fin 0) (.fin (-1))) =
        (.ok (s.redis.lists QUEUE_KEY), s.redis) := by
      simp only [Redis.exec, hzero, hlast, Redis.range_zero_neg_one]
    have hread : Settles (M := machine) env (do
        let ids ← await (redis (.lrange QUEUE_KEY (.fin 0) (.fin (-1))))
        let jobs ← getAll ids
        return (sinceFilter (some since) jobs).length) s _ s :=
      (settles_redis hlist).await.bind ((settles_getAll _).bind (Settles.pure _ _ _))
    simp only [sinceFilter, htruthy] at hread
    simp only [getJobCount, htruthy, sinceFilter, pending, List.filterMap_reverse,
      List.filter_reverse, List.length_reverse]
    exact hread

/-! ### The answers -/

theorem ask_executions {limit offset : Number} {objs : List JobObj} {items : List Job}
    (hobjs : Settles (M := machine) env (getJobs b ((limit.or (.fin 50)).min (.fin 200))
      (offset.or (.fin 0)) none) s (.ok objs) s) (hread : List.Forall₂ (Holds s) objs items) :
    ask b env (.executions limit offset) s =
      some (.reply ⟨200, .executions items (pending b s).length⟩) := by
  have hboth : Settles (M := machine) env (do
      let items ← getJobs b ((limit.or (.fin 50)).min (.fin 200)) (offset.or (.fin 0)) none
      let total ← getJobCount b none
      return (items, total)) s (.ok (objs, (pending b s).length)) s :=
    hobjs.bind ((settles_getJobCount b).bind (Settles.pure _ _ _))
  have hsend : Settles (M := machine) env (do
      send 200 (.executions (← readAll objs) (pending b s).length)) s
      (.ok ⟨200, .executions items (pending b s).length⟩) s :=
    (settles_readAll hread).bind (Settles.pure _ _ _)
  have h : Settles (M := machine) env (getExecutions b limit offset) s
      (.ok ⟨200, .executions items (pending b s).length⟩) s := (hboth.await.bind hsend).tryCatch
  rw [ask, handle, h.toThread]
  rfl

theorem ask_executions_error {limit offset : Number} {message : String}
    (h : Settles (M := machine) env (getJobs b ((limit.or (.fin 50)).min (.fin 200))
      (offset.or (.fin 0)) none) s (.error (.error message)) s) :
    ask b env (.executions limit offset) s = some (.reply (sendError (.error message))) := by
  have h : Settles (M := machine) env (getExecutions b limit offset) s
      (.ok (sendError (.error message))) s :=
    (h.bind_error.await.bind_error).tryCatch_error (Settles.pure _ _ _)
  rw [ask, handle, h.toThread]
  rfl

/-- The jobs on a page; there are none where the server does not accept its bounds. -/
def pageOf (b : Backend) (s : Store) (limit offset : Number) : Option (List Job) :=
  match b with
  | .memory => some ((slice s.mem.order offset (offset.add limit)).filterMap (lookup .memory s))
  | .redis => do
    let m ← Redis.index? offset
    let k ← Redis.index? ((offset.add limit).sub (.fin 1))
    return slice ((Redis.range (s.redis.lists QUEUE_KEY) m k).filterMap (lookup .redis s)) (.fin 0)
      limit

/-- **The answer** to a request for a page. -/
theorem ask_pageOf (b : Backend) (env : Op → Input) (s : Store) (limit offset : Number) :
    ask b env (.executions limit offset) s = some (.reply
      (match pageOf b s ((limit.or (.fin 50)).min (.fin 200)) (offset.or (.fin 0)) with
      | some items => ⟨200, .executions items (pending b s).length⟩
      | none => sendError (.error "ERR value is not an integer or out of range"))) := by
  cases b with
  | memory => exact ask_executions (settles_mem rfl) (holds_getJob _)
  | redis =>
    cases hm : Redis.index? (offset.or (.fin 0)) with
    | none =>
      simp only [pageOf, hm, Option.bind_eq_bind, Option.bind_none]
      refine ask_executions_error (settles_getJobs_redis_error env s none fun m k hm' _ => ?_)
      cases hm.symm.trans hm'
    | some m =>
      cases hk : Redis.index? (((offset.or (.fin 0)).add
          ((limit.or (.fin 50)).min (.fin 200))).sub (.fin 1)) with
      | none =>
        simp only [pageOf, hm, hk, Option.bind_eq_bind, Option.bind_some, Option.bind_none]
        refine ask_executions_error (settles_getJobs_redis_error env s none fun m k _ hk' => ?_)
        cases hk.symm.trans hk'
      | some k =>
        simp only [pageOf, hm, hk, Option.bind_eq_bind, Option.bind_some]
        exact ask_executions (settles_getJobs_redis env s none hm hk) (holds_parsed _)

theorem fromQueue_pageOf {limit offset : Number} {items : List Job}
    (h : pageOf b s limit offset = some items) : FromQueue b s items := by
  cases b with
  | memory =>
    obtain rfl := Option.some.inj h
    exact fromQueue_filterMap fun i hi => mem_of_mem_slice hi
  | redis =>
    obtain ⟨m, -, h⟩ := Option.bind_eq_some_iff.mp h
    obtain ⟨k, -, h⟩ := Option.bind_eq_some_iff.mp h
    obtain rfl := Option.some.inj h
    refine fun job hjob => fromQueue_filterMap (fun i hi => ?_) job (mem_of_mem_slice hjob)
    have hmem : i ∈ s.redis.lists QUEUE_KEY := List.mem_of_mem_drop (List.mem_of_mem_take hi)
    exact List.mem_reverse.mpr hmem

/-- **What a page says**: the number of the ids that wait, and the records of some of them. -/
theorem page_of_ask {limit offset : Number} {items : List Job} {n : ℕ}
    (h : ask b env (.executions limit offset) s = some (.reply ⟨200, .executions items n⟩)) :
    n = (pending b s).length ∧ FromQueue b s items := by
  rw [ask_pageOf] at h
  cases hpage : pageOf b s ((limit.or (.fin 50)).min (.fin 200)) (offset.or (.fin 0)) with
  | none => simp [hpage, sendError] at h
  | some jobs =>
    simp only [hpage, Option.some.injEq, Outcome.reply.injEq, Reply.mk.injEq,
      Body.executions.injEq] at h
    obtain ⟨-, rfl, rfl⟩ := h
    exact ⟨rfl, fromQueue_pageOf hpage⟩

/-! ### Single pages -/

/-- A first page whose last index is accepted. -/
theorem settles_firstPage (b : Backend) (env : Op → Input) (s : Store) {limit : Number} {m : ℤ}
    (hlast : Redis.index? (((Number.fin 0).add limit).sub (.fin 1)) = some m)
    (since : Option String) :
    ∃ objs jobs, Settles (M := machine) env (getJobs b limit (.fin 0) since) s (.ok objs) s ∧
      List.Forall₂ (Holds s) objs jobs := by
  cases b with
  | memory => exact ⟨_, _, settles_mem rfl, holds_getJob _⟩
  | redis => exact ⟨_, _, settles_getJobs_redis _ _ _ (m := 0) (by decide) hlast, holds_parsed _⟩

theorem exists_total (b : Backend) (env : Op → Input) (s : Store) : ∃ items,
    ask b env (.executions (.fin 50) (.fin 0)) s =
      some (.reply ⟨200, .executions items (pending b s).length⟩) := by
  have hlimit : ((Number.fin 50).or (.fin 50)).min (.fin 200) = .fin 50 := by decide +kernel
  have hlast : Redis.index? (((Number.fin 0).add (.fin 50)).sub (.fin 1)) = some 49 := by
    decide +kernel
  obtain ⟨objs, items, hobjs, hread⟩ := settles_firstPage b env s hlast none
  exact ⟨items, ask_executions (by rw [hlimit]; exact hobjs) hread⟩

theorem or_natCast (n : ℕ) : (Number.fin n).or (.fin 0) = .fin n := by
  by_cases hn : n = 0 <;> simp [Number.or, hn]

theorem index?_natCast {n : ℕ} (hn : n < 2 ^ 32) : Redis.index? (.fin n) = some n := by
  have h₀ : -9223372036854775808 < (n : ℤ) := by omega
  have h₁ : (n : ℤ) < 9223372036854775808 := by omega
  simp [Redis.index?, h₀, h₁]

theorem slice_one {α : Type} {l : List α} {n : ℕ} (hlt : n < 2 ^ 32) {x : α}
    (hn : l[n]? = some x) : slice l (.fin n) ((Number.fin n).add (.fin 1)) = [x] := by
  have hadd : (Number.fin n).add (.fin (1 : ℕ)) = .fin (n + 1 : ℕ) :=
    Number.add_natCast (by omega)
  rw [Nat.cast_one] at hadd
  obtain ⟨hlt, rfl⟩ := List.getElem?_eq_some_iff.mp hn
  have h₁ : Nat.min n l.length = n := Nat.min_eq_left (by omega)
  have h₂ : Nat.min (n + 1) l.length = n + 1 := Nat.min_eq_left (by omega)
  rw [slice, hadd, Number.clampIndex_natCast, Number.clampIndex_natCast, h₁, h₂,
    Nat.add_sub_cancel_left, List.take_one, List.head?_drop, hn]
  rfl

theorem range_one {l : List String} {n : ℕ} {x : String} (hn : l[n]? = some x) :
    Redis.range l n n = [x] := by
  obtain ⟨hlt, rfl⟩ := List.getElem?_eq_some_iff.mp hn
  have h₀ : ¬ (n : ℤ) < 0 := by omega
  have h₁ : max (n : ℤ) 0 = n := by omega
  have h₂ : min (n : ℤ) (l.length - 1) = n := by omega
  have h₃ : ((n : ℤ) - n + 1).toNat = 1 := by omega
  simp only [Redis.range, if_neg h₀, h₁, h₂, h₃, Int.toNat_natCast, List.take_one, List.head?_drop,
    hn]
  rfl

/-- The ids that wait, in the order of the pages. -/
def listing (b : Backend) (s : Store) : List String :=
  match b with
  | .memory => s.mem.order
  | .redis => s.redis.lists QUEUE_KEY

theorem mem_listing {i : String} : i ∈ listing b s ↔ i ∈ pending b s := by
  cases b with
  | memory => exact Iff.rfl
  | redis =>
    rw [pending, List.mem_reverse]
    rfl

theorem length_listing : (listing b s).length = (pending b s).length := by
  cases b with
  | memory => rfl
  | redis =>
    rw [pending, List.length_reverse]
    rfl

/-- The page of one id. -/
theorem ask_page (env : Op → Input) {n : ℕ} (hlen : n < 2 ^ 32) {i : String}
    {job : Job} (hn : (listing b s)[n]? = some i) (hl : lookup b s i = some job) :
    ask b env (.executions (.fin 1) (.fin n)) s =
      some (.reply ⟨200, .executions [job] (pending b s).length⟩) := by
  suffices h : ∃ objs, Settles (M := machine) env (getJobs b (.fin 1) (.fin n) none) s
      (.ok objs) s ∧ List.Forall₂ (Holds s) objs [job] by
    obtain ⟨objs, hobjs, hread⟩ := h
    refine ask_executions ?_ hread
    have hlimit : ((Number.fin 1).or (.fin 50)).min (.fin 200) = .fin 1 := by decide
    rw [hlimit, or_natCast]
    exact hobjs
  cases b with
  | memory =>
    have hl' : s.mem.jobs i = some job := hl
    have hone : slice s.mem.order (.fin n) ((Number.fin n).add (.fin 1)) = [i] :=
      slice_one hlen hn
    have hpage : s.mem.getJobs (.fin 1) (.fin n) none = [.stored i] := by
      change (slice s.mem.order _ _).filterMap _ = _
      rw [hone]
      simp [MemoryQueue.getJob, hl']
    exact ⟨[.stored i], settles_mem (congrArg (fun l => some (l, s)) hpage), .cons hl .nil⟩
  | redis =>
    have hn' : (s.redis.lists QUEUE_KEY)[n]? = some i := hn
    have hm : Redis.index? (.fin n) = some n := index?_natCast hlen
    have hadd : (Number.fin n).add (.fin (1 : ℕ)) = .fin (n + 1 : ℕ) :=
      Number.add_natCast (by omega)
    have hstop : ((Number.fin n).add (.fin 1)).sub (.fin 1) = .fin n := by
      rw [← Nat.cast_one, hadd, Nat.cast_one, Number.sub_one_natCast (by omega)]
    have hpage := settles_getJobs_redis env s none hm (hstop ▸ hm)
    have hone : slice [job] (.fin 0) (.fin 1) = [job] := rfl
    rw [range_one hn', List.filterMap_cons_some hl, List.filterMap_nil] at hpage
    exact ⟨_, hpage, by rw [sinceFilter]; exact .cons rfl .nil⟩

/-- Every id that waits has a page. -/
theorem exists_page (env : Op → Input) (hlen : (pending b s).length < 2 ^ 32)
    {i : String} {job : Job} (hi : i ∈ pending b s) (hl : lookup b s i = some job) : ∃ n : ℕ,
    ask b env (.executions (.fin 1) (.fin n)) s =
      some (.reply ⟨200, .executions [job] (pending b s).length⟩) := by
  obtain ⟨n, hn⟩ := List.mem_iff_getElem?.mp (mem_listing.mpr hi)
  have hlt : n < (pending b s).length := by
    rw [← length_listing]
    exact (List.getElem?_eq_some_iff.mp hn).1
  exact ⟨n, ask_page env (hlt.trans hlen) hn hl⟩

/-! ### The statistics -/

/-- What the environment makes of a timestamp. -/
def dateOf (env : Op → Input) (text : String) : Option TimeValue :=
  (env (.host (.getTime text))).time
def timeOf (env : Op → Input) (text : String) : Number := getTime (dateOf env text)

/-- A duration is added, as the environment reads the timestamps. -/
def addSpan (env : Op → Input) (sum : Number) (times : String × String) : Number :=
  sum.add ((timeOf env times.2).sub (timeOf env times.1))

/-- The sum of the durations. -/
def sumOf (env : Op → Input) (sum : Number) (jobs : List Job) : Number :=
  (jobs.filterMap timesOf).foldl (addSpan env) sum

/-- Their average. -/
def avgOf (env : Op → Input) (completed : List Job) : Number :=
  if completed.length > 0 then (sumOf env (.fin 0) completed).divNat completed.length else .fin 0

theorem settles_sumDurations (sum : Number) (jobs : List Job) :
    Settles (M := machine) env (sumDurations sum jobs) s (.ok (sumOf env sum jobs)) s := by
  induction jobs generalizing sum with
  | nil => exact Settles.pure _ _ _
  | cons job jobs ih =>
    unfold sumDurations
    split
    · next startedAt finishedAt htimes =>
      have hsum : sumOf env sum (job :: jobs) =
          sumOf env (addSpan env sum (startedAt, finishedAt)) jobs := by
        unfold sumOf
        rw [List.filterMap_cons_some htimes, List.foldl_cons]
      rw [hsum]
      exact (settles_host rfl).bind ((settles_host rfl).bind (ih _))
    · next htimes =>
      have hsum : sumOf env sum (job :: jobs) = sumOf env sum jobs := by
        unfold sumOf
        rw [List.filterMap_cons_none htimes]
      rw [hsum]
      exact ih sum

theorem settles_avgDuration (env : Op → Input) (s : Store) (completed : List Job) :
    Settles (M := machine) env (avgDuration completed) s (.ok (avgOf env completed)) s := by
  unfold avgDuration avgOf
  split
  · exact (settles_sumDurations (.fin 0) completed).bind (Settles.pure _ _ _)
  · exact Settles.pure _ _ _

/-- The ids that wait whose record is from `since` on. -/
def pendingSince (b : Backend) (s : Store) (since : String) : ℕ :=
  (((pending b s).filterMap (lookup b s)).filter fun job => decide (since ≤ job.createdAt)).length

/-- The answer, where the jobs of the last day are these. -/
theorem ask_stats_of {objs : List JobObj} {jobs : List Job}
    (hobjs : Settles (M := machine) env (getJobs b (.fin 500) (.fin 0)
      (some (toISOString ((env (.host .now)).ms - 86400000)))) s (.ok objs) s)
    (hread : List.Forall₂ (Holds s) objs jobs) :
    ask b env .stats s = some (.reply ⟨200, .stats
      (pendingSince b s (toISOString ((env (.host .now)).ms - 86400000)))
      (pendingSince b s (toISOString ((env (.host .now)).ms - 604800000))) 0
      (avgOf env (jobs.filter fun job => job.status = .completed)).round
      (successRate (jobs.filter fun job => job.status = .completed) jobs)⟩) := by
  have hcounts : Settles (M := machine) env (do
      let dayCount ← getJobCount b (some (toISOString ((env (.host .now)).ms - 86400000)))
      let weekCount ← getJobCount b (some (toISOString ((env (.host .now)).ms - 604800000)))
      let dayResults ← getJobs b (.fin 500) (.fin 0)
        (some (toISOString ((env (.host .now)).ms - 86400000)))
      return (dayCount, weekCount, dayResults)) s
      (.ok (pendingSince b s (toISOString ((env (.host .now)).ms - 86400000)),
        pendingSince b s (toISOString ((env (.host .now)).ms - 604800000)), objs)) s :=
    (settles_getJobCount_since b (toISOString_ne_empty _)).bind
      ((settles_getJobCount_since b (toISOString_ne_empty _)).bind
        (hobjs.bind (Settles.pure _ _ _)))
  have h : Settles (M := machine) env (getStats b) s (.ok ⟨200, .stats
      (pendingSince b s (toISOString ((env (.host .now)).ms - 86400000)))
      (pendingSince b s (toISOString ((env (.host .now)).ms - 604800000))) 0
      (avgOf env (jobs.filter fun job => job.status = .completed)).round
      (successRate (jobs.filter fun job => job.status = .completed) jobs)⟩) s := by
    refine Settles.tryCatch ((settles_host rfl).bind (hcounts.await.bind ?_))
    exact (settles_readAll hread).bind ((settles_avgDuration _ _ _).bind (Settles.pure _ _ _))
  rw [ask, handle, h.toThread]
  rfl

theorem ask_stats (b : Backend) (env : Op → Input) (s : Store) : ∃ avg rate,
    ask b env .stats s = some (.reply ⟨200, .stats
      (pendingSince b s (toISOString ((env (.host .now)).ms - 86400000)))
      (pendingSince b s (toISOString ((env (.host .now)).ms - 604800000))) 0 avg rate⟩) := by
  have hlast : Redis.index? (((Number.fin 0).add (.fin 500)).sub (.fin 1)) = some 499 := by
    decide +kernel
  obtain ⟨objs, jobs, hobjs, hread⟩ := settles_firstPage b env s hlast
    (some (toISOString ((env (.host .now)).ms - 86400000)))
  exact ⟨_, _, ask_stats_of hobjs hread⟩

end

/-! ### Completeness -/

section
variable {b : Backend} {c : Config (apiSystem b)}

/-- Where nothing has been taken off the queue, everything waits. -/
theorem pending_eq (hc : Reachable b c) (hp : pops c.world.log = []) :
    pending b c.world.state = ids c.world.log := by
  have h : (pops c.world.log).map (·.2) ++ pending b c.world.state = ids c.world.log := hc.inv.fifo
  rw [hp] at h
  exact h

theorem ids_length (log : List Event) : (ids log).length = (enqueues log).length := by simp [ids]

/-- All accepted jobs are counted. -/
theorem pendingSince_eq (hc : Reachable b c) (hp : pops c.world.log = []) (since : String) :
    pendingSince b c.world.state since = acceptedSince c.world since := by
  have hcount : ∀ l : List (Actor × Job), (∀ x ∈ l, x ∈ enqueues c.world.log) →
      (((l.map (·.2.id)).filterMap (lookup b c.world.state)).filter
        fun job => decide (since ≤ job.createdAt)).length =
      ((l.map Prod.snd).filter fun job => decide (since ≤ job.createdAt)).length := by
    intro l hl
    induction l with
    | nil => rfl
    | cons x l ih =>
      obtain ⟨job, hjob, hkeep⟩ := hc.inv.stored x (hl x List.mem_cons_self)
      have hjob' : lookup b c.world.state x.2.id = some job := hjob
      have hcreated : job.createdAt = x.2.createdAt := Keeps.createdAt hkeep
      have ih := ih fun y hy => hl y (List.mem_cons_of_mem _ hy)
      rw [List.map_cons, List.filterMap_cons_some hjob', List.map_cons, List.filter_cons,
        List.filter_cons, hcreated]
      split
      · rw [List.length_cons, List.length_cons, ih]
      · exact ih
  rw [pendingSince, pending_eq hc hp]
  exact hcount _ fun x hx => hx

/-- **The history is complete as long as no poll has been given a job**, and from then on it is
not. Neither an array nor a list of Redis has `2 ^ 32` elements. -/
theorem history_complete (b : Backend) (c : Config (apiSystem b)) (hc : Reachable b c)
    (hlen : (listing b c.world.state).length < 2 ^ 32) :
    Complete b c.world ↔ pops c.world.log = [] := by
  constructor
  · intro h
    obtain ⟨items, hitems⟩ := exists_total b (fun _ => default) c.world.state
    have hfifo : (pops c.world.log).map (·.2) ++ pending b c.world.state = ids c.world.log :=
      hc.inv.fifo
    have hlength := congrArg List.length hfifo
    have htotal := h.total _ _ _ _ _ hitems
    rw [accepted, List.length_map] at htotal
    rw [List.length_append, List.length_map, ids_length] at hlength
    exact List.eq_nil_of_length_eq_zero (by omega)
  · intro hp
    have hwait := pending_eq hc hp
    refine ⟨fun env limit offset items n hn => ?_, fun env job hjob => ?_, fun env => ?_⟩
    · rw [(page_of_ask hn).1, hwait, ids_length, accepted, List.length_map]
    · obtain ⟨x, hx, rfl⟩ := List.mem_map.mp hjob
      obtain ⟨rec, hrec, hkeep⟩ := hc.inv.stored x hx
      obtain ⟨n, hn⟩ := exists_page (b := b) env (length_listing ▸ hlen)
        (hwait ▸ mem_ids.mpr ⟨x, hx, rfl⟩) hrec
      exact ⟨_, _, _, _, hn, rec, List.mem_singleton_self _, Keeps.id hkeep⟩
    · obtain ⟨avg, rate, h⟩ := ask_stats b env c.world.state
      rw [pendingSince_eq hc hp, pendingSince_eq hc hp] at h
      exact ⟨avg, rate, h⟩

end

/-! ### Two runs -/

/-- A submission, before and after a poll. -/
theorem history_complete_run : ∃ c c', (start .memory).run (submission 0) = some c ∧
    Complete .memory c.world ∧ c.run (poll 2) = some c' ∧ ¬ Complete .memory c'.world := by
  obtain ⟨c, hc⟩ : ∃ c, (start .memory).run (submission 0) = some c :=
    Option.isSome_iff_exists.mp rfl
  have hpops : ((start .memory).run (submission 0)).map (fun c => (pops c.world.log).map (·.2)) =
      some [] := rfl
  have hlen : ((start .memory).run (submission 0)).map
      (fun c => (listing .memory c.world.state).length) = some 1 := rfl
  have hpoll : (((start .memory).run (submission 0)).bind fun c => c.run (poll 2)).map
      (fun c => ((pops c.world.log).map (·.2), (listing .memory c.world.state).length)) =
        some (["job"], 0) := rfl
  rw [hc, Option.map_some, Option.some.injEq, List.map_eq_nil_iff] at hpops
  rw [hc, Option.map_some, Option.some.injEq] at hlen
  rw [hc, Option.bind_some, Option.map_eq_some_iff] at hpoll
  obtain ⟨c', hc', hpoll⟩ := hpoll
  obtain ⟨hjob, hlen'⟩ := Prod.mk.inj hpoll
  have hr : Reachable .memory c := reaches_of_run hc
  have hr' : Reachable .memory c' := hr.trans (reaches_of_run hc')
  refine ⟨c, c', hc, (history_complete .memory c hr (by omega)).mpr hpops, hc', fun h => ?_⟩
  rw [(history_complete .memory c' hr' (by omega)).mp h] at hjob
  cases hjob

/-- One job has been accepted, and the history says that there is none. -/
theorem history_incomplete : ∃ c, (start .memory).run (submission 0 ++ poll 2) = some c ∧
    ¬ Complete .memory c.world := by
  obtain ⟨c, hc⟩ : ∃ c, (start .memory).run (submission 0 ++ poll 2) = some c :=
    Option.isSome_iff_exists.mp rfl
  have hcounts : ((start .memory).run (submission 0 ++ poll 2)).map
      (fun c => ((accepted c.world).length, (pending .memory c.world.state).length)) =
        some (1, 0) := rfl
  rw [hc, Option.map_some, Option.some.injEq, Prod.mk.injEq] at hcounts
  refine ⟨c, hc, fun h => ?_⟩
  obtain ⟨items, hitems⟩ := exists_total .memory (fun _ => default) c.world.state
  have htotal := h.total _ _ _ _ _ hitems
  omega

end CodeHive.Api.Listing
