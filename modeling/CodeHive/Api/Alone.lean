import CodeHive.Concurrency.Solo
import CodeHive.Api.Records

/-! # The queue service left alone

What the primitives and the functions of `queue.ts` do while nothing else happens. A caller's object
stands for the record under its id: in memory it is that record, on Redis a copy of it (`held`). -/

namespace CodeHive.Api.Alone

set_option autoImplicit false

open CodeHive.Js.Value CodeHive.Api.Types CodeHive.Api.Stores CodeHive.Api.Messages
open CodeHive.Api.Program CodeHive.Api.Queue CodeHive.Api.System CodeHive.Api.History
open CodeHive.Api.Records
open CodeHive.Concurrency.Calls CodeHive.Concurrency.Pool CodeHive.Concurrency.Solo

section
variable {b : Backend} {env : Op → Input} {s : Store} {i : String} {job : Job}

/-! ### Primitives -/

theorem settles_mem {c : MemCall} {r : c.Answer} {s' : Store}
    (h : c.exec (env (.mem c)) s = some (r, s')) :
    Settles (M := machine) env (mem c) s (.ok r) s' := Settles.call h

theorem settles_host {o : HostOp} {r : o.Answer} {s' : Store}
    (h : o.exec (env (.host o)) s = some (r, s')) :
    Settles (M := machine) env (host o) s (.ok r) s' := Settles.call h

theorem settles_isoNow :
    Settles (M := machine) env isoNow s (.ok (toISOString (env (.host .now)).ms)) s :=
  (settles_host rfl).bind (Settles.pure _ _ _)

/-- A command that changes nothing. -/
theorem settles_redis {c : RedisCmd} {r : Except JsError c.Reply}
    (h : s.redis.exec c = (r, s.redis)) : Settles (M := machine) env (redis c) s r s :=
  Settles.later ((Settles.call (by simp [exec, redisExec, h])).bind (Settles.settle _ _ _))

/-- A command, with what it leaves on the server. -/
theorem settles_command (c : RedisCmd) : Settles (M := machine) env (redis c) s
    (s.redis.exec c).1 { s with redis := (s.redis.exec c).2 } :=
  Settles.later ((Settles.call rfl).bind (Settles.settle _ _ _))

/-! ### Records -/

/-- The object through which a caller holds the record of job `i`. -/
def held : Backend → String → Job → JobObj
  | .memory, i, _ => .stored i
  | .redis, _, job => .parsed job

theorem settles_load (h : s.mem.jobs i = some job) :
    Settles (M := machine) env (read (.stored i)) s (.ok job) s :=
  settles_mem (by rw [MemCall.exec, h]; rfl)

theorem settles_read_held (h : lookup b s i = some job) :
    Settles (M := machine) env (read (held b i job)) s (.ok job) s := by
  cases b with
  | memory => exact settles_load h
  | redis => exact Settles.pure _ _ _

theorem settles_readOption_held (h : lookup b s i = some job) :
    Settles (M := machine) env (readOption (some (held b i job))) s (.ok (some job)) s :=
  (settles_read_held h).bind (Settles.pure _ _ _)

theorem settles_getJob (b : Backend) (env : Op → Input) (s : Store) (i : String) :
    Settles (M := machine) env (getJob b i) s (.ok ((lookup b s i).map (held b i))) s := by
  cases b with
  | memory => exact settles_mem rfl
  | redis => exact (settles_redis rfl).await.bind (Settles.pure _ _ _)

theorem settles_missing (h : lookup b s i = none) :
    Settles (M := machine) env (getJob b i) s (.ok none) s := by
  have hget := settles_getJob b env s i
  rwa [h] at hget

theorem settles_found (h : lookup b s i = some job) :
    Settles (M := machine) env (getJob b i) s (.ok (some (held b i job))) s := by
  have hget := settles_getJob b env s i
  rwa [h] at hget

/-! ### The functions of the queue service

`inp` is what the environment answers to all their primitives. -/

variable {inp : Input}

/-- A job is made under a fresh id. -/
theorem settles_enqueue (b : Backend) (request : ExecutionRequest) (hne : inp.uuid ≠ "")
    (hfresh : inp.uuid ∉ s.issued) : ∃ s',
    Settles (M := machine) (fun _ => inp) (enqueue b request) s
      (.ok (held b inp.uuid (newJob inp.uuid request (toISOString inp.ms)))) s' ∧
    (∀ j, lookup b s' j = if j = inp.uuid then
      some (newJob inp.uuid request (toISOString inp.ms)) else lookup b s j) ∧
    pending b s' = pending b s ++ [inp.uuid] ∧ s'.issued = inp.uuid :: s.issued := by
  have huuid : HostOp.exec .randomUUID inp s =
      some (inp.uuid, { s with issued := inp.uuid :: s.issued }) := if_pos ⟨hne, hfresh⟩
  cases b with
  | memory =>
    refine ⟨_, (settles_host huuid).bind (settles_isoNow.bind ((settles_mem rfl).bind
      (Settles.pure _ _ _))), fun j => ?_, rfl, rfl⟩
    exact jobs_exec (show MemCall.exec (.enqueue _) inp s = _ from rfl) j
  | redis =>
    refine ⟨_, (settles_host huuid).bind (settles_isoNow.bind ((settles_command _).await.bind
      (Settles.pure _ _ _))), fun j => ?_, ?_, rfl⟩
    · exact (strings_exec _ _ "" j).trans (by simp only [written, jobKey_inj]; rfl)
    · exact (lists_exec _ _).trans (by simp only [waiting, if_true]; rfl)

theorem settles_dequeue_empty (h : pending b s = []) :
    Settles (M := machine) (fun _ => inp) (dequeue b) s (.ok none) s := by
  cases b with
  | memory =>
    have horder : s.mem.order = [] := h
    refine settles_mem ?_
    simp only [MemCall.exec, MemoryQueue.dequeue, horder]
  | redis =>
    have hlist : s.redis.lists QUEUE_KEY = [] := List.reverse_eq_nil_iff.mp h
    have hsame : Function.update s.redis.lists QUEUE_KEY [] = s.redis.lists := by
      rw [← hlist, Function.update_eq_self]
    have hpop : s.redis.exec (.rpop QUEUE_KEY) = (.ok none, s.redis) := by
      simp only [Redis.exec, hlist, List.getLast?_nil, List.dropLast_nil, hsame]
    exact (settles_redis hpop).await.bind (Settles.pure _ _ _)

/-- The oldest id is taken off the queue. -/
theorem settles_dequeue (inp : Input) {rest : List String} (h : pending b s = i :: rest)
    (hne : i ≠ "") (hjob : lookup b s i = some job) : ∃ s',
    Settles (M := machine) (fun _ => inp) (dequeue b) s (.ok (some (held b i job))) s' ∧
    (∀ j, lookup b s' j = lookup b s j) ∧ pending b s' = rest ∧ s'.issued = s.issued := by
  cases b with
  | memory =>
    have horder : s.mem.order = i :: rest := h
    have hrecord : s.mem.jobs i = some job := hjob
    refine ⟨{ s with mem := { s.mem with order := rest } }, settles_mem ?_, fun _ => rfl, rfl, rfl⟩
    simp [MemCall.exec, MemoryQueue.dequeue, MemoryQueue.getJob, horder, hne, hrecord, held]
  | redis =>
    have hpop : (s.redis.exec (.rpop QUEUE_KEY)).1 = .ok (some i) :=
      (rpop_fst _ _).trans (congrArg (fun l => Except.ok l.head?) h)
    have hcommand : Settles (M := machine) (fun _ => inp) (redis (.rpop QUEUE_KEY)) s
        (s.redis.exec (.rpop QUEUE_KEY)).1
        { s with redis := (s.redis.exec (.rpop QUEUE_KEY)).2 } := settles_command _
    rw [hpop] at hcommand
    have hget : Settles (M := machine) (fun _ => inp)
        (if i = "" then pure none else getJob .redis i)
        { s with redis := (s.redis.exec (.rpop QUEUE_KEY)).2 } (.ok (some (held .redis i job)))
        { s with redis := (s.redis.exec (.rpop QUEUE_KEY)).2 } := by
      rw [if_neg hne]
      exact settles_found (b := .redis) hjob
    refine ⟨_, hcommand.await.bind hget, fun _ => rfl, ?_, rfl⟩
    exact (lists_exec _ _).trans (by rw [waiting, if_pos rfl]; exact congrArg List.tail h)

theorem settles_updateJob_missing (h : lookup b s i = none) (u : PartialJob) :
    Settles (M := machine) (fun _ => inp) (updateJob b i u) s (.error (jobNotFound i)) s := by
  cases b with
  | memory =>
    have hupdate : MemCall.exec (.updateJob i u) inp s = some (.error (jobNotFound i), s) := by
      show some ((s.mem.updateJob i u _).1, { s with mem := (s.mem.updateJob i u _).2 }) = _
      rw [updateJob_none h]
    exact (settles_mem hupdate).bind (Settles.settle _ _ _)
  | redis => exact (settles_missing h).await.bind (Settles.settle _ (.error _) _)

theorem settles_updateResult_missing (h : lookup b s i = none) (r : ExecutionResult) :
    Settles (M := machine) (fun _ => inp) (updateResult b i r) s (.error (jobNotFound i)) s :=
  (settles_missing h).await.bind (Settles.settle _ (.error _) _)

/-- The record of job `i` has become `job`, and nothing else has changed. -/
structure Updated (b : Backend) (s s' : Store) (i : String) (job : Job) : Prop where
  lookup : ∀ j, lookup b s' j = if j = i then some job else lookup b s j
  pending : pending b s' = pending b s
  issued : s'.issued = s.issued

/-- `SET` of a record. -/
theorem updated_set (s : Store) (i : String) (job : Job) :
    Updated .redis s { s with redis := (s.redis.exec (.set (jobKey i) job)).2 } i job where
  lookup j := (strings_exec _ _ "" j).trans (by simp only [written, jobKey_inj]; rfl)
  pending := rfl
  issued := rfl

theorem settles_updateJob (inp : Input) (h : lookup b s i = some job) (u : PartialJob) : ∃ s',
    Settles (M := machine) (fun _ => inp) (updateJob b i u) s (.ok ()) s' ∧
      Updated b s s' i (job.update u (toISOString inp.ms)) := by
  cases b with
  | memory =>
    have hrecord : s.mem.jobs i = some job := h
    have hupdate : (s.mem.updateJob i u (toISOString inp.ms)).1 = .ok () := by
      simp only [MemoryQueue.updateJob, hrecord]
    have hmem : Settles (M := machine) (fun _ => inp) (mem (.updateJob i u)) s
        (.ok (s.mem.updateJob i u (toISOString inp.ms)).1)
        { s with mem := (s.mem.updateJob i u (toISOString inp.ms)).2 } := settles_mem rfl
    rw [hupdate] at hmem
    refine ⟨_, hmem.bind (Settles.settle _ _ _), fun j => ?_, updateJob_order, rfl⟩
    exact (jobs_exec (show MemCall.exec (.updateJob i u) inp s = _ from rfl) j).trans
      (map_at hrecord _ j)
  | redis =>
    -- the copy is assigned twice, read and written back
    exact ⟨_, (settles_found h).await.bind (settles_isoNow.bind ((Settles.pure _ _ _).bind
      ((Settles.pure _ _ _).bind ((Settles.pure _ _ _).bind (settles_command _).await)))),
      updated_set s i _⟩

theorem settles_updateResult (inp : Input) (h : lookup b s i = some job) (r : ExecutionResult) :
    ∃ s',
    Settles (M := machine) (fun _ => inp) (updateResult b i r) s (.ok ()) s' ∧
      Updated b s s' i (job.update { result := some (some r), status := some r.status }
        (toISOString inp.ms)) := by
  cases b with
  | memory =>
    have hrecord : s.mem.jobs i = some job := h
    have hexec (u : PartialJob) : MemCall.exec (.assign i u) inp s =
        some ((), { s with mem := s.mem.assign i u }) := by
      show (s.mem.jobs i).map _ = _
      rw [hrecord]
      rfl
    have hassign (u : PartialJob) : Settles (M := machine) (fun _ => inp) (assign (.stored i) u) s
        (.ok (.stored i)) { s with mem := s.mem.assign i u } :=
      (settles_mem (hexec u)).bind (Settles.pure _ _ _)
    refine ⟨_, (settles_found h).await.bind (settles_isoNow.bind ((hassign _).bind
      (Settles.pure _ _ _))), fun j => ?_, rfl, rfl⟩
    exact (jobs_exec (c := .assign i _) (hexec _) j).trans (map_at hrecord _ j)
  | redis =>
    exact ⟨_, (settles_found h).await.bind (settles_isoNow.bind ((Settles.pure _ _ _).bind
      ((Settles.pure _ _ _).bind (settles_command _).await))), updated_set s i _⟩

end

end CodeHive.Api.Alone
