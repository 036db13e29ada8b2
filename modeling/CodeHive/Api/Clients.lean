import CodeHive.Concurrency.Triples
import CodeHive.Api.Records

/-! # Clients of the queue service

No function of `queue.ts` or `executor.ts` starts a call of its own, so the calls of clients can be
taken one by one. -/

namespace CodeHive.Api.Clients

set_option autoImplicit false

open CodeHive.Js.Value CodeHive.Api.Types CodeHive.Api.Stores CodeHive.Api.Messages
open CodeHive.Api.Program CodeHive.Api.Queue CodeHive.Api.Executor CodeHive.Api.System
open CodeHive.Api.History CodeHive.Concurrency.Calls CodeHive.Concurrency.Pool
open CodeHive.Concurrency.RelyGuarantee CodeHive.Concurrency.Triples

/-! ### The functions detach nothing -/

section
variable (b : Backend)

theorem single_host (o : HostOp) : (host o).Single := single_call _

theorem single_mem (c : MemCall) : (mem c).Single := single_call _

theorem single_redis (c : RedisCmd) : (redis c).Single :=
  ((single_call _).bind fun _ => single_settle _).later

theorem single_isoNow : isoNow.Single := (single_host _).bind fun _ => single_pure _

theorem single_read (obj : JobObj) : (read obj).Single := by
  cases obj with
  | stored key => exact single_mem _
  | parsed job => exact single_pure _

theorem single_assign (obj : JobObj) (u : PartialJob) : (assign obj u).Single := by
  cases obj with
  | stored key => exact (single_mem _).bind fun _ => single_pure _
  | parsed job => exact single_pure _

theorem single_enqueue (request : ExecutionRequest) : (enqueue b request).Single := by
  refine (single_host _).bind fun id => single_isoNow.bind fun now => ?_
  cases b with
  | memory => exact (single_mem _).bind fun _ => single_pure _
  | redis => exact (single_redis _).await.bind fun _ => single_pure _

theorem single_getJob (id : String) : (getJob b id).Single := by
  cases b with
  | memory => exact single_mem _
  | redis => exact (single_redis _).await.bind fun _ => single_pure _

theorem single_dequeue : (dequeue b).Single := by
  cases b with
  | memory => exact single_mem _
  | redis =>
    refine (single_redis _).await.bind fun id => ?_
    cases id with
    | none => exact single_pure _
    | some id =>
      dsimp only
      split_ifs
      · exact single_pure _
      · exact (single_redis _).await.bind fun _ => single_pure _

theorem single_updateJob (id : String) (u : PartialJob) : (updateJob b id u).Single := by
  cases b with
  | memory => exact (single_mem _).bind fun _ => single_settle _
  | redis =>
    refine (single_getJob _ _).await.bind fun obj => ?_
    cases obj with
    | none => exact single_throw _
    | some obj =>
      refine single_isoNow.bind fun now => (single_assign _ _).bind fun obj => ?_
      exact (single_assign _ _).bind fun obj => (single_read _).bind fun _ => (single_redis _).await

theorem single_updateResult (id : String) (r : ExecutionResult) : (updateResult b id r).Single := by
  refine (single_getJob _ _).await.bind fun obj => ?_
  cases obj with
  | none => exact single_throw _
  | some obj =>
    refine single_isoNow.bind fun now => (single_assign _ _).bind fun obj => ?_
    cases b with
    | memory => exact single_pure _
    | redis => exact (single_read _).bind fun _ => (single_redis _).await

theorem single_runFile (jobId language : String) (stdin : Option String) (timeoutSec : Finite)
    (startedAt : String) (cfg : LangCfg) (file : String) :
    (runFile b jobId language stdin timeoutSec startedAt cfg file).Single := by
  refine (single_host _).bind fun startMs => ?_
  refine ((single_host _).bind fun x => single_settle _).await.bind fun p => ?_
  refine (single_host _).bind fun endMs => single_isoNow.bind fun now => ?_
  refine (single_getJob _ _).await.bind fun obj => ?_
  cases obj with
  | none => exact single_pure _
  | some obj => exact (single_assign _ _).bind fun _ => single_pure _

theorem single_runAndRecord (jobId language code : String) (stdin : Option String)
    (timeoutSec : Finite) (startedAt dir : String) (cfg : LangCfg) (file : String) :
    (runAndRecord b jobId language code stdin timeoutSec startedAt dir cfg file).Single := by
  refine (single_host _).bind fun x => (single_settle _).bind fun _ => ?_
  split_ifs
  · exact (single_host _).bind fun y => (single_settle _).bind fun _ =>
      single_runFile _ _ _ _ _ _ _ _
  · exact single_runFile _ _ _ _ _ _ _ _

theorem single_executeJob (jobId language code : String) (stdin : Option String)
    (timeoutSec : Finite) : (executeJob b jobId language code stdin timeoutSec).Single := by
  refine single_isoNow.bind fun startedAt => (single_updateJob _ _ _).await.bind fun _ => ?_
  refine (single_host _).bind fun x => (single_settle _).bind fun dir => ?_
  refine Async.Single.tryFinally (Async.Single.tryCatch (single_runAndRecord _ _ _ _ _ _ _ _ _ _)
    fun err => single_isoNow.bind fun _ => (single_updateJob _ _ _).await) (single_host _)

theorem single_readOption (obj : Option JobObj) : (readOption obj).Single := by
  cases obj with
  | none => exact single_pure _
  | some obj => exact (single_read _).bind fun _ => single_pure _

/-- **No call of a client starts another one.** -/
theorem single_perform (c : Call) : (perform b c).Single := by
  cases c with
  | enqueue request => exact (single_enqueue _ _).bind fun _ => single_readOption _
  | dequeue => exact (single_dequeue _).bind fun _ => single_readOption _
  | getJob id => exact (single_getJob _ _).bind fun _ => single_readOption _
  | updateJob id u => exact (single_updateJob _ _ _).bind fun _ => single_pure _
  | updateResult id r => exact (single_updateResult _ _ _).bind fun _ => single_pure _
  | executeJob => exact (single_executeJob _ _ _ _ _ _).bind fun _ => single_pure _

/-- What is to be shown of the calls of clients. -/
theorem clients_entries {b : Backend} {allowed : Call → Bool} {sp : Spec (clients b allowed)}
    (h : ∀ (c : Call) (a : Actor) (w w' : World), a.tag = .call c → sp.inv w → New a w →
      sp.rely a.tid w w' → sp.inv w' → Safe sp ((perform b c).toThread .returned) a w') :
    Entries sp := by
  intro tag p hp a w htag hw hnew w' hr hw'
  have hrely := sp.rely_trans _ _ _ _ ((sp.start w a hw hnew).2 a.tid) hr
  cases tag with
  | request r => cases hp
  | inline jobId => cases hp
  | call c =>
    simp only [clientEntry] at hp
    split_ifs at hp
    cases hp
    exact h c a w w' htag hw hnew hrely hw'

end

/-! ### Commands -/

section
variable {b : Backend} {allowed : Call → Bool} {sp : Spec (clients b allowed)} {a : Actor}

/-- A Redis command that succeeds, from the primitive that it is. -/
theorem triple_command {c : RedisCmd} {P : World → Prop} {R : c.Reply → World → Prop}
    (hcall : Triple sp a P (call (S := api) (.redis c) : Async (Except JsError c.Reply))
      (fun r w => ∃ x, r = .ok x ∧ R x w) fun _ _ => False)
    (hP : Stable sp a P) (hR : ∀ x, Stable sp a (R x)) :
    Triple sp a P (await (redis c)) R fun _ _ => False := by
  refine Triple.await_never_throws (Triple.later (hcall.bind fun r => ?_) hP) hR
  refine triple_settle (fun x w hr hw => ?_) fun err w hr hw => ?_
  · obtain ⟨y, hy, hRy⟩ := hw
    rw [hr, Except.ok.injEq] at hy
    exact hy ▸ hRy
  · obtain ⟨y, hy, -⟩ := hw
    rw [hr] at hy
    cases hy

end

/-- A store with one job. -/
def oneJob : Backend → Store
  | .memory => { Store.empty with
      mem := MemoryQueue.empty.enqueue (newJob "job" ⟨"", [], none, none, none, none⟩ "") }
  | .redis => { Store.empty with
      redis := (Redis.empty.exec
        (.set (jobKey "job") (newJob "job" ⟨"", [], none, none, none, none⟩ ""))).2 }

end CodeHive.Api.Clients
