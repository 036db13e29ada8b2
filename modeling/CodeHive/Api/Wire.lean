import CodeHive.Api.Runs
import CodeHive.Worker.Types

/-! # The API and the worker on the wire

A poll is answered with the record of the job as JSON, and the worker reads it as an `ExecutionJob`;
the worker posts an `ExecutionResult`, and the API checks it against `resultSchema`. Neither of the
two formats is the other side's: the record has no `code`, and the result has no `exitCode`. -/

namespace CodeHive.Api.Wire

set_option autoImplicit false

open CodeHive.Js.Value CodeHive.Api.Types CodeHive.Api.Stores CodeHive.Api.Messages
open CodeHive.Api.Program CodeHive.Api.Queue CodeHive.Api.Routes CodeHive.Api.System
open CodeHive.Api.History CodeHive.Api.Runs
open CodeHive.Concurrency.Calls CodeHive.Concurrency.Pool
open CodeHive.Worker.Types

/-! ### `JSON.stringify`

The properties are given in the order of the interfaces; no reader here depends on it. -/

/-- A property that is left out where it is undefined. -/
def property {α : Type} (key : String) (f : α → Json) : Option α → List (String × Json)
  | none => []
  | some x => [(key, f x)]

def nullable {α : Type} (f : α → Json) : Option α → Json
  | none => .null
  | some x => f x

def stringifyStatus : Status → Json
  | .queued => .str "queued"
  | .running => .str "running"
  | .completed => .str "completed"
  | .failed => .str "failed"
  | .timeout => .str "timeout"

def stringifyRequest (r : ExecutionRequest) : Json :=
  .obj ([("image", .str r.image), ("cmd", .arr (r.cmd.map .str))] ++
    property "env" (fun env => .obj (env.map fun x => (x.1, .str x.2))) r.env ++
    property "timeout" .num r.timeout ++ property "memory" .num r.memory ++
    property "cpus" .num r.cpus)

def stringifyResult (r : Types.ExecutionResult) : Json :=
  .obj ([("id", .str r.id), ("status", stringifyStatus r.status), ("stdout", .str r.stdout),
      ("stderr", .str r.stderr), ("exitCode", nullable .num r.exitCode)] ++
    property "language" .str r.language ++
    [("startedAt", nullable .str r.startedAt), ("finishedAt", nullable .str r.finishedAt)] ++
    property "error" .str r.error ++ property "durationMs" .num r.durationMs)

/-- `reply.send(job)`. -/
def stringifyJob (job : Job) : Json :=
  .obj [("id", .str job.id), ("type", .str "execute"), ("payload", stringifyRequest job.payload),
    ("status", stringifyStatus job.status), ("workerId", nullable .str job.workerId),
    ("createdAt", .str job.createdAt), ("updatedAt", .str job.updatedAt),
    ("result", nullable stringifyResult job.result)]

/-! ### Jobs -/

/-- Job `job` was submitted as `submit`, and a poll has been answered with it. -/
structure Served {b : Backend} (c : Config (apiSystem b)) (submit : CodeSubmit) (job : Job) :
    Prop where
  accepted : ∃ (t : ℕ) (a : Actor) (body : Json) (language : String),
    a.tag = .request (.execute body) ∧ codeSubmitSchema body = some submit ∧
    c.pool[t]? = some (a, .done (.reply ⟨202, .queued job.id language⟩))
  polled : ∃ (t : ℕ) (a : Actor) (worker : String), a.tag = .request (.jobsNext worker) ∧
    c.pool[t]? = some (a, .done (.reply ⟨200, .job job⟩))

/-- **The job crosses**: the worker reads what was submitted. -/
def JobCrosses (submit : CodeSubmit) (job : Job) : Prop :=
  ∃ read, ExecutionJob.deserialize (stringifyJob job) = some read ∧ read.id = job.id ∧
    read.code = submit.code ∧ read.stdin = submit.stdin ∧
    Language.called submit.language = some read.language ∧
    ∀ timeout, submit.timeout = some timeout → (read.timeout_ms.toNat : Finite) = 1000 * timeout

/-- The record of a job is no job for the worker. -/
theorem deserialize_stringifyJob (job : Job) : ExecutionJob.deserialize (stringifyJob job) = none := by
  refine deserialize_eq_none fun f hf => ?_
  have hkey : f.1 ∈ ["id", "type", "payload", "status", "workerId", "createdAt", "updatedAt",
      "result"] := List.mem_map_of_mem (f := Prod.fst) hf
  intro hcode
  rw [hcode] at hkey
  exact absurd hkey (by decide)

/-- **No job that is handed out by the API is read by the worker.** -/
theorem no_job_read {b : Backend} {c : Config (apiSystem b)} (_ : Reachable b c)
    {submit : CodeSubmit} {job : Job} (_ : Served c submit job) : ¬ JobCrosses submit job := by
  rintro ⟨read, hread, -⟩
  rw [deserialize_stringifyJob] at hread
  cases hread

/-- What `submission` submits. -/
def submitted : CodeSubmit := ⟨"python", "print(1)", none, none⟩

/-- A submission, and a poll that is answered with its job. -/
theorem served : ∃ c job, (start .memory).run (submission 0 ++ poll 2) = some c ∧
    Served c submitted job := by
  obtain ⟨c, hc⟩ : ∃ c, (start .memory).run (submission 0 ++ poll 2) = some c :=
    Option.isSome_iff_exists.mp rfl
  have haccepted : ∃ a, ((start .memory).run (submission 0 ++ poll 2)).bind (fun c => c.pool[0]?) =
      some (a, .done (.reply ⟨202, .queued "job" "python"⟩)) ∧ ∃ body,
      a.tag = .request (.execute body) ∧ codeSubmitSchema body = some submitted :=
    ⟨_, rfl, _, rfl, rfl⟩
  have hpolled : ∃ a job, ((start .memory).run (submission 0 ++ poll 2)).bind (fun c => c.pool[2]?) =
      some (a, .done (.reply ⟨200, .job job⟩)) ∧ a.tag = .request (.jobsNext "w") ∧
      job.id = "job" :=
    ⟨_, _, rfl, rfl, rfl⟩
  rw [hc] at haccepted hpolled
  obtain ⟨a, ha, body, htag, hbody⟩ := haccepted
  obtain ⟨a', job, ha', htag', hid⟩ := hpolled
  exact ⟨c, job, hc, ⟨0, a, body, "python", htag, hbody, hid ▸ ha⟩, 2, a', "w", htag', ha'⟩

theorem no_job_read_run : ∃ c job, (start .memory).run (submission 0 ++ poll 2) = some c ∧
    Served c submitted job ∧ ¬ JobCrosses submitted job := by
  obtain ⟨c, job, hc, hserved⟩ := served
  exact ⟨c, job, hc, hserved, no_job_read (reaches_of_run hc) hserved⟩

/-- **The worker is handed a job that it cannot read.** -/
theorem job_unread : ¬ ∀ (b : Backend) (c : Config (apiSystem b)) (submit : CodeSubmit) (job : Job),
    Reachable b c → Served c submit job → JobCrosses submit job := by
  intro h
  obtain ⟨c, job, hc, hserved⟩ := served
  obtain ⟨read, hread, -⟩ := h .memory c submitted job (reaches_of_run hc) hserved
  rw [deserialize_stringifyJob] at hread
  cases hread

/-! ### Results -/

/-- The status that a result of the worker stands for. -/
def statusOf (r : Worker.Types.ExecutionResult) : Status :=
  if r.timed_out then .timeout else if r.success then .completed else .failed

/-- **The result crosses**: the API accepts it for job `i`, and what it stores is what was posted. -/
def ResultCrosses (i : String) (r : Worker.Types.ExecutionResult) : Prop :=
  ∃ posted, resultSchema r.serialize = some posted ∧ (posted.toResult i).stdout = r.stdout ∧
    (posted.toResult i).stderr = r.stderr ∧
    (posted.toResult i).exitCode = r.exit_code.map (fun n => (n.toInt : Finite)) ∧
    (posted.toResult i).status = statusOf r

/-- A result of the worker is none for the API. -/
theorem resultSchema_serialize (r : Worker.Types.ExecutionResult) :
    resultSchema r.serialize = none := rfl

/-- **No result of the worker is taken by the API**: the post of it is answered 400 and performs
nothing. -/
theorem no_result_accepted (b : Backend) (worker i : String) (r : Worker.Types.ExecutionResult) :
    ¬ ResultCrosses i r ∧ (handle b (.jobResult worker i r.serialize)).toThread replied =
      .done (.reply ⟨400, .error "ValidationError" "Invalid result"⟩) := by
  constructor
  · rintro ⟨posted, hposted, -⟩
    rw [resultSchema_serialize] at hposted
    cases hposted
  · rfl

/-- The worker posts a result. -/
def post (t : ℕ) (r : Worker.Types.ExecutionResult) : List (Label Task Input) :=
  .arrive (.request (.jobResult "w" "job" r.serialize)) :: turn t 1 {}

/-- **The worker posts the result of a job that it was handed**, and is answered 400. -/
theorem result_refused : ∃ c a,
    (start .memory).run (submission 0 ++ poll 2 ++ post 3 printed) = some c ∧
    c.pool[3]? = some (a, .done (.reply ⟨400, .error "ValidationError" "Invalid result"⟩)) ∧
    ¬ ResultCrosses "job" printed := by
  obtain ⟨c, hc⟩ : ∃ c, (start .memory).run (submission 0 ++ poll 2 ++ post 3 printed) = some c :=
    Option.isSome_iff_exists.mp rfl
  have hreply : ∃ a, ((start .memory).run (submission 0 ++ poll 2 ++ post 3 printed)).bind
      (fun c => c.pool[3]?) =
      some (a, .done (.reply ⟨400, .error "ValidationError" "Invalid result"⟩)) := ⟨_, rfl⟩
  rw [hc] at hreply
  obtain ⟨a, ha⟩ := hreply
  refine ⟨c, a, hc, ha, ?_⟩
  rintro ⟨posted, hposted, -⟩
  rw [resultSchema_serialize] at hposted
  cases hposted

end CodeHive.Api.Wire
