import CodeHive.Orchestrator.Conservation
import CodeHive.Orchestrator.WorkerApi
import CodeHive.Worker.Types

/-! # The orchestrator and the worker on the wire

A job that is taken with `handleDequeue` has a result channel, which has no JSON: the response has
no body, and the job is gone. What `handleResult` stores has neither a status nor a duration, and
its exit code does not tell a clean exit from none. -/

namespace CodeHive.Orchestrator.Wire

set_option autoImplicit false

open CodeHive.Js.Value CodeHive.Go.Json CodeHive.Go.Sync CodeHive.Rust.Serde
open CodeHive.Concurrency.Interleaving
open CodeHive.Orchestrator.Types CodeHive.Orchestrator.Runner CodeHive.Orchestrator.JobFlow
open CodeHive.Orchestrator.Conservation CodeHive.Orchestrator.WorkerApi
open CodeHive.Worker.Types (ExecutionJob Language.called printed)

/-! ### Jobs -/

/-- **The job crosses**: the worker reads from the response what was submitted. -/
def JobCrosses (response : Response) (job : Job) : Prop :=
  response.code = 200 ∧ ∃ read, response.body.bind ExecutionJob.deserialize = some read ∧
    read.id = job.Request.ID ∧ read.code = job.Request.Code ∧
    read.stdin.getD "" = job.Request.Stdin ∧
    Language.called job.Request.Language = some read.language ∧
    (read.timeout_ms.toNat : ℤ) = 1000 * job.Request.Timeout

section
variable (time : TimeText)

/-- A job has a channel, so it has no JSON. -/
theorem encodeJob_eq_none (job : Job) : encodeJob time job = none := by
  have hchan : ("ResultCh", none) ∈ [("Request", encodeRequest time job.Request),
      ("ResultCh", ofChan job.ResultCh), ("CreatedAt", ofTime time job.CreatedAt),
      ("Priority", ofInt job.Priority)] := List.mem_cons_of_mem _ List.mem_cons_self
  exact ofStruct_eq_none hchan

/-- An empty body is no job for the worker. -/
theorem not_crosses_empty (job : Job) : ¬ JobCrosses ⟨200, none⟩ job := by
  rintro ⟨-, read, hread, -⟩
  cases hread

variable {n : ℕ} {es : List Event} {s : State} {job : ℕ}

/-- What waits in the queue has been made. -/
theorem job_of_dequeue (h : Reaches runner (start n) es s) (hjob : s.d.Dequeue.1 = some job) :
    ∃ j, s.jobs[job]? = some j := by
  have hflow := flow h
  have hbuf : job ∈ s.d.jobQueue.buf := by
    rcases s.d.Dequeue_cases with ⟨k, q, hq, hd⟩ | ⟨-, hd⟩
    · rw [hd] at hjob
      cases hjob
      rw [Chan.buf_of_recv hq]
      exact List.mem_cons_self
    · rw [hd] at hjob
      cases hjob
  have hsent : job ∈ sends es := by
    rw [← hflow.fifo]
    exact List.mem_append_right _ hbuf
  have hlt : job < s.jobs.length :=
    List.mem_range.mp (hflow.calls.subset (List.mem_append_right _ hsent))
  exact ⟨s.jobs[job], List.getElem?_eq_getElem hlt⟩

/-- The response has no body. -/
theorem handleDequeue_some {j : Job} (hjob : s.d.Dequeue.1 = some job)
    (hj : s.jobs[job]? = some j) : handleDequeue time s = (⟨200, none⟩, s.dequeue.1) := by
  unfold handleDequeue
  rw [hjob]
  show (writeJSON 200 (some (s.jobs[job]?.bind (encodeJob time))), s.dequeue.1) = _
  rw [hj, Option.bind_some, encodeJob_eq_none]
  rfl

/-- What is dequeued is seen. -/
theorem dequeue_of_some (hjob : s.d.Dequeue.1 = some job) :
    runner.step s .dequeue = some (s.dequeue.1, [.dequeued job]) := by
  show some (s.dequeue.1, (s.d.Dequeue.1.map Event.dequeued).toList) = _
  rw [hjob]
  rfl

/-- **No job that is taken with `handleDequeue` is read by the worker**: the response has an empty
body, and the job is gone for good, executed by no worker loop and taken by nobody else. -/
theorem dequeued_job_lost (h : Reaches runner (start n) es s) (hjob : s.d.Dequeue.1 = some job) :
    ∃ j, s.jobs[job]? = some j ∧ handleDequeue time s = (⟨200, none⟩, s.dequeue.1) ∧
      ¬ JobCrosses (handleDequeue time s).1 j ∧
      ∀ es' s', Reaches runner s.dequeue.1 es' s' →
        job ∉ s'.d.jobQueue.buf ∧ job ∉ executions es' ∧ job ∉ dequeues es' := by
  obtain ⟨j, hj⟩ := job_of_dequeue h hjob
  have hresponse := handleDequeue_some time hjob hj
  refine ⟨j, hj, hresponse, by rw [hresponse]; exact not_crosses_empty j, fun es' s' h' => ?_⟩
  -- the whole run has taken the job once
  have hwhole : Reaches runner (start n) (es ++ [.dequeued job] ++ es') s' :=
    (h.step (dequeue_of_some hjob)).trans h'
  have hflow := flow hwhole
  have hle := count_le_one hflow job
  have hexec := (count_executions hflow job).2
  simp only [dequeues, executions, List.filterMap_append, List.count_append] at hle hexec
  have hone : (List.filterMap dequeuedOf [.dequeued job]).count job = 1 := by
    simp [dequeuedOf]
  refine ⟨?_, ?_, ?_⟩
  · exact List.count_eq_zero.mp (by omega)
  · have : (List.filterMap executeOf es').count job = 0 := by omega
    exact List.count_eq_zero.mp this
  · have : (List.filterMap dequeuedOf es').count job = 0 := by omega
    exact List.count_eq_zero.mp this

end

/-- Times as they are spelled in UTC, as far as the Unix epoch is concerned. -/
def epoch : TimeText where
  MarshalJSON _ := some "1970-01-01T00:00:00Z"
  UnmarshalJSON s := if s = "1970-01-01T00:00:00Z" then some 0 else none

/-- A job is submitted, and waits. -/
theorem waiting : ∃ es s, runner.run (start 1) [.submit (request "a") 0 0, .send 0] = some (s, es) ∧
    s.d.Dequeue.1 = some 0 := ⟨_, _, rfl, rfl⟩

theorem dequeued_job_lost_run : ∃ es s j,
    runner.run (start 1) [.submit (request "a") 0 0, .send 0] = some (s, es) ∧
    s.d.Dequeue.1 = some 0 ∧ handleDequeue epoch s = (⟨200, none⟩, s.dequeue.1) ∧
    ¬ JobCrosses (handleDequeue epoch s).1 j := by
  obtain ⟨es, s, hs, hjob⟩ := waiting
  obtain ⟨j, -, hresponse, hlost, -⟩ := dequeued_job_lost epoch (reaches_of_run hs) hjob
  exact ⟨es, s, j, hs, hjob, hresponse, hlost⟩

/-- **The first job of a dispatcher is taken**, and the worker reads nothing. -/
theorem job_response_empty : ¬ ∀ (n : ℕ) (es : List Event) (s : State) (job : ℕ) (j : Job),
    Reaches runner (start n) es s → s.d.Dequeue.1 = some job → s.jobs[job]? = some j →
    JobCrosses (handleDequeue epoch s).1 j := by
  intro h
  obtain ⟨es, s, hs, hjob⟩ := waiting
  obtain ⟨j, hj⟩ := job_of_dequeue (reaches_of_run hs) hjob
  have hcrosses := h 1 es s 0 j (reaches_of_run hs) hjob hj
  rw [handleDequeue_some epoch hjob hj] at hcrosses
  exact not_crosses_empty j hcrosses

/-! ### Results -/

/-- What `handleResult` decodes. -/
def decoded (r : Worker.Types.ExecutionResult) : ExecutionResult :=
  { zeroResult with
    ID := r.id, Stdout := r.stdout, Stderr := r.stderr
    ExitCode := r.exit_code.elim 0 Int32.toInt, Error := r.error.getD "" }

section
variable (time : TimeText) (r : Worker.Types.ExecutionResult)

/-- A result of the worker has five keys that Go's result has, and four that it has not; `null` leaves
the zero value. -/
theorem decodeResult_serialize : decodeResult time r.serialize = some (decoded r) := by
  have hid : ∀ (x : ExecutionResult) (v : String),
      setField (resultFields time) x ("id", .str v) = some { x with ID := v } := fun _ _ => rfl
  have hstdout : ∀ (x : ExecutionResult) (v : String),
      setField (resultFields time) x ("stdout", .str v) = some { x with Stdout := v } :=
    fun _ _ => rfl
  have hstderr : ∀ (x : ExecutionResult) (v : String),
      setField (resultFields time) x ("stderr", .str v) = some { x with Stderr := v } :=
    fun _ _ => rfl
  have hexit : ∀ x : ExecutionResult, setField (resultFields time) x
      ("exit_code", ofOption (fun n : Int32 => Json.num n.toInt) r.exit_code) =
      some { x with ExitCode := r.exit_code.elim x.ExitCode Int32.toInt } := by
    intro x
    cases r.exit_code with
    | none => rfl
    | some n =>
      have hlow := Int32.le_toInt n
      have hhigh := Int32.toInt_lt n
      show (int64 (.num n.toInt)).map _ = _
      rw [int64_of_fits (by omega) (by omega)]
      rfl
  have herror : ∀ x : ExecutionResult, setField (resultFields time) x
      ("error", ofOption Json.str r.error) = some { x with Error := r.error.getD x.Error } := by
    intro x
    cases r.error <;> rfl
  have hunknown : ∀ key ∈ ["success", "duration_ms", "memory_used_mb", "timed_out"],
      ∀ (x : ExecutionResult) (v : Json), setField (resultFields time) x (key, v) = some x := by
    intro key hkey
    refine setField_unknown ?_
    show ∀ name ∈ ["id", "stdout", "stderr", "exit_code", "duration", "error", "status",
      "created_at", "updated_at"], foldEq name key = false
    revert key
    decide
  show List.foldlM (setField (resultFields time)) zeroResult [_, _, _, _, _, _, _, _, _] = _
  simp only [List.foldlM_cons, List.foldlM_nil, hid, hstdout, hstderr, hexit, herror,
    hunknown "success" (by decide), hunknown "duration_ms" (by decide),
    hunknown "memory_used_mb" (by decide), hunknown "timed_out" (by decide),
    Option.bind_eq_bind, Option.bind_some]
  rfl

end

/-- **The result crosses**: what is stored under `jobID` is what the worker posted. -/
structure ResultCrosses (jobID : String) (r : Worker.Types.ExecutionResult)
    (stored : ExecutionResult) : Prop where
  id : stored.ID = jobID
  stdout : stored.Stdout = r.stdout
  stderr : stored.Stderr = r.stderr
  error : stored.Error = r.error.getD ""
  duration : stored.Duration = r.duration_ms.toNat * 1000000
  status : stored.Status = if r.success then JobStatusCompleted else JobStatusFailed

/-- The exit code tells a program that exited with 0 from one without an exit code. -/
def TellsExit (time : TimeText) (r : Worker.Types.ExecutionResult) : Prop :=
  ∀ x y, decodeResult time { r with exit_code := some 0 }.serialize = some x →
    decodeResult time { r with exit_code := none }.serialize = some y → x.ExitCode ≠ y.ExitCode

/-- The status is never that of a result. -/
theorem not_crosses_decoded (jobID : String) (r : Worker.Types.ExecutionResult) (now : Time) :
    ¬ ResultCrosses jobID r { decoded r with ID := jobID, UpdatedAt := now } := by
  intro h
  have hstatus := h.status
  change ("" : String) = _ at hstatus
  cases hr : r.success with
  | true => rw [hr] at hstatus; exact absurd hstatus (by decide)
  | false => rw [hr] at hstatus; exact absurd hstatus (by decide)

/-- **No result that the worker posts is kept by the orchestrator**: it is accepted, and its outputs
and its error are stored, but without a status or a duration, and a missing exit code is 0. -/
theorem no_result_kept (time : TimeText) (jobID : String) (r : Worker.Types.ExecutionResult)
    (now : Time) (d : Dispatcher) : ∃ stored,
    handleResult time jobID (some r.serialize) now d =
      (⟨200, some (.obj [("status", .str "ok")])⟩, d.StoreResult jobID stored) ∧
    stored.ID = jobID ∧ stored.Stdout = r.stdout ∧ stored.Stderr = r.stderr ∧
    stored.Error = r.error.getD "" ∧ stored.Status = "" ∧ stored.Duration = 0 ∧
    ¬ ResultCrosses jobID r stored ∧ ¬ TellsExit time r := by
  refine ⟨{ decoded r with ID := jobID, UpdatedAt := now }, ?_, rfl, rfl, rfl, rfl, rfl, rfl,
    not_crosses_decoded jobID r now, fun h => ?_⟩
  · unfold handleResult
    rw [Option.bind_some, decodeResult_serialize]
    rfl
  · exact h _ _ (decodeResult_serialize _ _) (decodeResult_serialize _ _) rfl

/-- **A successful result is stored without a status.** -/
theorem result_changed : ¬ ∀ (jobID : String) (r : Worker.Types.ExecutionResult) (now : Time)
    (d : Dispatcher) (stored : ExecutionResult),
    (handleResult epoch jobID (some r.serialize) now d).2 = d.StoreResult jobID stored →
    ResultCrosses jobID r stored := by
  intro h
  exact not_crosses_decoded "job" printed 0 (h "job" printed 0 (NewDispatcher 1) _ rfl)

end CodeHive.Orchestrator.Wire
