import CodeHive.Api.Process
import CodeHive.Orchestrator.Executors
import CodeHive.Worker.Outcomes

/-! # What the three executors make of an outcome

The API, the dispatcher and the worker run a program and say whether it succeeded. Each translates
the end of the process in its own way. -/

namespace CodeHive.Executors.Classification

set_option autoImplicit false

open CodeHive.Concurrency.Interleaving CodeHive.Os.Process CodeHive.Os.Executions
open CodeHive.Api.Program CodeHive.Api.Process CodeHive.Orchestrator.Executors
open CodeHive.Orchestrator.Types (JobStatusCompleted Duration Time)
open CodeHive.Worker.Commands CodeHive.Worker.Sandbox CodeHive.Worker.Outcomes
open CodeHive.Text.Utf8 (decode decode_encode)

/-! ### The results -/

/-- What `executeJob` of the API records, unless the API ends before. -/
def apiResult (jobId language startedAt finishedAt : String) (durationMs : ℤ) (x : Execution) :
    Option Api.Types.ExecutionResult :=
  (runProcess x).map fun
    | .ok p => Api.Executor.resultOf jobId language p startedAt finishedAt durationMs
    | .error err => Api.Executor.failureOf jobId language err startedAt finishedAt

/-- What `executeJob` of the dispatcher sends, if it does. -/
def goResult (request : Orchestrator.Types.ExecutionRequest) (elapsed : Duration) (now : Time)
    (x : Execution) : Option Orchestrator.Types.ExecutionResult :=
  (outputOf x).map fun out => Orchestrator.Runner.resultOf request out elapsed now

/-- What `execute` of the worker returns for a job that compiles, if it does: it writes all the
input first, and in the end waits for both outputs. -/
def workerResult (r : Runner) (job : Worker.Types.ExecutionJob) (ms : UInt64) (x : Execution) :
    Option Worker.Types.ExecutionResult :=
  let stdout := decode (written x.output .stdout)
  let stderr := decode (written x.output .stderr)
  match x.outcome with
  | .notSpawned err => some (executionFailed job (r.spawnError err.message) ms)
  | .ended e =>
    if x.input = .refused then some (executionFailed job brokenPipe ms)
    else if x.Stuck then none
    else some (resultOf job (captured stdout stderr false (.ok e)) ms)
  | .timedOut =>
    if x.input = .refused then some (executionFailed job brokenPipe ms)
    else if x.Stuck then none
    else some (resultOf job (captured stdout stderr true (.error (.Timeout job.timeout_ms))) ms)

/-- The history of a call of `execute` shows how the program ended. -/
structure Shows (es : List Event) (x : Execution) : Prop where
  waited : ∀ e, .waited e ∈ es ↔ x.outcome = .ended e ∧ x.input ≠ .refused
  killed : .killed ∈ es ↔ x.outcome = .timedOut ∧ x.input ≠ .refused

theorem shows_of_quiet {es : List Event} {x : Execution} (hes : Quiet es)
    (hx : x.input = .refused ∨ ∃ err, x.outcome = .notSpawned err) : Shows es x := by
  constructor
  · refine fun e => iff_of_false (hes.1 e) ?_
    rintro ⟨he, htaken⟩
    rcases hx with hrefused | ⟨err, herr⟩
    · exact htaken hrefused
    · rw [herr] at he
      cases he
  · refine iff_of_false hes.2 ?_
    rintro ⟨ht, htaken⟩
    rcases hx with hrefused | ⟨err, herr⟩
    · exact htaken hrefused
    · rw [herr] at ht
      cases ht

/-- The two outputs, a chunk each. -/
def outputs (stdout stderr : String) : List (Stream × List UInt8) :=
  [(.stdout, stdout.toByteArray.data.toList), (.stderr, stderr.toByteArray.data.toList)]

theorem decode_written_outputs (stdout stderr : String) :
    decode (written (outputs stdout stderr) .stdout) = stdout ∧
      decode (written (outputs stdout stderr) .stderr) = stderr := by
  have hout : written (outputs stdout stderr) .stdout = stdout.toByteArray.data.toList :=
    List.append_nil _
  have herr : written (outputs stdout stderr) .stderr = stderr.toByteArray.data.toList :=
    List.append_nil _
  rw [hout, herr]
  exact ⟨decode_encode stdout, decode_encode stderr⟩

/-- **Every result of a worker that runs jobs directly is this one**, unless the job did not
compile. -/
theorem workerResult_of_reaches {r : Runner} {job : Worker.Types.ExecutionJob} {es : List Event}
    {s : State} {res : Worker.Types.ExecutionResult} (hdirect : r.inDocker = false)
    (h : Reaches (machine r job) .init es s) (hres : s.phase = .returned (.ok res)) :
    (∃ e ms, res = compileFailed job e ms) ∨
      ∃ ms x, some res = workerResult r job ms x ∧ Shows es x := by
  cases explained h hres with
  | notCompiled e ms hes hres => exact Or.inl ⟨e, ms, hres⟩
  | failed e ms he hes hres =>
    refine Or.inr ⟨ms, ?_⟩
    cases he with
    | stdin =>
      exact ⟨⟨.timedOut, [], .inTime, .refused⟩, congrArg some hres, shows_of_quiet hes (Or.inl rfl)⟩
    | spawn e =>
      exact ⟨⟨.notSpawned ⟨.other, e⟩, [], .inTime, .taken .inTime⟩, congrArg some hres,
        shows_of_quiet hes (Or.inr ⟨_, rfl⟩)⟩
    | wait e =>
      have hspawn : r.spawnError e = .Spawn e := by
        unfold Runner.spawnError
        rw [hdirect]
        rfl
      rw [← hspawn] at hres
      exact ⟨⟨.notSpawned ⟨.other, e⟩, [], .inTime, .taken .inTime⟩, congrArg some hres,
        shows_of_quiet hes (Or.inr ⟨_, rfl⟩)⟩
  | ended stdout stderr e ms hwaited hkilled hres =>
    obtain ⟨hout, herr⟩ := decode_written_outputs stdout stderr
    refine Or.inr ⟨ms, ⟨.ended e, outputs stdout stderr, .inTime, .taken .inTime⟩, ?_, ?_, ?_⟩
    · rw [hres]
      simp [workerResult, Execution.Stuck, hout, herr]
    · intro e'
      rw [hwaited]
      simp [eq_comm]
    · exact iff_of_false hkilled (by simp)
  | timedOut stdout stderr ms hwaited hkilled hres =>
    obtain ⟨hout, herr⟩ := decode_written_outputs stdout stderr
    refine Or.inr ⟨ms, ⟨.timedOut, outputs stdout stderr, .inTime, .taken .inTime⟩, ?_, ?_, ?_⟩
    · rw [hres]
      simp [workerResult, Execution.Stuck, hout, herr]
    · exact fun e => iff_of_false (hwaited e) (by simp)
    · exact iff_of_true hkilled ⟨rfl, nofun⟩

/-! ### Which executions are successes -/

section
variable {x : Execution}

/-- The API counts a clean exit of which it hears. -/
theorem apiResult_completed_iff (jobId language startedAt finishedAt : String) (durationMs : ℤ) :
    (∃ res, apiResult jobId language startedAt finishedAt durationMs x = some res ∧
      res.status = .completed) ↔ x.outcome = .ended (.exited 0) ∧ Heard x := by
  unfold apiResult
  constructor
  · rintro ⟨res, hres, hstatus⟩
    obtain ⟨answer, hrun, rfl⟩ := Option.map_eq_some_iff.mp hres
    cases answer with
    | error err => cases hstatus
    | ok p =>
      have hzero : p.exitCode = 0 := by
        by_contra hnot
        simp [Api.Executor.resultOf, hnot] at hstatus
      rcases exitCode_of_runProcess hrun with ⟨e, ho, hheard, rfl⟩ | hminus
      · refine ⟨ho.trans (congrArg _ ?_), hheard⟩
        cases e with
        | exited n =>
          have hn : n.toInt = (0 : Int32).toInt := by
            simpa [closedWith, Ending.code] using hzero
          rw [Int32.toInt_inj.mp hn]
        | signaled g => simp [closedWith, Ending.code] at hzero
      · rw [hminus] at hzero
        norm_num at hzero
  · rintro ⟨ho, hheard⟩
    have hzero : (closedWith x (.exited 0)).exitCode = 0 := by simp [closedWith, Ending.code]
    rw [runProcess_of_heard ho hheard]
    refine ⟨_, rfl, ?_⟩
    simp [Api.Executor.resultOf, hzero]

/-- The dispatcher counts a clean exit once its pipes are closed, and every other end of a process
that is done with in time. -/
theorem goResult_completed_iff (request : Orchestrator.Types.ExecutionRequest) (elapsed : Duration)
    (now : Time) :
    (∃ res, goResult request elapsed now x = some res ∧ res.Status = JobStatusCompleted) ↔
      (x.outcome = .ended (.exited 0) ∧ ¬ x.Stuck) ∨ ∃ e, x.outcome = .ended e ∧ x.Prompt := by
  unfold goResult
  constructor
  · rintro ⟨res, hres, hstatus⟩
    obtain ⟨out, hout, rfl⟩ := Option.map_eq_some_iff.mp hres
    have hnone : ¬ out.execErr.isSome := by
      intro hsome
      unfold Orchestrator.Runner.resultOf at hstatus
      dsimp only at hstatus
      rw [if_pos hsome] at hstatus
      exact absurd hstatus (by decide)
    by_cases hprompt : ∃ e, x.outcome = .ended e ∧ x.Prompt
    · exact .inr hprompt
    · have hlate : ∀ e, x.outcome = .ended e → ¬ x.Prompt := fun e he hp => hprompt ⟨e, he, hp⟩
      refine .inl ?_
      by_contra hnot
      by_cases hclean : x.outcome = .ended (.exited 0)
      · have hstuck : x.Stuck := by
          by_contra hgoes
          exact hnot ⟨hclean, hgoes⟩
        rw [outputOf_stuck hclean hstuck] at hout
        cases hout
      · exact hnone (outputOf_failed hout hclean hlate).1
  · rintro (⟨ho, hstuck⟩ | ⟨e, ho, hprompt⟩)
    · rw [outputOf_clean ho hstuck]
      exact ⟨_, rfl, rfl⟩
    · rw [outputOf_prompt ho hprompt]
      exact ⟨_, rfl, rfl⟩

/-- The worker counts a process that ends without a code other than 0. -/
theorem workerResult_success_iff (r : Runner) (job : Worker.Types.ExecutionJob) (ms : UInt64) :
    (∃ res, workerResult r job ms x = some res ∧ res.success = true) ↔
      (∃ e, x.outcome = .ended e ∧ ∀ n, e = .exited n → n = 0) ∧ x.input ≠ .refused ∧
        ¬ x.Stuck := by
  unfold workerResult
  cases ho : x.outcome with
  | ended e =>
    by_cases hx : x.input = .refused
    · simp [hx, executionFailed]
    by_cases hstuck : x.Stuck
    · simp [hx, hstuck]
    cases e with
    | exited n => simp [hx, hstuck, resultOf, captured, Ending.code]
    | signaled g => simp [hx, hstuck, resultOf, captured, Ending.code]
  | timedOut =>
    by_cases hx : x.input = .refused
    · simp [hx, executionFailed]
    by_cases hstuck : x.Stuck
    · simp [hx, hstuck]
    · simp [hx, hstuck, resultOf, captured]
  | notSpawned err => simp [executionFailed]

/-- **The three executors classify an execution alike**: a success is a program that exited by
itself with 0. -/
structure Alike (x : Execution) : Prop where
  api : ∀ jobId language startedAt finishedAt durationMs,
    (∃ res, apiResult jobId language startedAt finishedAt durationMs x = some res ∧
      res.status = .completed) ↔ x.outcome = .ended (.exited 0)
  go : ∀ request elapsed now,
    (∃ res, goResult request elapsed now x = some res ∧ res.Status = JobStatusCompleted) ↔
      x.outcome = .ended (.exited 0)
  worker : ∀ r job ms,
    (∃ res, workerResult r job ms x = some res ∧ res.success = true) ↔
      x.outcome = .ended (.exited 0)

/-! ### Executions that are classified alike -/

/-- The job of the examples, for the dispatcher and for the worker. -/
def request : Orchestrator.Types.ExecutionRequest := Orchestrator.Runner.request "job"

def job : Worker.Types.ExecutionJob := ⟨"job", "...", .python, 30000, none, none, none⟩

def runner : Runner := ⟨⟨"worker", "http://localhost:8080", 512, 4, false⟩, false⟩

/-- A clean exit: the API hears of it, and no pipe is held for ever. -/
theorem alike_clean_iff (ho : x.outcome = .ended (.exited 0)) : Alike x ↔ Heard x ∧ ¬ x.Stuck := by
  constructor
  · intro h
    have hapi := (apiResult_completed_iff ..).mp ((h.api "job" "python" "" "" 0).mpr ho)
    refine ⟨hapi.2, ?_⟩
    rcases (goResult_completed_iff ..).mp ((h.go request 0 0).mpr ho) with ⟨-, hgoes⟩ | ⟨-, -, hp⟩
    · exact hgoes
    · exact Execution.not_stuck_of_prompt hp
  · rintro ⟨hheard, hstuck⟩
    constructor
    · exact fun _ _ _ _ _ => (apiResult_completed_iff ..).trans (and_iff_left hheard)
    · exact fun _ _ _ => iff_of_true ((goResult_completed_iff ..).mpr (.inl ⟨ho, hstuck⟩)) ho
    · refine fun _ _ _ => iff_of_true ((workerResult_success_iff ..).mpr ⟨?_, hheard.2.1, hstuck⟩) ho
      refine ⟨_, ho, ?_⟩
      rintro n ⟨⟩
      rfl

/-- Everything else is alike exactly when neither the dispatcher nor the worker counts it. -/
theorem alike_iff_of_ne (ho : x.outcome ≠ .ended (.exited 0)) :
    Alike x ↔ (∀ e, x.outcome = .ended e → ¬ x.Prompt) ∧
      ((∃ g, x.outcome = .ended (.signaled g)) → x.input = .refused ∨ x.Stuck) := by
  constructor
  · intro h
    refine ⟨fun e he hp => ho ((h.go request 0 0).mp ?_), ?_⟩
    · exact (goResult_completed_iff ..).mpr (.inr ⟨e, he, hp⟩)
    · rintro ⟨g, hg⟩
      by_contra hgoes
      rw [not_or] at hgoes
      refine ho ((h.worker runner job 0).mp ((workerResult_success_iff ..).mpr ⟨?_, hgoes⟩))
      exact ⟨_, hg, nofun⟩
  · rintro ⟨hlate, hsignal⟩
    constructor
    · exact fun _ _ _ _ _ => iff_of_false (fun hs => ho ((apiResult_completed_iff ..).mp hs).1) ho
    · refine fun _ _ _ => iff_of_false (fun hs => ?_) ho
      rcases (goResult_completed_iff ..).mp hs with ⟨hclean, -⟩ | ⟨e, he, hp⟩
      · exact ho hclean
      · exact hlate e he hp
    · refine fun _ _ _ => iff_of_false (fun hs => ?_) ho
      obtain ⟨⟨e, he, hzero⟩, htaken, hgoes⟩ := (workerResult_success_iff ..).mp hs
      cases e with
      | exited n => exact ho (he.trans (by rw [hzero n rfl]))
      | signaled g => exact (hsignal ⟨g, he⟩).elim htaken hgoes

/-- **An execution is classified alike exactly when** the program exited with 0, the API heard of it
and no pipe is held for ever; or with another code, and its pipes were not done with in time; or a
signal ended it, and the input was refused and the output closed late, or a pipe is held for ever; or
it was killed at the timeout, or could not be spawned. -/
theorem alike_iff (x : Execution) :
    Alike x ↔ (x.outcome = .ended (.exited 0) ∧ Heard x ∧ ¬ x.Stuck) ∨
      (∃ n ≠ 0, x.outcome = .ended (.exited n) ∧ ¬ x.Prompt) ∨
      (∃ g, x.outcome = .ended (.signaled g) ∧ ¬ x.Prompt ∧ (x.input = .refused ∨ x.Stuck)) ∨
      x.outcome = .timedOut ∨ ∃ err, x.outcome = .notSpawned err := by
  cases ho : x.outcome with
  | ended e =>
    cases e with
    | exited n =>
      by_cases hn : n = 0
      · subst hn
        rw [alike_clean_iff ho]
        simp
      · rw [alike_iff_of_ne (by simp [ho, hn])]
        simp [ho, hn]
    | signaled g =>
      rw [alike_iff_of_ne (by simp [ho])]
      simp [ho]
  | timedOut =>
    rw [alike_iff_of_ne (by simp [ho])]
    simp [ho]
  | notSpawned err =>
    rw [alike_iff_of_ne (by simp [ho])]
    simp [ho]

/-- **A program that exits with 1** is completed for the dispatcher and failed for the API. -/
theorem exit_classified_apart :
    let x : Execution := ⟨.ended (.exited 1), [], .inTime, .taken .inTime⟩
    (∃ res, goResult request 1 2 x = some res ∧ res.Status = JobStatusCompleted) ∧
      (∃ res, apiResult "job" "python" "" "" 1 x = some res ∧ res.status = .failed) ∧
      ¬ Alike x := by
  refine ⟨⟨_, rfl, rfl⟩, ⟨_, rfl, rfl⟩, fun h => ?_⟩
  have hclean := (h.go request 1 2).mp ⟨_, rfl, rfl⟩
  cases hclean

end

end CodeHive.Executors.Classification
