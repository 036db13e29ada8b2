import CodeHive.Worker.Outcomes

/-! # Which results are successes

`success` stands for "exit 0 and no error". A result is assembled on several paths; on all of them
it means that, except where `child.wait` reports that a signal ended the process: then there is
neither an exit code nor an error. -/

namespace CodeHive.Worker.Success

set_option autoImplicit false

open CodeHive.Concurrency.Interleaving CodeHive.Os.Process CodeHive.Worker.Types
open CodeHive.Worker.Commands CodeHive.Worker.Sandbox CodeHive.Worker.Outcomes

/-- A result is a success when the exit code is 0 and there is no error. -/
def SuccessMeansClean (res : ExecutionResult) : Prop :=
  res.success = true ↔ res.exit_code = some 0 ∧ res.error = none

instance (res : ExecutionResult) : Decidable (SuccessMeansClean res) := by
  unfold SuccessMeansClean
  infer_instance

/-- A result with an error, and not a success. -/
theorem successMeansClean_of_error {res : ExecutionResult} (hs : res.success = false)
    (he : res.error ≠ none) : SuccessMeansClean res := by
  unfold SuccessMeansClean
  rw [hs]
  exact ⟨fun h => absurd h Bool.false_ne_true, fun h => absurd h.2 he⟩

/-- **The outcome with neither an exit code nor an error counts as a success.** -/
theorem successMeansClean_resultOf_iff (job : ExecutionJob) (stdout stderr : String) (t : Bool)
    (e : Ending) (ms : UInt64) :
    SuccessMeansClean (resultOf job (captured stdout stderr t (.ok e)) ms) ↔
      ∀ g, e ≠ .signaled g := by
  unfold SuccessMeansClean resultOf captured
  cases e with
  | exited n => simp [Ending.code]
  | signaled g => simp [Ending.code]

theorem successMeansClean_timeout (job : ExecutionJob) (stdout stderr : String) (t : Bool)
    (e : RunnerError) (ms : UInt64) :
    SuccessMeansClean (resultOf job (captured stdout stderr t (.error e)) ms) :=
  successMeansClean_of_error rfl (by simp [resultOf, captured])

/-- **A result of `execute` is a success exactly when it is clean, unless a signal ended the process
before the timeout.** -/
theorem success_iff_clean_iff (r : Runner) (job : ExecutionJob) {es : List Event} {s : State}
    {res : ExecutionResult} (h : Reaches (machine r job) .init es s)
    (hres : s.phase = .returned (.ok res)) :
    (res.success = true ↔ res.exit_code = some 0 ∧ res.error = none) ↔
      ∀ g, .waited (.signaled g) ∉ es := by
  cases explained h hres with
  | notCompiled e ms hes hres =>
    rw [hres]
    exact iff_of_true (successMeansClean_of_error rfl (by simp [compileFailed])) fun g => hes.1 _
  | failed e ms he hes hres =>
    rw [hres]
    exact iff_of_true (successMeansClean_of_error rfl (by simp [executionFailed])) fun g => hes.1 _
  | ended stdout stderr e ms hwaited hkilled hres =>
    have hclean := successMeansClean_resultOf_iff job stdout stderr false e ms
    rw [hres]
    refine hclean.trans (forall_congr' fun g => not_congr ?_)
    exact eq_comm.trans (hwaited (.signaled g)).symm
  | timedOut stdout stderr ms hwaited hkilled hres =>
    rw [hres]
    exact iff_of_true (successMeansClean_timeout job stdout stderr true _ ms) fun g => hwaited _

/-- A worker that runs jobs directly. -/
def direct : Runner := ⟨⟨"worker", "http://localhost:8080", 512, 4, false⟩, false⟩

/-- A Python job without standard input. -/
def script : ExecutionJob := ⟨"job", "...", .python, 5000, none, none, none⟩

/-- The program of a job is spawned, ends as `e` says, and the job is finished. -/
def runTo (e : Ending) : List Label :=
  [.exec (.prepared (.ok (.ofString "/tmp/dir"))) 0, .exec (.spawned (.ok 65536)) 1,
    .process (.closesStdout ""), .process (.closesStderr ""), .process (.ends e),
    .exec .waited 10, .exec .drained 10, .exec .removed 11]

/-- **A program that crashes is reported as a success**, without an exit code. -/
theorem crash_is_success : ∃ es s res, Reaches (machine direct script) .init es s ∧
    s.phase = .returned (.ok res) ∧ res.success = true ∧ res.exit_code = none ∧
    ¬ (res.success = true ↔ res.exit_code = some 0 ∧ res.error = none) :=
  ⟨_, _, _, reaches_of_run (rfl : (machine direct script).run .init (runTo (.signaled 11)) = some _),
    rfl, rfl, rfl, by decide⟩

/-- A program that exits with 0. -/
theorem exit_is_clean : ∃ es s res, Reaches (machine direct script) .init es s ∧
    s.phase = .returned (.ok res) ∧
    (res.success = true ↔ res.exit_code = some 0 ∧ res.error = none) := by
  refine ⟨_, _, _, reaches_of_run
    (rfl : (machine direct script).run .init (runTo (.exited 0)) = some _), rfl, ?_⟩
  refine (success_iff_clean_iff direct script (reaches_of_run
    (rfl : (machine direct script).run .init (runTo (.exited 0)) = some _)) rfl).mpr ?_
  intro g hg
  simp at hg

end CodeHive.Worker.Success
