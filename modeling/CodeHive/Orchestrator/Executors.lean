import CodeHive.Orchestrator.Runner
import CodeHive.Os.Executions
import CodeHive.Text.Utf8

/-! # The child processes of the orchestrator

`executeCommand` of `internal/runner/runner.go`, and the executors of `factory.go`. -/

namespace CodeHive.Orchestrator.Executors

set_option autoImplicit false

open CodeHive.Os.Process CodeHive.Os.Executions CodeHive.Orchestrator.Types
open CodeHive.Orchestrator.Runner CodeHive.Text.Utf8

/-! ### `executeCommand` -/

/-- The errors of `c.Run()`. -/
inductive RunError where
  /-- `*exec.ExitError`. -/
  | exitError (e : Ending)
  | other (text : String)

/-- `exitErr.ExitCode()`. -/
def ExitCode : Ending → ℤ
  | .exited n => n.toInt
  | .signaled _ => -1

/-- `executeCommand` once `c.Run()` has returned. -/
def executeCommand (stdoutStr stderrStr : String) (err : Option RunError)
    (deadlineExceeded : Bool) : Output :=
  match err with
  | none => ⟨stdoutStr, stderrStr, 0, none⟩
  | some err =>
    if deadlineExceeded then
      ⟨stdoutStr, "Process killed: timeout exceeded", -1, some "execution timeout"⟩
    else
      match err with
      | .exitError e => ⟨stdoutStr, stderrStr, ExitCode e, none⟩
      | .other text => ⟨stdoutStr, stderrStr, 1, some text⟩

/-- The error of `c.Run()`; that the standard input was refused is none. -/
def runError : Outcome → Option RunError
  | .ended e => if e.success then none else some (.exitError e)
  | .timedOut => some (.exitError (.signaled SIGKILL))
  | .notSpawned err => some (.other err.message)

/-- What `executeCommand` returns for an execution, if it returns: `c.Run()` waits until the input
is copied and both outputs are, however long a descendant holds the pipes. -/
def outputOf (x : Execution) : Option Output :=
  match x.outcome with
  | .notSpawned err => some (executeCommand "" "" (some (.other err.message)) false)
  | outcome =>
    if x.Stuck then none
    else some (executeCommand (decode (written x.output .stdout))
      (decode (written x.output .stderr)) (runError outcome) (outcome = .timedOut ∨ ¬ x.Prompt))

section
variable {x : Execution} {e : Ending}

/-- **A clean exit is no error**, and nobody asks for the deadline then. -/
theorem outputOf_clean (h : x.outcome = .ended (.exited 0)) (hstuck : ¬ x.Stuck) :
    outputOf x =
      some ⟨decode (written x.output .stdout), decode (written x.output .stderr), 0, none⟩ := by
  unfold outputOf
  rw [h]
  exact if_neg hstuck

/-- Nobody hears of an end while a pipe is held. -/
theorem outputOf_stuck (h : x.outcome = .ended e) (hstuck : x.Stuck) : outputOf x = none := by
  unfold outputOf
  rw [h]
  exact if_pos hstuck

/-- **A process that ends by itself** is no error, however it ends, if it is done with in time. -/
theorem outputOf_prompt (h : x.outcome = .ended e) (hprompt : x.Prompt) :
    outputOf x =
      some ⟨decode (written x.output .stdout), decode (written x.output .stderr), ExitCode e,
        none⟩ := by
  unfold outputOf
  rw [h]
  dsimp only
  rw [if_neg (Execution.not_stuck_of_prompt hprompt)]
  by_cases he : e.success
  · have hrun : runError (.ended e) = none := if_pos he
    rw [hrun, Ending.success_iff.mp he]
    rfl
  · have hrun : runError (.ended e) = some (.exitError e) := if_neg he
    rw [hrun]
    simp [executeCommand, hprompt]

/-- Every other end of an execution is an error, with the code -1 if there has been a process. -/
theorem outputOf_failed {out : Output} (h : outputOf x = some out)
    (hclean : x.outcome ≠ .ended (.exited 0)) (hprompt : ∀ e, x.outcome = .ended e → ¬ x.Prompt) :
    out.execErr.isSome ∧ (x.Spawned → out.exitCode = -1) := by
  unfold outputOf at h
  cases hx : x.outcome with
  | notSpawned err =>
    rw [hx] at h
    cases h
    exact ⟨rfl, fun hspawned => absurd hx (hspawned err)⟩
  | timedOut =>
    rw [hx] at h
    dsimp only at h
    split_ifs at h
    cases h
    simp [executeCommand, runError]
  | ended e =>
    have hlate := hprompt e hx
    have hrun : runError (.ended e) = some (.exitError e) :=
      if_neg fun he => hclean (hx.trans (congrArg _ (Ending.success_iff.mp he)))
    rw [hx] at h
    dsimp only at h
    split_ifs at h
    cases h
    simp [executeCommand, hrun, hlate]

end

/-! ### The factory -/

inductive Executor where
  | pythonExecutor
  | jsExecutor
  | goExecutor
  | rustExecutor
  | rubyExecutor
  | javaExecutor
  deriving DecidableEq

/-- With what `executeCommand` is called. -/
structure Call where
  cmd : String
  args : List String
  input : String
  timeoutSec : ℤ

/-- `Execute`; the source of a Java program is in the file `tmpPath`. -/
def Executor.Execute (e : Executor) (req : ExecutionRequest) (tmpPath : String) : Call :=
  match e with
  | .pythonExecutor => ⟨"python3", ["-c", req.Code], req.Stdin, req.Timeout⟩
  | .jsExecutor => ⟨"node", ["-e", req.Code], req.Stdin, req.Timeout⟩
  | .goExecutor => ⟨"go", ["run", "-"], req.Code, req.Timeout⟩
  | .rustExecutor => ⟨"rustc", ["-"], req.Code, req.Timeout⟩
  | .rubyExecutor => ⟨"ruby", ["-e", req.Code], req.Stdin, req.Timeout⟩
  | .javaExecutor => ⟨"java", [tmpPath], req.Stdin, req.Timeout⟩

end CodeHive.Orchestrator.Executors
