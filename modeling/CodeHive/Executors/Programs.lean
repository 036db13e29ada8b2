import CodeHive.Api.Routes
import CodeHive.Executors.Classification
import CodeHive.Os.Toolchains

/-! # Whether the user's program is run

What the API and the dispatcher record is an execution of some command. Whether that command runs
the program that was submitted, on the standard input that came with it, depends on the language. -/

namespace CodeHive.Executors.Programs

set_option autoImplicit false

open CodeHive.Os.Process CodeHive.Os.Executions CodeHive.Os.Toolchains
open CodeHive.Api.Routes (SUPPORTED)
open CodeHive.Api.Executor (LANG_INTERPRETER)
open CodeHive.Api.Types (JsError)
open CodeHive.Api.Program CodeHive.Api.Process CodeHive.Orchestrator.Executors
open CodeHive.Orchestrator.Types (Duration Time)
open CodeHive.Executors.Classification
open CodeHive.Text.Utf8 (Aligned decode decode_encode decodePieces_eq_iff)

variable {T : Toolchain}

/-- Only this file is there. -/
def sourceFile (file source : String) : Files T.Program :=
  fun f => if f = file then some (.source source) else none

/-- What the API runs for a source, in a new directory; `none` if `execSync` throws. -/
def apiReport (tools : Tools T) (dir language code : String) (stdin : Option String) :
    Option (Report T.Program) :=
  let cfg := LANG_INTERPRETER language
  let fileName := if language = "java" then "Main.java" else "code" ++ cfg.ext
  let file := Api.Executor.join dir fileName
  let files := sourceFile file code
  -- `if (stdin)`: nothing is written otherwise
  let input := stdin.getD ""
  if language = "java" then
    let javac := tools files "javac" [file] ""
    if javac.1.exitCode = 0 then
      let cfg : LangCfg := { cmd := "java", ext := ".java", args := some ["-cp", dir, "Main"] }
      some (tools javac.2 cfg.cmd (args cfg file) input).1
    else none
  else some (tools files cfg.cmd (args cfg file) input).1

/-- What `executeJob` of the API records: nothing if `mkdtempSync` throws, and a failure if
`writeFileSync` or `execSync` does. -/
def apiRecord (jobId language startedAt finishedAt : String) (durationMs : ℤ)
    (prepared : Option (Except JsError Unit)) (x : Execution) : Option Api.Types.ExecutionResult :=
  match prepared with
  | none => none
  | some (.error err) => some (Api.Executor.failureOf jobId language err startedAt finishedAt)
  | some (.ok ()) => apiResult jobId language startedAt finishedAt durationMs x

/-- The program has run on this input, and as it does without arguments. -/
def Ran (T : Toolchain) (report : Report T.Program) (x : Execution) (p : T.Program)
    (stdin : String) : Prop :=
  x.Spawned ∧ ∃ args, report.ran = some (p, args, stdin) ∧ T.run p args stdin = T.run p [] stdin

section
variable {report : Report T.Program} {x : Execution} {p : T.Program} {stdin : String}

end

/-! ### The API -/

section
variable {tools : Tools T} {dir language code : String} {p : T.Program}

end

/-! ### The dispatcher -/

section
variable {tools : Tools T} {tmpPath : String} {req : Orchestrator.Types.ExecutionRequest}
  {p : T.Program} {x : Execution}

end

/-! ### Both executors -/

/-- A command that exits with 0 after writing `stdout` at once. -/
def exits (stdout : String) : Execution :=
  ⟨.ended (.exited 0), outputs stdout "", .inTime, .taken .inTime⟩

end CodeHive.Executors.Programs
