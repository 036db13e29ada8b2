import CodeHive.Api.Queue

/-! # Inline execution

`executeJob` of `services/executor.ts`. `runProcess` is a primitive here: it is answered with what
its promise settles to. -/

namespace CodeHive.Api.Executor

set_option autoImplicit false

open CodeHive.Js.Value CodeHive.Api.Types CodeHive.Api.Stores CodeHive.Api.Program
open CodeHive.Api.Queue CodeHive.Concurrency.Calls

/-- `LANG_INTERPRETER[language] ?? LANG_INTERPRETER['python']`; the properties that every object has,
such as `constructor`, are left out. -/
def LANG_INTERPRETER (language : String) : LangCfg :=
  match language with
  | "javascript" => { cmd := "node", ext := ".js" }
  | "typescript" => { cmd := "npx", ext := ".ts", args := some ["tsx"] }
  | "go" => { cmd := "go", ext := ".go", args := some ["run"] }
  | "rust" => { cmd := "rustc", ext := ".rs" }
  | "java" => { cmd := "java", ext := ".java" }
  | "cpp" => { cmd := "g++", ext := ".cpp", args := some ["-o", "/tmp/a.out"] }
  | _ => { cmd := "python3", ext := ".py" }

/-- `join(dir, fileName)`. -/
def join (dir fileName : String) : String := dir ++ "/" ++ fileName

/-- The result recorded for a process that ended with `p`. -/
def resultOf (jobId language : String) (p : ProcResult) (startedAt finishedAt : String)
    (durationMs : ℤ) : ExecutionResult where
  id := jobId
  status := if p.exitCode = 0 then .completed else .failed
  stdout := p.stdout
  stderr := p.stderr
  exitCode := some p.exitCode
  language := some language
  startedAt := some startedAt
  finishedAt := some finishedAt
  -- `result.error || undefined`
  error := p.error.filter (· ≠ "")
  durationMs := some durationMs

/-- The result recorded when a step threw `err`. -/
def failureOf (jobId language : String) (err : JsError) (startedAt finishedAt : String) :
    ExecutionResult where
  id := jobId
  status := .failed
  stdout := ""
  stderr := ""
  exitCode := some (-1)
  language := some language
  startedAt := some startedAt
  finishedAt := some finishedAt
  error := some err.message
  durationMs := some 0

/-- The process is run, and its outcome is recorded. -/
def runFile (b : Backend) (jobId language : String) (stdin : Option String) (timeoutSec : Finite)
    (startedAt : String) (cfg : LangCfg) (file : String) : Async Unit := do
  let startMs ← host .now
  let result ← await do settle (← host (.runProcess cfg file stdin timeoutSec))
  let durationMs := (← host .now) - startMs
  let res := resultOf jobId language result startedAt (← isoNow) durationMs
  match ← await (getJob b jobId) with
  | some job =>
    let _ ← assign job { result := some (some res), status := some res.status }
    return ()
  | none => return ()

/-- The body of the `try` block of `executeJob`. -/
def runAndRecord (b : Backend) (jobId language code : String) (stdin : Option String)
    (timeoutSec : Finite) (startedAt dir : String) (cfg : LangCfg) (file : String) :
    Async Unit := do
  settle (← host (.writeFileSync file code))
  if language = "java" then
    settle (← host (.execSync s!"javac \"{file}\""))
    runFile b jobId language stdin timeoutSec startedAt
      { cmd := "java", ext := ".java", args := some ["-cp", dir, "Main"] } file
  else runFile b jobId language stdin timeoutSec startedAt cfg file

/-- What `executeJob` does once the record says `running`. -/
def afterStart (b : Backend) (jobId language code : String) (stdin : Option String)
    (timeoutSec : Finite) (startedAt : String) : Async Unit := do
  let cfg := LANG_INTERPRETER language
  let dir ← settle (← host .mkdtempSync)
  let fileName := if language = "java" then "Main.java" else "code" ++ cfg.ext
  let file := join dir fileName
  tryFinally
    (tryCatch (runAndRecord b jobId language code stdin timeoutSec startedAt dir cfg file)
      fun err => do
        let res := failureOf jobId language err startedAt (← isoNow)
        await (updateJob b jobId { status := some .failed, result := some (some res) }))
    (host (.rmSync dir))

/-- `executeJob`. -/
def executeJob (b : Backend) (jobId language code : String) (stdin : Option String)
    (timeoutSec : Finite) : Async Unit := do
  let startedAt ← isoNow
  await (updateJob b jobId { status := some .running })
  afterStart b jobId language code stdin timeoutSec startedAt

end CodeHive.Api.Executor
