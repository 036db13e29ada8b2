import CodeHive.Rust.Serde

/-! # The records of the worker

`types.rs`: the job that a worker reads from a reply, and the result that it posts. -/

namespace CodeHive.Worker.Types

set_option autoImplicit false

open CodeHive.Js.Value CodeHive.Rust.Serde

inductive Language where
  | python
  | node
  | go
  | rust
  | cpp
  deriving DecidableEq

/-- The name of a variant, in `snake_case`. -/
def Language.variant : Language → String
  | .python => "python"
  | .node => "node"
  | .go => "go"
  | .rust => "rust"
  | .cpp => "cpp"

/-- The variant of a name. -/
def Language.ofVariant : String → Option Language
  | "python" => some .python
  | "node" => some .node
  | "go" => some .go
  | "rust" => some .rust
  | "cpp" => some .cpp
  | _ => none

/-- The file extension of a language. -/
def Language.extension : Language → String
  | .python => "py"
  | .node => "js"
  | .go => "go"
  | .rust => "rs"
  | .cpp => "cpp"

/-- Whether a language has a compilation step. -/
def Language.needs_compilation : Language → Bool
  | .go | .rust | .cpp => true
  | .python | .node => false

/-- The language of the worker that the servers call `name`. -/
def Language.called (name : String) : Option Language :=
  if name = "javascript" then some .node else Language.ofVariant name

/-- Job pulled from the queue. -/
structure ExecutionJob where
  id : String
  code : String
  language : Language
  timeout_ms : UInt64
  memory_limit_mb : Option UInt64
  stdin : Option String
  env_vars : Option (AList fun _ : String => String)

def default_timeout : UInt64 := 30000

/-- Result from executing a job. -/
structure ExecutionResult where
  id : String
  success : Bool
  stdout : String
  stderr : String
  exit_code : Option Int32
  duration_ms : UInt64
  memory_used_mb : Option Number
  error : Option String
  timed_out : Bool

/-! ### Reading a job -/

/-- The fields of a job that have been read so far. -/
structure Slots where
  id : Option String := none
  code : Option String := none
  language : Option Language := none
  timeout_ms : Option UInt64 := none
  memory_limit_mb : Option (Option UInt64) := none
  stdin : Option (Option String) := none
  env_vars : Option (Option (AList fun _ : String => String)) := none

/-- An entry of the object; unknown keys are ignored. -/
def Slots.visit (s : Slots) (key : String) (v : Json) : Option Slots :=
  match key with
  | "id" => (fill string s.id v).map fun x => { s with id := x }
  | "code" => (fill string s.code v).map fun x => { s with code := x }
  | "language" =>
    (fill (unitEnum Language.ofVariant) s.language v).map fun x => { s with language := x }
  | "timeout_ms" => (fill u64 s.timeout_ms v).map fun x => { s with timeout_ms := x }
  | "memory_limit_mb" =>
    (fill (option u64) s.memory_limit_mb v).map fun x => { s with memory_limit_mb := x }
  | "stdin" => (fill (option string) s.stdin v).map fun x => { s with stdin := x }
  | "env_vars" => (fill (option stringMap) s.env_vars v).map fun x => { s with env_vars := x }
  | _ => some s

/-- The job, if nothing that is required is missing. -/
def Slots.finish (s : Slots) : Option ExecutionJob := do
  let id ← s.id
  let code ← s.code
  let language ← s.language
  return {
    id, code, language
    timeout_ms := s.timeout_ms.getD default_timeout
    memory_limit_mb := s.memory_limit_mb.getD none
    stdin := s.stdin.getD none
    env_vars := s.env_vars.getD none }

/-- `Deserialize for ExecutionJob`. -/
def ExecutionJob.deserialize : Json → Option ExecutionJob
  | .obj fields => (visitMap Slots.visit {} fields).bind Slots.finish
  | .arr [id, code, language, timeout_ms, memory_limit_mb, stdin, env_vars] => do
    let id ← string id
    let code ← string code
    let language ← unitEnum Language.ofVariant language
    let timeout_ms ← u64 timeout_ms
    let memory_limit_mb ← option u64 memory_limit_mb
    let stdin ← option string stdin
    let env_vars ← option stringMap env_vars
    return { id, code, language, timeout_ms, memory_limit_mb, stdin, env_vars }
  | _ => none

/-- Only `code` fills the slot of the code. -/
theorem code_visit {s s' : Slots} {key : String} {v : Json} (hkey : key ≠ "code")
    (h : s.visit key v = some s') : s'.code = s.code := by
  unfold Slots.visit at h
  split at h
  case h_2 => exact absurd rfl hkey
  case h_8 => exact (Option.some.inj h) ▸ rfl
  all_goals
    obtain ⟨x, -, hx⟩ := Option.map_eq_some_iff.mp h
    exact hx ▸ rfl

/-- **An object without a `code` is no job.** -/
theorem deserialize_eq_none {fields : List (String × Json)} (hmiss : ∀ f ∈ fields, f.1 ≠ "code") :
    ExecutionJob.deserialize (.obj fields) = none := by
  show (visitMap Slots.visit {} fields).bind Slots.finish = none
  cases hs : visitMap Slots.visit {} fields with
  | none => rfl
  | some s =>
    have hcode : s.code = none := visitMap_keeps (fun _ _ _ _ => code_visit) hmiss hs
    show s.finish = none
    unfold Slots.finish
    rw [hcode]
    cases s.id <;> rfl

/-- The required fields alone are a job, with the default timeout. -/
theorem deserialize_required (id code : String) (l : Language) :
    ExecutionJob.deserialize
      (.obj [("id", .str id), ("code", .str code), ("language", .str l.variant)]) =
      some ⟨id, code, l, default_timeout, none, none, none⟩ := by
  cases l <;> rfl

/-! ### Writing a result -/

/-- `Serialize for ExecutionResult`. -/
def ExecutionResult.serialize (r : ExecutionResult) : Json :=
  .obj [("id", .str r.id), ("success", .bool r.success), ("stdout", .str r.stdout),
    ("stderr", .str r.stderr), ("exit_code", ofOption (fun n => .num n.toInt) r.exit_code),
    ("duration_ms", .num r.duration_ms.toNat), ("memory_used_mb", ofOption ofF64 r.memory_used_mb),
    ("error", ofOption .str r.error), ("timed_out", .bool r.timed_out)]

/-- The result of a program that prints `1`. -/
def printed : ExecutionResult where
  id := "job"
  success := true
  stdout := "1\n"
  stderr := ""
  exit_code := some 0
  duration_ms := 100
  memory_used_mb := none
  error := none
  timed_out := false

end CodeHive.Worker.Types
