import CodeHive.Os.Process
import CodeHive.Worker.Types

/-! # The runner of the worker

`runner.rs`: which command runs a job, directly or in a container, and what becomes of the way in
which its process ended. An `Option` is `none` here where the code panics. -/

namespace CodeHive.Worker.Commands

set_option autoImplicit false

open CodeHive.Os.Process CodeHive.Worker.Types

/-- The fields of `WorkerConfig` that jobs depend on. -/
structure WorkerConfig where
  worker_id : String
  orchestrator_url : String
  max_memory_mb : UInt64
  max_concurrent_jobs : UInt32
  use_docker : Bool

inductive RunnerError where
  | Spawn (e : String)
  | Timeout (ms : UInt64)
  | Docker (e : String)
  | Io (e : String)

/-- `Display for RunnerError`. -/
def RunnerError.display : RunnerError → String
  | .Spawn e => s!"Failed to spawn process: {e}"
  | .Timeout ms => s!"Execution timed out after {ms}ms"
  | .Docker e => s!"Docker error: {e}"
  | .Io e => s!"I/O error: {e}"

structure Runner where
  config : WorkerConfig
  docker_available : Bool

/-- Whether jobs run in containers. -/
def Runner.inDocker (r : Runner) : Bool := r.config.use_docker && r.docker_available

/-! ### The command of a job -/

/-- `build_command`; Rust and C++ need their binary. -/
def build_command (language : Language) (code_path : Path) (binary_path : Option Path) :
    Option Command :=
  match language with
  | .python => some { program := .str "python3", args := [.path code_path] }
  | .node => some { program := .str "node", args := [.path code_path] }
  | .go =>
    match binary_path with
    | some bin => some { program := .path bin }
    | none => some { program := .str "go", args := [.str "run", .path code_path] }
  | .rust | .cpp => binary_path.map fun bin => { program := .path bin }

/-- The environment vars of a job. -/
def envs (job : ExecutionJob) : List (String × String) :=
  match job.env_vars with
  | some env_vars => env_vars.entries.map fun e => (e.1, e.2)
  | none => []

/-- The command that `execute_direct` spawns. -/
def directCommand (job : ExecutionJob) (code_path : Path) (binary_path : Option Path)
    (work_dir : Path) : Option Command :=
  (build_command job.language code_path binary_path).map fun cmd =>
    { cmd with current_dir := some work_dir, envs := envs job }.piped

/-- The image of a language. -/
def image : Language → String
  | .python => "python:3.12-slim"
  | .node => "node:22-alpine"
  | .go => "golang:1.22-alpine"
  | .rust => "rust:1.77-slim"
  | .cpp => "gcc:13-bookworm"

/-- What the container runs. -/
def containerArgs (language : Language) (file_name : String) : List String :=
  match language with
  | .python => ["python3", "-u", file_name]
  | .node => ["node", file_name]
  | .go => ["sh", "-c", s!"go build -o main {file_name} && ./main"]
  | .rust => ["sh", "-c", s!"rustc --edition 2021 {file_name} -o main && ./main"]
  | .cpp => ["sh", "-c", s!"g++ -std=c++20 -O2 -o main {file_name} && ./main"]

/-- The command that `execute_docker` spawns. -/
def Runner.dockerCommand (r : Runner) (job : ExecutionJob) (code_path work_dir : Path) : Command :=
  let container_dir := "/code"
  let file_name := (code_path.file_name.to_str).getD "main"
  let memory := job.memory_limit_mb.getD r.config.max_memory_mb
  let limits := ["run", "--rm", "--network", "none", "--read-only", "--memory", s!"{memory}m",
    "--cpus", "1", "--init", "-v"]
  let vars := (envs job).flatMap fun kv => ["-e", kv.1 ++ "=" ++ kv.2]
  { program := .str "docker"
    args := limits.map .str ++ [.volume work_dir container_dir] ++
      (["-w", container_dir, "-e", "GO111MODULE=off"] ++ vars ++ [image job.language] ++
        containerArgs job.language file_name).map .str : Command }.piped

/-- The command of `execute`. -/
def Runner.command (r : Runner) (job : ExecutionJob) (code_path : Path) (binary_path : Option Path)
    (work_dir : Path) : Option Command :=
  if r.inDocker then some (r.dockerCommand job code_path work_dir)
  else directCommand job code_path binary_path work_dir

/-- The error of a command that could not be spawned. -/
def Runner.spawnError (r : Runner) (e : String) : RunnerError :=
  if r.inDocker then .Docker s!"Failed to spawn docker: {e}" else .Spawn e

/-- All three streams of a command are pipes; otherwise `capture_output` panics. -/
def streamsPiped (cmd : Command) : Prop :=
  cmd.stdin = .piped ∧ cmd.stdout = .piped ∧ cmd.stderr = .piped

instance (cmd : Command) : Decidable (streamsPiped cmd) := by
  unfold streamsPiped
  infer_instance

/-- Only a compiled language needs a binary. -/
theorem isSome_build_command {language : Language} {binary_path : Option Path}
    (h : language.needs_compilation = false ∨ binary_path.isSome) (code_path : Path) :
    (build_command language code_path binary_path).isSome := by
  unfold build_command
  split
  · rfl
  · rfl
  · split <;> rfl
  all_goals
    rcases h with h | h
    · exact absurd h (by decide)
    · rw [Option.isSome_map]
      exact h

/-- **There is a command, and its streams are pipes**, where the job runs in a container, is not
compiled or has its binary. -/
theorem command_eq {r : Runner} {job : ExecutionJob} {binary_path : Option Path}
    (h : r.inDocker ∨ job.language.needs_compilation = false ∨ binary_path.isSome)
    (code_path work_dir : Path) :
    ∃ cmd, r.command job code_path binary_path work_dir = some cmd ∧ streamsPiped cmd := by
  unfold Runner.command
  by_cases hdocker : r.inDocker
  · rw [if_pos hdocker]
    exact ⟨_, rfl, ⟨rfl, rfl, rfl⟩⟩
  · have hbuild := isSome_build_command (h.resolve_left hdocker) code_path
    obtain ⟨cmd, hcmd⟩ := Option.isSome_iff_exists.mp hbuild
    rw [if_neg hdocker]
    unfold directCommand
    rw [hcmd]
    exact ⟨_, rfl, ⟨rfl, rfl, rfl⟩⟩

/-! ### The outcome -/

/-- What `capture_output` returns. -/
structure Captured where
  stdout : String
  stderr : String
  timed_out : Bool
  exit_code : Option Int32
  error : Option String

/-- The last lines of `capture_output`. -/
def captured (stdout stderr : String) (is_timed_out : Bool) :
    Except RunnerError Ending → Captured
  | .ok status => ⟨stdout, stderr, is_timed_out, status.code, none⟩
  | .error e => ⟨stdout, stderr, is_timed_out, none, some e.display⟩

/-- The result that `execute_direct` and `execute_docker` return. -/
def resultOf (job : ExecutionJob) (c : Captured) (duration_ms : UInt64) : ExecutionResult where
  id := job.id
  success := c.error.isNone && c.exit_code.all (· == 0)
  stdout := c.stdout
  stderr := c.stderr
  exit_code := c.exit_code
  duration_ms := duration_ms
  memory_used_mb := none
  error := c.error
  timed_out := c.timed_out

end CodeHive.Worker.Commands
