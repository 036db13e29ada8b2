import CodeHive.Concurrency.Interleaving
import CodeHive.Worker.Commands

/-! # The sandbox

`Sandbox::execute` of `sandbox.rs` with `capture_output` of `runner.rs`, as a machine. `execute`
goes on from one `await` to the next; beside it the process that it has started, first the compiler
and then the program, does what it wants. -/

namespace CodeHive.Worker.Sandbox

set_option autoImplicit false

open CodeHive.Concurrency.Interleaving CodeHive.Os.Process CodeHive.Worker.Types
open CodeHive.Worker.Commands

/-- Where a call of `execute` is. -/
inductive Phase where
  /-- The temporary directory and the source file are being made. -/
  | preparing
  /-- The compiler is about to be spawned. -/
  | linking (work_dir : Path) (cmd : String) (args : List Arg)
  /-- In `output` of the compiler. -/
  | compiling (work_dir : Path) (cmd : String)
  /-- The program is about to be spawned. -/
  | starting (cmd : Command)
  /-- In `write_all`, with that many bytes of the standard input left. -/
  | feeding (left : ℕ)
  /-- At the `select!`. -/
  | waiting
  /-- The time is up; in `kill` and `wait`. -/
  | killing
  /-- The tasks that read the outputs are awaited. -/
  | draining (is_timed_out : Bool) (result : Except RunnerError Ending)
  /-- The directory is being removed. -/
  | cleaning (result : ExecutionResult)
  | returned (result : Except String ExecutionResult)
  | panicked

structure State where
  phase : Phase
  /-- The process that was started last. -/
  child : Child

/-- `execute` is called. -/
def State.init : State := ⟨.preparing, .started 0⟩

def State.goto (s : State) (phase : Phase) : State := { s with phase := phase }

/-- How `execute` goes on, with what the system answers. -/
inductive ExecStep where
  /-- The source file is written, or that failed. -/
  | prepared (answer : Except String Path)
  /-- `spawn` returns; the pipe to the process has that capacity. -/
  | spawned (answer : Except String ℕ)
  /-- `output` returns. -/
  | output
  /-- `write_all` writes what there is room for, or returns. -/
  | wrote
  /-- `child.wait` is the branch that completes. -/
  | waited
  | waitFailed (e : String)
  /-- `sleep` is the branch that completes. -/
  | timeout
  | killed
  | drained
  | removed

inductive Label where
  /-- `execute` goes on, `elapsed` milliseconds after it was called. -/
  | exec (x : ExecStep) (elapsed : UInt64)
  | process (a : Act)

inductive Event where
  | workDir (work_dir : Path)
  /-- `child.wait` has completed before the timeout. -/
  | waited (e : Ending)
  | killed

/-! ### The segments between two awaits -/

section
variable (r : Runner) (job : ExecutionJob)

/-- `should_compile`. -/
def shouldCompile : Bool := job.language.needs_compilation && !r.inDocker

/-- The command of `compile`; `unreachable!` and the `unwrap`s of paths are `none`. -/
def compileCommand (language : Language) (source_path binary_path : Path) :
    Option (String × List Arg) := do
  match language with
  | .rust =>
    let source ← source_path.to_str
    let binary ← binary_path.to_str
    return ("rustc", [.str source, .str "-o", .str binary, .str "--edition", .str "2021"])
  | .cpp =>
    let binary ← binary_path.to_str
    let source ← source_path.to_str
    return ("g++", [.str "-std=c++20", .str "-O2", .str "-o", .str binary, .str source])
  | .go =>
    let binary ← binary_path.to_str
    let source ← source_path.to_str
    return ("go", [.str "build", .str "-o", .str binary, .str source])
  | .python | .node => none

def codePath (work_dir : Path) : Path := work_dir.join s!"main.{job.language.extension}"

/-- `Runner::execute` up to the spawn. -/
def launch (work_dir : Path) (binary_path : Option Path) : Phase :=
  match r.command job (codePath job work_dir) binary_path work_dir with
  | some cmd => .starting cmd
  | none => .panicked

/-- The source file is written. -/
def afterSource (work_dir : Path) : Phase :=
  if shouldCompile r job then
    match compileCommand job.language (codePath job work_dir) (work_dir.join "main") with
    | some (cmd, args) => .linking work_dir cmd args
    | none => .panicked
  else launch r job work_dir none

/-- `capture_output` takes the pipes and writes to the first one. -/
def afterSpawn (cmd : Command) : Phase :=
  if streamsPiped cmd then
    match job.stdin with
    | some data => .feeding data.utf8ByteSize
    | none => .waiting
  else .panicked

/-- The result of a job that does not compile. -/
def compileFailed (e : String) (elapsed : UInt64) : ExecutionResult where
  id := job.id
  success := false
  stdout := ""
  stderr := s!"Compilation failed: {e}"
  exit_code := none
  duration_ms := elapsed
  memory_used_mb := none
  error := some s!"compilation error: {e}"
  timed_out := false

/-- The result of a job that the runner could not run. -/
def executionFailed (e : RunnerError) (elapsed : UInt64) : ExecutionResult where
  id := job.id
  success := false
  stdout := ""
  stderr := ""
  exit_code := none
  duration_ms := elapsed
  memory_used_mb := none
  error := some ("execution error: " ++ e.display)
  timed_out := false

/-- `output` of the compiler has returned. -/
def afterCompiler (work_dir : Path) (cmd : String) (status : Ending) (stderr : String)
    (elapsed : UInt64) : Phase :=
  if status.success then launch r job work_dir (some (work_dir.join "main"))
  else .cleaning (compileFailed job (cmd ++ " failed:\n" ++ stderr) elapsed)

/-- The text of `EPIPE`. -/
def brokenPipe : RunnerError := .Io "Broken pipe (os error 32)"

/-- `write_all` goes on; it waits while the pipe is full. -/
def State.write (s : State) (left : ℕ) (elapsed : UInt64) : Option State :=
  if left = 0 then some (s.goto .waiting)
  else if s.child.reader = false then
    some (s.goto (.cleaning (executionFailed job brokenPipe elapsed)))
  else if s.child.room = 0 then none
  else
    let n := min left s.child.room
    some ⟨.feeding (left - n), { s.child with buffered := s.child.buffered + n }⟩

/-! ### The machine -/

/-- `execute` goes on, where what it awaits has come. -/
def State.exec (s : State) (x : ExecStep) (elapsed : UInt64) : Option (State × List Event) :=
  match s.phase, x with
  | .preparing, .prepared (.error e) => some (s.goto (.returned (.error e)), [])
  | .preparing, .prepared (.ok work_dir) =>
    some (s.goto (afterSource r job work_dir), [.workDir work_dir])
  | .linking _ cmd _, .spawned (.error _) =>
    some (s.goto (.cleaning (compileFailed job s!"failed to run {cmd}" elapsed)), [])
  | .linking work_dir cmd _, .spawned (.ok capacity) =>
    some (⟨.compiling work_dir cmd, .started capacity⟩, [])
  | .compiling work_dir cmd, .output => do
    let status ← s.child.ended
    let _ ← s.child.stdout
    let stderr ← s.child.stderr
    return (s.goto (afterCompiler r job work_dir cmd status stderr elapsed), [])
  | .starting _, .spawned (.error e) =>
    some (s.goto (.cleaning (executionFailed job (r.spawnError e) elapsed)), [])
  | .starting cmd, .spawned (.ok capacity) => some (⟨afterSpawn job cmd, .started capacity⟩, [])
  | .feeding left, .wrote => (s.write job left elapsed).map fun s' => (s', [])
  | .waiting, .waited => do
    let status ← s.child.ended
    return (s.goto (.draining false (.ok status)), [.waited status])
  | .waiting, .waitFailed e =>
    if s.child.ended.isSome then
      some (s.goto (.cleaning (executionFailed job (.Spawn e) elapsed)), [])
    else none
  | .waiting, .timeout => some (s.goto .killing, [])
  | .killing, .killed =>
    some (⟨.draining true (.error (.Timeout job.timeout_ms)), s.child.kill⟩, [.killed])
  | .draining is_timed_out result, .drained => do
    let stdout ← s.child.stdout
    let stderr ← s.child.stderr
    let c := captured stdout stderr is_timed_out result
    return (s.goto (.cleaning (resultOf job c elapsed)), [])
  | .cleaning result, .removed => some (s.goto (.returned (.ok result)), [])
  | _, _ => none

/-- `execute`, and the process beside it. -/
def machine : Automaton State Label Event where
  step s l :=
    match l with
    | .exec x elapsed => s.exec r job x elapsed
    | .process a => some ({ s with child := s.child.act a }, [])

/-! ### The steps, one by one -/

/-- The steps of `execute`, with what each needs. -/
inductive Move (s : State) : ExecStep → UInt64 → State → List Event → Prop where
  | notPrepared {e : String} {ms : UInt64} (hp : s.phase = .preparing) :
    Move s (.prepared (.error e)) ms (s.goto (.returned (.error e))) []
  | prepared {dir : Path} {ms : UInt64} (hp : s.phase = .preparing) :
    Move s (.prepared (.ok dir)) ms (s.goto (afterSource r job dir)) [.workDir dir]
  | noCompiler {dir : Path} {cmd e : String} {args : List Arg} {ms : UInt64}
    (hp : s.phase = .linking dir cmd args) :
    Move s (.spawned (.error e)) ms
      (s.goto (.cleaning (compileFailed job s!"failed to run {cmd}" ms))) []
  | compiler {dir : Path} {cmd : String} {args : List Arg} {capacity : ℕ} {ms : UInt64}
    (hp : s.phase = .linking dir cmd args) :
    Move s (.spawned (.ok capacity)) ms ⟨.compiling dir cmd, .started capacity⟩ []
  | output {dir : Path} {cmd stdout stderr : String} {status : Ending} {ms : UInt64}
    (hp : s.phase = .compiling dir cmd) (he : s.child.ended = some status)
    (hout : s.child.stdout = some stdout) (herr : s.child.stderr = some stderr) :
    Move s .output ms (s.goto (afterCompiler r job dir cmd status stderr ms)) []
  | noProgram {cmd : Command} {e : String} {ms : UInt64} (hp : s.phase = .starting cmd) :
    Move s (.spawned (.error e)) ms
      (s.goto (.cleaning (executionFailed job (r.spawnError e) ms))) []
  | program {cmd : Command} {capacity : ℕ} {ms : UInt64} (hp : s.phase = .starting cmd) :
    Move s (.spawned (.ok capacity)) ms ⟨afterSpawn job cmd, .started capacity⟩ []
  | wrote {left : ℕ} {ms : UInt64} {s' : State} (hp : s.phase = .feeding left)
    (hw : s.write job left ms = some s') : Move s .wrote ms s' []
  | waited {status : Ending} {ms : UInt64} (hp : s.phase = .waiting)
    (he : s.child.ended = some status) :
    Move s .waited ms (s.goto (.draining false (.ok status))) [.waited status]
  | waitFailed {e : String} {ms : UInt64} (hp : s.phase = .waiting)
    (he : s.child.ended.isSome) :
    Move s (.waitFailed e) ms (s.goto (.cleaning (executionFailed job (.Spawn e) ms))) []
  | timeout {ms : UInt64} (hp : s.phase = .waiting) : Move s .timeout ms (s.goto .killing) []
  | killed {ms : UInt64} (hp : s.phase = .killing) :
    Move s .killed ms ⟨.draining true (.error (.Timeout job.timeout_ms)), s.child.kill⟩ [.killed]
  | drained {t : Bool} {result : Except RunnerError Ending} {stdout stderr : String} {ms : UInt64}
    (hp : s.phase = .draining t result) (hout : s.child.stdout = some stdout)
    (herr : s.child.stderr = some stderr) :
    Move s .drained ms
      (s.goto (.cleaning (resultOf job (captured stdout stderr t result) ms))) []
  | removed {result : ExecutionResult} {ms : UInt64} (hp : s.phase = .cleaning result) :
    Move s .removed ms (s.goto (.returned (.ok result))) []

variable {r job} {s s' : State} {new : List Event}

/-- **Every step of `execute` is one of these.** -/
theorem move_of_exec {x : ExecStep} {ms : UInt64} (h : s.exec r job x ms = some (s', new)) :
    Move r job s x ms s' new := by
  unfold State.exec at h
  split at h
  case h_1 hp => cases h; exact .notPrepared hp
  case h_2 hp => cases h; exact .prepared hp
  case h_3 hp => cases h; exact .noCompiler hp
  case h_4 hp => cases h; exact .compiler hp
  case h_5 hp =>
    obtain ⟨status, he, h⟩ := Option.bind_eq_some_iff.mp h
    obtain ⟨stdout, hout, h⟩ := Option.bind_eq_some_iff.mp h
    obtain ⟨stderr, herr, h⟩ := Option.bind_eq_some_iff.mp h
    cases h
    exact .output hp he hout herr
  case h_6 hp => cases h; exact .noProgram hp
  case h_7 hp => cases h; exact .program hp
  case h_8 hp =>
    obtain ⟨s₁, hw, h⟩ := Option.map_eq_some_iff.mp h
    cases h
    exact .wrote hp hw
  case h_9 hp =>
    obtain ⟨status, he, h⟩ := Option.bind_eq_some_iff.mp h
    cases h
    exact .waited hp he
  case h_10 hp =>
    split at h
    case isTrue he => cases h; exact .waitFailed hp he
    case isFalse => cases h
  case h_11 hp => cases h; exact .timeout hp
  case h_12 hp => cases h; exact .killed hp
  case h_13 hp =>
    obtain ⟨stdout, hout, h⟩ := Option.bind_eq_some_iff.mp h
    obtain ⟨stderr, herr, h⟩ := Option.bind_eq_some_iff.mp h
    cases h
    exact .drained hp hout herr
  case h_14 hp => cases h; exact .removed hp
  case h_15 => cases h

/-- Where `write_all` goes on. -/
theorem write_cases {left : ℕ} {ms : UInt64} (h : s.write job left ms = some s') :
    (left = 0 ∧ s' = s.goto .waiting) ∨
    (left ≠ 0 ∧ s.child.reader = false ∧
      s' = s.goto (.cleaning (executionFailed job brokenPipe ms))) ∨
    (left ≠ 0 ∧ s.child.reader = true ∧ s.child.room ≠ 0 ∧
      s' = ⟨.feeding (left - min left s.child.room),
        { s.child with buffered := s.child.buffered + min left s.child.room }⟩) := by
  unfold State.write at h
  split_ifs at h with hleft hreader hroom
  · exact .inl ⟨hleft, (Option.some.inj h).symm⟩
  · exact .inr (.inl ⟨hleft, hreader, (Option.some.inj h).symm⟩)
  · have hopen : s.child.reader = true := by simpa using hreader
    exact .inr (.inr ⟨hleft, hopen, hroom, (Option.some.inj h).symm⟩)

/-! ### The points where `execute` could panic -/

/-- It has not panicked, and the pipes that it is about to take exist. -/
def Phase.Sound : Phase → Prop
  | .panicked => False
  | .starting cmd => streamsPiped cmd
  | _ => True

/-- The two paths that `compile` names in the directory are text. -/
def PathsText (job : ExecutionJob) (dir : Path) : Prop :=
  (codePath job dir).to_str.isSome ∧ (dir.join "main").to_str.isSome

theorem pathsText {dir : Path} (h : dir.to_str.isSome) : PathsText job dir :=
  ⟨Path.isSome_to_str_join h _, Path.isSome_to_str_join h "main"⟩

/-- `compile` is only called for a language that it knows; its paths must be text. -/
theorem isSome_compileCommand_iff (dir : Path) (hneeds : job.language.needs_compilation) :
    (compileCommand job.language (codePath job dir) (dir.join "main")).isSome ↔
      PathsText job dir := by
  unfold compileCommand PathsText
  split
  case h_4 hl => exact absurd (hl ▸ hneeds) (by decide)
  case h_5 hl => exact absurd (hl ▸ hneeds) (by decide)
  all_goals
    cases (codePath job dir).to_str <;> cases (dir.join "main").to_str <;> simp

theorem launch_sound {binary_path : Option Path}
    (h : r.inDocker ∨ job.language.needs_compilation = false ∨ binary_path.isSome) (dir : Path) :
    (launch r job dir binary_path).Sound := by
  obtain ⟨cmd, hcmd, hpiped⟩ := command_eq h (codePath job dir) dir
  unfold launch
  rw [hcmd]
  exact hpiped

/-- **Runner and sandbox agree on who compiles**: where nothing is compiled, no binary is needed. -/
theorem afterSource_cases (r : Runner) (job : ExecutionJob) (dir : Path) :
    ((shouldCompile r job → PathsText job dir) ∧ (afterSource r job dir).Sound) ∨
    ((shouldCompile r job ∧ ¬ PathsText job dir) ∧ afterSource r job dir = .panicked) := by
  unfold afterSource
  by_cases hcompile : shouldCompile r job
  · have hneeds : job.language.needs_compilation := by
      unfold shouldCompile at hcompile
      exact (Bool.and_eq_true _ _ ▸ hcompile).1
    have hsome := isSome_compileCommand_iff dir hneeds
    rw [if_pos hcompile]
    split
    case h_1 hc =>
      rw [hc] at hsome
      exact .inl ⟨fun _ => hsome.mp rfl, trivial⟩
    case h_2 hc =>
      rw [hc] at hsome
      exact .inr ⟨⟨hcompile, fun htext => absurd (hsome.mpr htext) (by simp)⟩, rfl⟩
  · have hready : r.inDocker ∨ job.language.needs_compilation = false := by
      unfold shouldCompile at hcompile
      by_cases hdocker : r.inDocker
      · exact .inl hdocker
      · exact .inr (by simpa [hdocker] using hcompile)
    have hsound : (launch r job dir none).Sound :=
      launch_sound (hready.imp_right Or.inl) dir
    rw [if_neg hcompile]
    exact .inl ⟨fun h => absurd h hcompile, hsound⟩

/-- **A step of `execute` does not panic**, unless it would compile in a directory whose paths are
not text. -/
theorem exec_sound {x : ExecStep} {ms : UInt64} (hs : s.phase.Sound)
    (h : s.exec r job x ms = some (s', new)) :
    ((∀ dir, .workDir dir ∈ new → shouldCompile r job → PathsText job dir) ∧ s'.phase.Sound) ∨
    ((∃ dir, .workDir dir ∈ new ∧ shouldCompile r job ∧ ¬ PathsText job dir) ∧
      s'.phase = .panicked) := by
  cases move_of_exec h with
  | prepared hp =>
    rcases afterSource_cases r job _ with ⟨htext, hsound⟩ | ⟨hbad, hpanic⟩
    · refine .inl ⟨fun d hd => ?_, hsound⟩
      cases List.mem_singleton.mp hd
      exact htext
    · exact .inr ⟨⟨_, List.mem_singleton.mpr rfl, hbad⟩, hpanic⟩
  | output hp he hout herr =>
    refine .inl ⟨fun _ hd => absurd hd (by simp), ?_⟩
    show (afterCompiler r job _ _ _ _ _).Sound
    unfold afterCompiler
    split
    · exact launch_sound (.inr (.inr rfl)) _
    · trivial
  | program hp =>
    have hpiped : streamsPiped _ := hp ▸ hs
    refine .inl ⟨fun _ hd => absurd hd (by simp), ?_⟩
    show (afterSpawn job _).Sound
    unfold afterSpawn
    rw [if_pos hpiped]
    split <;> trivial
  | wrote hp hw =>
    refine .inl ⟨fun _ hd => absurd hd (by simp), ?_⟩
    rcases write_cases hw with ⟨-, rfl⟩ | ⟨-, -, rfl⟩ | ⟨-, -, -, rfl⟩ <;> trivial
  | _ => exact .inl ⟨fun _ hd => absurd hd (by simp), trivial⟩

theorem step_panicked {x : ExecStep} {ms : UInt64} (hp : s.phase = .panicked) :
    (machine r job).step s (.exec x ms) = none := by
  show s.exec r job x ms = none
  unfold State.exec
  rw [hp]

/-- **`execute` panics nowhere else.** -/
theorem sound_or_panicked {es : List Event} (h : Reaches (machine r job) .init es s) :
    s.phase.Sound ∨ s.phase = .panicked := by
  refine h.keeps (I := fun _ s => s.phase.Sound ∨ s.phase = .panicked) (.inl trivial) ?_
  intro es s l s' new _ hs hstep
  rcases l with ⟨x, ms⟩ | a
  · rcases hs with hs | hp
    · exact (exec_sound hs hstep).imp And.right And.right
    · exact absurd ((step_panicked hp).symm.trans hstep) (by simp)
  · cases hstep
    exact hs

/-- The streams of the program are pipes when it is spawned. -/
theorem streamsPiped_of_starting {es : List Event} {cmd : Command}
    (h : Reaches (machine r job) .init es s) (hp : s.phase = .starting cmd) : streamsPiped cmd := by
  rcases sound_or_panicked h with hsound | hpanic
  · have hstarting : Phase.Sound (.starting cmd) := hp ▸ hsound
    exact hstarting
  · exact absurd (hp.symm.trans hpanic) (by simp)

end

end CodeHive.Worker.Sandbox
