import CodeHive.Worker.Sandbox

/-! # Where a result comes from

A result of `execute` is assembled on one of four paths: the compiler failed, the runner did, the
process ended before the timeout, or it was killed. The history of the call says which. -/

namespace CodeHive.Worker.Outcomes

set_option autoImplicit false

open CodeHive.Concurrency.Interleaving CodeHive.Os.Process CodeHive.Worker.Types
open CodeHive.Worker.Commands CodeHive.Worker.Sandbox

/-- The process has neither been waited for nor killed. -/
def Quiet (es : List Event) : Prop := (∀ e, .waited e ∉ es) ∧ .killed ∉ es

/-- The errors with which the runner gives up: the standard input is refused, or the program is not
spawned, or waiting for it fails. -/
inductive GivenUp (r : Runner) : RunnerError → Prop
  | stdin : GivenUp r brokenPipe
  | spawn (e : String) : GivenUp r (r.spawnError e)
  | wait (e : String) : GivenUp r (.Spawn e)

/-- **The path on which a result was assembled.** -/
inductive Explained (r : Runner) (job : ExecutionJob) (es : List Event) (res : ExecutionResult) :
    Prop where
  | notCompiled (e : String) (ms : UInt64) (hes : Quiet es) (hres : res = compileFailed job e ms)
  | failed (e : RunnerError) (ms : UInt64) (he : GivenUp r e) (hes : Quiet es)
    (hres : res = executionFailed job e ms)
  | ended (stdout stderr : String) (e : Ending) (ms : UInt64)
    (hwaited : ∀ e', .waited e' ∈ es ↔ e' = e) (hkilled : .killed ∉ es)
    (hres : res = resultOf job (captured stdout stderr false (.ok e)) ms)
  | timedOut (stdout stderr : String) (ms : UInt64) (hwaited : ∀ e, .waited e ∉ es)
    (hkilled : .killed ∈ es)
    (hres : res = resultOf job
      (captured stdout stderr true (.error (.Timeout job.timeout_ms))) ms)

/-- What the `select!` has found. -/
inductive Selected (job : ExecutionJob) (es : List Event) : Bool → Except RunnerError Ending → Prop
  | ended {e : Ending} (hwaited : ∀ e', .waited e' ∈ es ↔ e' = e) (hkilled : .killed ∉ es) :
    Selected job es false (.ok e)
  | timedOut (hwaited : ∀ e, .waited e ∉ es) (hkilled : .killed ∈ es) :
    Selected job es true (.error (.Timeout job.timeout_ms))

/-- What the history says in each phase. -/
def Story (r : Runner) (job : ExecutionJob) (es : List Event) : Phase → Prop
  | .draining is_timed_out result => Selected job es is_timed_out result
  | .cleaning res => Explained r job es res
  | .returned (.ok res) => Explained r job es res
  | .returned (.error _) => True
  | .panicked => True
  | _ => Quiet es

section
variable {r : Runner} {job : ExecutionJob} {s s' : State} {es new : List Event}

theorem Story.at {p : Phase} (hs : Story r job es s.phase) (hp : s.phase = p) : Story r job es p := by
  rw [← hp]
  exact hs

/-- A step that leaves nothing in the history. -/
theorem Story.silent {p : Phase} (hs : Story r job es p) : Story r job (es ++ []) p := by
  rw [List.append_nil]
  exact hs

theorem Quiet.workDir (h : Quiet es) (dir : Path) : Quiet (es ++ [.workDir dir]) := by
  refine ⟨fun e he => h.1 e ?_, fun hk => h.2 ?_⟩
  · simpa using he
  · simpa using hk

/-- The program is about to be spawned, or the task is lost. -/
theorem story_launch (hes : Quiet es) (dir : Path) (bin : Option Path) :
    Story r job es (launch r job dir bin) := by
  unfold launch
  split
  · exact hes
  · trivial

theorem story_afterSource (hes : Quiet es) (dir : Path) :
    Story r job es (afterSource r job dir) := by
  unfold afterSource
  split
  · split
    · exact hes
    · trivial
  · exact story_launch hes dir none

theorem story_afterCompiler (hes : Quiet es) (dir : Path) (cmd : String) (status : Ending)
    (stderr : String) (ms : UInt64) :
    Story r job es (afterCompiler r job dir cmd status stderr ms) := by
  unfold afterCompiler
  split
  · exact story_launch hes dir _
  · exact .notCompiled _ ms hes rfl

theorem story_afterSpawn (hes : Quiet es) (cmd : Command) : Story r job es (afterSpawn job cmd) := by
  unfold afterSpawn
  split
  · split <;> exact hes
  · trivial

theorem story_write {left : ℕ} {ms : UInt64} (hes : Quiet es)
    (hw : s.write job left ms = some s') : Story r job es s'.phase := by
  rcases write_cases hw with ⟨-, rfl⟩ | ⟨-, -, rfl⟩ | ⟨-, -, -, rfl⟩
  · exact hes
  · exact .failed brokenPipe ms .stdin hes rfl
  · exact hes

/-- The process is waited for, or killed. -/
theorem story_waited (hes : Quiet es) (e : Ending) :
    Selected job (es ++ [.waited e]) false (.ok e) := by
  refine .ended (fun e' => ?_) fun hk => hes.2 (by simpa using hk)
  constructor
  · intro h
    rcases List.mem_append.mp h with h | h
    · exact absurd h (hes.1 e')
    · cases List.mem_singleton.mp h
      rfl
  · rintro rfl
    exact List.mem_append_right es (List.mem_singleton.mpr rfl)

theorem story_killed (hes : Quiet es) :
    Selected job (es ++ [.killed]) true (.error (.Timeout job.timeout_ms)) :=
  .timedOut (fun e he => hes.1 e (by simpa using he)) (List.mem_append_right es (by simp))

theorem story_drained {t : Bool} {result : Except RunnerError Ending} (h : Selected job es t result)
    (stdout stderr : String) (ms : UInt64) :
    Explained r job es (resultOf job (captured stdout stderr t result) ms) := by
  cases h with
  | ended hwaited hkilled => exact .ended stdout stderr _ ms hwaited hkilled rfl
  | timedOut hwaited hkilled => exact .timedOut stdout stderr ms hwaited hkilled rfl

/-- **A step tells on.** -/
theorem story_exec {x : ExecStep} {ms : UInt64} (hs : Story r job es s.phase)
    (h : s.exec r job x ms = some (s', new)) : Story r job (es ++ new) s'.phase := by
  cases move_of_exec h with
  | notPrepared hp => trivial
  | prepared hp =>
    have hes : Quiet es := hs.at hp
    exact story_afterSource (hes.workDir _) _
  | waited hp he =>
    have hes : Quiet es := hs.at hp
    exact story_waited hes _
  | killed hp =>
    have hes : Quiet es := hs.at hp
    exact story_killed hes
  | @drained t result stdout stderr ms hp hout herr =>
    have hes : Selected job es t result := hs.at hp
    exact .silent (story_drained hes _ _ _)
  | @removed res ms hp =>
    have hes : Explained r job es res := hs.at hp
    exact Story.silent hes
  | noCompiler hp =>
    have hes : Quiet es := hs.at hp
    exact .silent (.notCompiled _ _ hes rfl)
  | compiler hp =>
    have hes : Quiet es := hs.at hp
    exact Story.silent hes
  | output hp he hout herr =>
    have hes : Quiet es := hs.at hp
    exact .silent (story_afterCompiler hes _ _ _ _ _)
  | noProgram hp =>
    have hes : Quiet es := hs.at hp
    exact .silent (.failed _ _ (.spawn _) hes rfl)
  | program hp =>
    have hes : Quiet es := hs.at hp
    exact .silent (story_afterSpawn hes _)
  | wrote hp hw =>
    have hes : Quiet es := hs.at hp
    exact .silent (story_write hes hw)
  | waitFailed hp he =>
    have hes : Quiet es := hs.at hp
    exact .silent (.failed _ _ (.wait _) hes rfl)
  | timeout hp =>
    have hes : Quiet es := hs.at hp
    exact Story.silent hes

theorem story (h : Reaches (machine r job) .init es s) : Story r job es s.phase := by
  have hinit : Story r job [] State.init.phase :=
    ⟨fun e he => absurd he List.not_mem_nil, List.not_mem_nil⟩
  refine h.keeps (I := fun es s => Story r job es s.phase) hinit ?_
  intro es s l s' new _ hs hstep
  rcases l with ⟨x, ms⟩ | a
  · exact story_exec hs hstep
  · cases hstep
    exact hs.silent

/-- **Every result that `execute` returns is explained by its history.** -/
theorem explained {res : ExecutionResult} (h : Reaches (machine r job) .init es s)
    (hres : s.phase = .returned (.ok res)) : Explained r job es res := by
  have hstory := story h
  rw [hres] at hstory
  exact hstory

end

end CodeHive.Worker.Outcomes
