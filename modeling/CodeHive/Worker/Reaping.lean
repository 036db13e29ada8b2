import CodeHive.Worker.Milestones

/-! # Which children are waited for

`capture_output` waits for the child that it is given, or kills it and waits for it, and then
returns; but through `?` it returns at once. Then the directory is removed and the result is
reported while the program may still be running. -/

namespace CodeHive.Worker.Reaping

set_option autoImplicit false

open CodeHive.Concurrency.Interleaving CodeHive.Os.Process CodeHive.Worker.Types
open CodeHive.Worker.Commands CodeHive.Worker.Sandbox CodeHive.Worker.Milestones

/-- `capture_output` has been given a child. -/
def Spawned (tr : List (State × Label)) : Prop := .spawned ∈ milestones tr

/-- The child has been waited for, killed or not. -/
def WaitedFor (tr : List (State × Label)) : Prop :=
  .waited ∈ milestones tr ∨ .killed ∈ milestones tr

/-- `execute` has its result: it removes the directory and reports. -/
def HasResult : Phase → Prop
  | .cleaning _ => True
  | .returned _ => True
  | _ => False

/-- **If `capture_output` has returned, its child has ended and has been waited for.** -/
def Reaped (tr : List (State × Label)) (s : State) : Prop :=
  Spawned tr → HasResult s.phase → s.child.ended.isSome ∧ WaitedFor tr

/-- A step in which `capture_output` does not return through `?`: no write to a pipe that nobody can
read any more, and no `wait` that fails. -/
def GoesThrough (s : State) : Label → Prop
  | .exec .wrote _ => ∀ left, s.phase = .feeding left → left = 0 ∨ s.child.reader = true
  | .exec (.waitFailed _) _ => False
  | _ => True

section
variable {r : Runner} {job : ExecutionJob} {s : State} {tr : List (State × Label)}

theorem goesThrough_iff (s : State) (l : Label) :
    GoesThrough s l ↔ milestone (s, l) ≠ some .gaveUp := by
  obtain ⟨phase, child⟩ := s
  rcases l with ⟨x, elapsed⟩ | a
  · cases x with
    | wrote =>
      cases phase with
      | feeding left =>
        cases hreader : child.reader <;> simp [GoesThrough, milestone, hreader]
      | _ => simp [GoesThrough, milestone]
    | waitFailed e => cases phase <;> simp [GoesThrough, milestone]
    | spawned answer => cases phase <;> cases answer <;> simp [GoesThrough, milestone]
    | _ => cases phase <;> simp [GoesThrough, milestone]
  · cases phase <;> simp [GoesThrough, milestone]

/-- **Only a child that was given up is not waited for.** -/
theorem reaped_iff (h : Steps (machine r job) .init tr s) :
    Reaped tr s ↔ .gaveUp ∉ milestones tr := by
  have hc := course h
  unfold Reaped Spawned WaitedFor
  generalize s.phase = p, milestones tr = ms at hc ⊢
  have hmade : ∀ {res : ExecutionResult}, Made job s.child res ms →
      ((.spawned ∈ ms → True → s.child.ended.isSome ∧ (.waited ∈ ms ∨ .killed ∈ ms)) ↔
        .gaveUp ∉ ms) := by
    intro res hmade
    cases hmade with
    | notSpawned => simp
    | gaveUp hs => simp
    | ended stderr ms he hout => simp [he]
    | killed he hs => simp [he]
  cases hc with
  | cleaning hres => exact hmade hres
  | returned hres => exact hmade hres
  | failed e => simp
  | _ => simp [HasResult]

/-- **In a run of `execute`, no process outlives its job exactly when `capture_output` never returns
through `?`.** -/
theorem reaped_iff_goesThrough (r : Runner) (job : ExecutionJob) {tr : List (State × Label)}
    {s : State} (h : Steps (machine r job) .init tr s) :
    Throughout Reaped tr s ↔ ∀ x ∈ tr, GoesThrough x.1 x.2 := by
  refine h.throughout_iff ?_ ?_
  · exact fun hspawned => absurd hspawned List.not_mem_nil
  intro tr s l s' new hs hgood hstep
  rw [reaped_iff hs] at hgood
  rw [reaped_iff (hs.step hstep), goesThrough_iff, milestones_concat, List.mem_append, not_or]
  exact (and_iff_right hgood).trans (not_congr Option.mem_toList)

/-- A Python job with standard input. -/
def echo : ExecutionJob := ⟨"job", "...", .python, 5000, none, some "hello\n", none⟩

/-- **A program can outlive its job**: it closes its standard input before that is written, and
runs on. The directory is removed and the result is reported meanwhile. -/
theorem child_outlives_job : ∃ tr s res, Steps (machine Success.direct echo) .init tr s ∧
    s.phase = .returned (.ok res) ∧ s.child.ended = none ∧ ¬ Reaped tr s := by
  have hrun : Steps (machine Success.direct echo) .init _ _ :=
    Steps.refl
    |>.step (l := .exec (.prepared (.ok (.ofString "/tmp/dir"))) 0) rfl
    |>.step (l := .exec (.spawned (.ok 65536)) 1) rfl
    |>.step (l := .process .closesStdin) rfl
    |>.step (l := .exec .wrote 1) rfl
    |>.step (l := .exec .removed 2) rfl
  refine ⟨_, _, _, hrun, rfl, rfl, fun hreaped => (reaped_iff hrun).mp hreaped ?_⟩
  show Milestone.gaveUp ∈ [Milestone.spawned, .gaveUp]
  simp

/-- A program that reads its line, says it again and exits. -/
theorem echo_runs : ∃ tr s res, Steps (machine Success.direct echo) .init tr s ∧
    s.phase = .returned (.ok res) ∧ s.child.ended = some (.exited 0) ∧
    s.child.stdout = some "hello\n" ∧ milestones tr = [.spawned, .waited] := by
  have hrun : Steps (machine Success.direct echo) .init _ _ :=
    Steps.refl
    |>.step (l := .exec (.prepared (.ok (.ofString "/tmp/dir"))) 0) rfl
    |>.step (l := .exec (.spawned (.ok 65536)) 1) rfl
    |>.step (l := .exec .wrote 1) rfl
    |>.step (l := .exec .wrote 1) rfl
    |>.step (l := .process (.reads 6)) rfl
    |>.step (l := .process (.closesStdout "hello\n")) rfl
    |>.step (l := .process (.closesStderr "")) rfl
    |>.step (l := .process (.ends (.exited 0))) rfl
    |>.step (l := .exec .waited 10) rfl
    |>.step (l := .exec .drained 10) rfl
    |>.step (l := .exec .removed 11) rfl
  exact ⟨_, _, _, hrun, rfl, rfl, rfl, rfl⟩

/-- It is waited for. -/
theorem echo_reaped : ∃ tr s res, Steps (machine Success.direct echo) .init tr s ∧
    s.phase = .returned (.ok res) ∧ Throughout Reaped tr s := by
  obtain ⟨tr, s, res, h, hp, -, -, hms⟩ := echo_runs
  refine ⟨tr, s, res, h, hp, (reaped_iff_goesThrough _ _ h).mpr fun x hx => ?_⟩
  refine (goesThrough_iff x.1 x.2).mpr fun hgave => ?_
  have hmem : .gaveUp ∈ milestones tr := List.mem_filterMap.mpr ⟨x, hx, hgave⟩
  rw [hms] at hmem
  simp at hmem

end

end CodeHive.Worker.Reaping
