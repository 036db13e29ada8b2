import CodeHive.Worker.Reaping
import CodeHive.Worker.Timers

/-! # Which programs are judged by their exit

A program that has ended with exit code 0 is a success whatever it has read, as long as
`capture_output` comes to see how it has ended: it must not return through `?`, and the timer must
not be the branch that the `select!` takes. `execute` makes finitely many steps, so it comes to
rest; then it has returned, unless what the program has left behind blocks it. -/

namespace CodeHive.Worker.Judging

set_option autoImplicit false

open CodeHive.Concurrency.Interleaving CodeHive.Os.Process CodeHive.Worker.Types
open CodeHive.Worker.Commands CodeHive.Worker.Sandbox CodeHive.Worker.Milestones
open CodeHive.Worker.Reaping CodeHive.Worker.Timers

/-- The program is seen to have done well, and to have written `o`. -/
def Clean (o : String) (res : ExecutionResult) : Prop :=
  res.success = true ∧ res.stdout = o ∧ res.exit_code = some 0

/-- A step in which `capture_output` goes on to `child.wait`, and is not ended by the timer. -/
def SeesExit (s : State) (l : Label) : Prop := GoesThrough s l ∧ ∀ ms, l ≠ .exec .timeout ms

section
variable (r : Runner) (job : ExecutionJob)

/-- `execute` cannot go on. -/
def AtRest (s : State) : Prop := ∀ x ms, s.exec r job x ms = none

/-- How many bytes are to be written to the standard input. -/
def stdinSize : ℕ :=
  match job.stdin with
  | some data => data.utf8ByteSize
  | none => 0

/-- At most so many steps are left. -/
def rank : Phase → ℕ
  | .preparing => stdinSize job + 9
  | .linking _ _ _ => stdinSize job + 8
  | .compiling _ _ => stdinSize job + 7
  | .starting _ => stdinSize job + 6
  | .feeding left => left + 5
  | .waiting => 4
  | .killing => 3
  | .draining _ _ => 2
  | .cleaning _ => 1
  | .returned _ => 0
  | .panicked => 0

end

section
variable {r : Runner} {job : ExecutionJob} {s s' : State} {tr : List (State × Label)}
  {new : List Event}

/-! ### `execute` comes to rest -/

theorem rank_launch (dir : Path) (bin : Option Path) :
    rank job (launch r job dir bin) ≤ stdinSize job + 6 := by
  unfold launch
  split
  · exact le_rfl
  · exact Nat.zero_le _

theorem rank_afterSource (dir : Path) : rank job (afterSource r job dir) ≤ stdinSize job + 8 := by
  unfold afterSource
  split
  · split
    · exact le_rfl
    · exact Nat.zero_le _
  · have h : rank job (launch r job dir none) ≤ stdinSize job + 6 := rank_launch dir none
    omega

theorem rank_afterCompiler (dir : Path) (cmd : String) (status : Ending) (stderr : String)
    (elapsed : UInt64) :
    rank job (afterCompiler r job dir cmd status stderr elapsed) ≤ stdinSize job + 6 := by
  unfold afterCompiler
  split
  · exact rank_launch dir _
  · show 1 ≤ stdinSize job + 6
    omega

theorem rank_afterSpawn (cmd : Command) : rank job (afterSpawn job cmd) ≤ stdinSize job + 5 := by
  unfold afterSpawn stdinSize
  split
  · cases job.stdin with
    | none => show 4 ≤ 0 + 5; omega
    | some data => exact le_rfl
  · exact Nat.zero_le _

/-- **Every step of `execute` leaves fewer.** -/
theorem rank_lt {x : ExecStep} {elapsed : UInt64} (h : s.exec r job x elapsed = some (s', new)) :
    rank job s'.phase < rank job s.phase := by
  cases move_of_exec h with
  | notPrepared hp => rw [hp]; exact Nat.succ_pos _
  | prepared hp => rw [hp]; exact Nat.lt_succ_of_le (rank_afterSource _)
  | noCompiler hp => rw [hp]; show 1 < stdinSize job + 8; omega
  | compiler hp => rw [hp]; exact Nat.lt_succ_self _
  | output hp he hout herr => rw [hp]; exact Nat.lt_succ_of_le (rank_afterCompiler _ _ _ _ _)
  | noProgram hp => rw [hp]; show 1 < stdinSize job + 6; omega
  | program hp => rw [hp]; exact Nat.lt_succ_of_le (rank_afterSpawn _)
  | @wrote left elapsed s' hp hw =>
    rw [hp]
    rcases write_cases hw with ⟨-, rfl⟩ | ⟨-, -, rfl⟩ | ⟨hleft, -, hroom, rfl⟩
    · show 4 < left + 5
      omega
    · show 1 < left + 5
      omega
    · show left - min left s.child.room + 5 < left + 5
      omega
  | waited hp he => rw [hp]; show 2 < 4; omega
  | waitFailed hp he => rw [hp]; show 1 < 4; omega
  | timeout hp => rw [hp]; show 3 < 4; omega
  | killed hp => rw [hp]; show 2 < 3; omega
  | drained hp hout herr => rw [hp]; show 1 < 2; omega
  | removed hp => rw [hp]; show 0 < 1; omega

/-- **`execute` comes to rest**, within so many steps, whatever the process does no more. -/
theorem comes_to_rest (s : State) : ∃ tr s', Steps (machine r job) s tr s' ∧
    tr.length ≤ rank job s.phase ∧ AtRest r job s' := by
  induction hn : rank job s.phase using Nat.strong_induction_on generalizing s with
  | h n ih =>
    by_cases hrest : AtRest r job s
    · exact ⟨[], s, .refl, Nat.zero_le _, hrest⟩
    · unfold AtRest at hrest
      simp only [not_forall] at hrest
      obtain ⟨x, ms, hx⟩ := hrest
      obtain ⟨⟨s₁, new⟩, hstep⟩ := Option.ne_none_iff_exists'.mp hx
      have hlt : rank job s₁.phase < n := hn ▸ rank_lt hstep
      obtain ⟨tr, s', htr, hlen, hrest'⟩ := ih _ hlt s₁ rfl
      have hfirst : Steps (machine r job) s ([] ++ [(s, .exec x ms)]) s₁ := Steps.refl.step hstep
      refine ⟨_, s', hfirst.trans htr, ?_, hrest'⟩
      simp only [List.nil_append, List.cons_append, List.length_cons]
      omega

/-- **At rest, `execute` has finished or is blocked.** -/
theorem atRest_iff : AtRest r job s ↔ Blocked s ∨ Finished s.phase := by
  constructor
  · intro hrest
    by_contra hnot
    rw [not_or] at hnot
    have harmed := guarded_iff.mpr hnot.1 ⟨hnot.2, fun x ms _ => hrest x ms⟩ 0
    rw [hrest] at harmed
    exact absurd harmed (by simp)
  · rintro (hb | hf) x ms
    · exact hb.stuck x ms
    · unfold State.exec
      unfold Finished at hf
      split at hf
      case h_1 hp => rw [hp]
      case h_2 hp => rw [hp]
      case h_3 => exact hf.elim

/-! ### How it has come there -/

theorem seesExit_iff (s : State) (l : Label) :
    SeesExit s l ↔ milestone (s, l) ≠ some .gaveUp ∧ milestone (s, l) ≠ some .late := by
  unfold SeesExit
  rw [goesThrough_iff]
  refine and_congr_right fun _ => ?_
  obtain ⟨phase, child⟩ := s
  rcases l with ⟨x, elapsed⟩ | a
  · cases x with
    | wrote =>
      cases phase with
      | feeding left =>
        by_cases hbad : left ≠ 0 ∧ child.reader = false <;> simp [milestone, hbad]
      | _ => simp [milestone]
    | spawned answer => cases phase <;> cases answer <;> simp [milestone]
    | _ => cases phase <;> simp [milestone]
  · cases phase <;> simp [milestone]

/-- No step was the one that a milestone stands for. -/
theorem forall_seesExit_iff :
    (∀ x ∈ tr, SeesExit x.1 x.2) ↔ .gaveUp ∉ milestones tr ∧ .late ∉ milestones tr := by
  have hmem : ∀ m, m ∉ milestones tr ↔ ∀ x ∈ tr, milestone x ≠ some m := by
    intro m
    simp [milestones]
  rw [hmem, hmem, ← forall₂_and]
  exact forall₂_congr fun x _ => seesExit_iff x.1 x.2

/-- **A program that exits with 0 is judged by that exactly when `execute` comes to see it**: when
it is at rest, the program was given no input that nobody could read, no wait has failed, the timer
was not the branch that was taken, and no process that is left keeps `execute` waiting. -/
theorem clean_iff (r : Runner) (job : ExecutionJob) {tr : List (State × Label)} {s : State}
    (h : Steps (machine r job) .init tr s) (hspawned : Spawned tr) (hrest : AtRest r job s)
    {o : String} (hexit : s.child.ended = some (.exited 0))
    (hout : ∀ text, s.child.stdout = some text → text = o) :
    (∃ res, s.phase = .returned (.ok res) ∧ Clean o res) ↔
      (∀ x ∈ tr, SeesExit x.1 x.2) ∧ ¬ Blocked s := by
  have hc := course h
  rw [forall_seesExit_iff]
  constructor
  · rintro ⟨res, hp, hclean⟩
    have hnot : ¬ Blocked s := by
      unfold Blocked
      rw [hp]
      exact id
    rw [hp] at hc
    refine ⟨?_, hnot⟩
    cases hc with
    | returned hmade =>
      unfold Spawned at hspawned
      generalize milestones tr = ms at hmade hspawned ⊢
      cases hmade with
      | notSpawned => exact absurd hspawned List.not_mem_nil
      | gaveUp hs => exact absurd (hs.symm.trans hclean.1) Bool.false_ne_true
      | ended stderr ms he hout => simp
      | killed he hs => exact absurd (hs.symm.trans hclean.1) Bool.false_ne_true
  · rintro ⟨⟨hgave, hlate⟩, hnot⟩
    have hfinished : Finished s.phase := (atRest_iff.mp hrest).resolve_left hnot
    unfold Spawned at hspawned
    generalize milestones tr = ms at hc hspawned hgave hlate
    generalize hp : s.phase = p at hc hfinished
    cases hc with
    | @returned res ms hmade =>
      refine ⟨res, rfl, ?_⟩
      cases hmade with
      | notSpawned => exact absurd hspawned List.not_mem_nil
      | gaveUp hs => simp at hgave
      | ended stderr ms he ho =>
        obtain rfl : _ = Ending.exited 0 := Option.some.inj (he.symm.trans hexit)
        exact ⟨rfl, hout _ ho, rfl⟩
      | killed he hs => simp at hlate
    | failed e => exact absurd hspawned List.not_mem_nil
    | panicked => exact absurd hspawned List.not_mem_nil
    | _ => exact hfinished.elim

/-- The program that says its line again is judged by its exit. -/
theorem echo_clean : ∃ tr s res, Steps (machine Success.direct echo) .init tr s ∧
    s.phase = .returned (.ok res) ∧ Clean "hello\n" res := by
  obtain ⟨tr, s, res, h, hp, hexit, hout, hms⟩ := echo_runs
  have hspawned : Spawned tr := by
    unfold Spawned
    rw [hms]
    simp
  have hrest : AtRest Success.direct echo s := atRest_iff.mpr (.inr (by rw [hp]; trivial))
  have hsees : ∀ x ∈ tr, SeesExit x.1 x.2 := by
    rw [forall_seesExit_iff, hms]
    simp
  have hnot : ¬ Blocked s := by
    unfold Blocked
    rw [hp]
    exact id
  have hclean := (clean_iff Success.direct echo h hspawned hrest hexit
    fun _ htext => Option.some.inj (htext.symm.trans hout)).mpr ⟨hsees, hnot⟩
  exact ⟨tr, s, hclean.choose, h, hclean.choose_spec⟩

end

/-! ### Input that is not read -/

/-- The job `echo` with other input. -/
def fed (data : String) : ExecutionJob := { echo with stdin := some data }

/-- **More input than the pipe holds, and nobody reads it**: the program has ended with 0 and has
said "ok", but its job fails. -/
theorem unread_fails {data : String} {capacity : ℕ} (hpos : capacity ≠ 0)
    (hlong : capacity < data.utf8ByteSize) : ∃ tr s res,
      Steps (machine Success.direct (fed data)) .init tr s ∧ Spawned tr ∧
      (∀ x ∈ tr, ∀ ms, x.2 ≠ .exec .timeout ms) ∧ s.phase = .returned (.ok res) ∧
      s.child.ended = some (.exited 0) ∧ s.child.stdout = some "ok\n" ∧ res.success = false := by
  have hmin : min data.utf8ByteSize (capacity - 0) = capacity := min_eq_right hlong.le
  -- what the pipe holds is written
  have hfill : State.exec Success.direct (fed data)
      ⟨.feeding data.utf8ByteSize, .started capacity⟩ .wrote 1 =
        some (⟨.feeding (data.utf8ByteSize - capacity),
          ⟨none, capacity, capacity, true, none, none⟩⟩, []) := by
    simp only [State.exec, State.write, Child.started, Child.room, hmin]
    rw [if_neg (by omega), if_neg (by simp), if_neg (by omega)]
    simp
  -- the rest has no reader any more
  have hrefused : State.exec Success.direct (fed data)
      ⟨.feeding (data.utf8ByteSize - capacity),
        ⟨some (.exited 0), capacity, capacity, false, some "ok\n", some ""⟩⟩ .wrote 2 =
        some (⟨.cleaning (executionFailed (fed data) brokenPipe 2),
          ⟨some (.exited 0), capacity, capacity, false, some "ok\n", some ""⟩⟩, []) := by
    simp only [State.exec, State.write]
    rw [if_neg (by omega), if_pos trivial]
    rfl
  have hrun : Steps (machine Success.direct (fed data)) .init _ _ :=
    Steps.refl
    |>.step (l := .exec (.prepared (.ok (.ofString "/tmp/dir"))) 0) rfl
    |>.step (l := .exec (.spawned (.ok capacity)) 1) rfl
    |>.step (l := .exec .wrote 1) hfill
    |>.step (l := .process (.closesStdout "ok\n")) rfl
    |>.step (l := .process (.closesStderr "")) rfl
    |>.step (l := .process (.ends (.exited 0))) rfl
    |>.step (l := .process .closesStdin) rfl
    |>.step (l := .exec .wrote 2) hrefused
    |>.step (l := .exec .removed 3) rfl
  refine ⟨_, _, _, hrun, ?_, ?_, rfl, rfl, rfl, rfl⟩
  · have hspawn : milestone
        (State.init.goto (afterSource Success.direct (fed data) (.ofString "/tmp/dir")),
          .exec (.spawned (.ok capacity)) 1) = some .spawned := rfl
    refine List.mem_filterMap.mpr ⟨_, ?_, hspawn⟩
    simp only [List.mem_append, List.mem_singleton, true_or, or_true]
  · simp

/-- **Input of 65537 bytes for a program that does not read it**, through a pipe that holds 65536:
the program is not judged by its exit. -/
theorem long_input_not_clean : ∃ tr s res,
    Steps (machine Success.direct (fed (.ofList (List.replicate 65537 'a')))) .init tr s ∧
    Spawned tr ∧ (∀ x ∈ tr, ∀ ms, x.2 ≠ .exec .timeout ms) ∧ s.phase = .returned (.ok res) ∧
    s.child.ended = some (.exited 0) ∧ s.child.stdout = some "ok\n" ∧ ¬ Clean "ok\n" res := by
  have hlong : 65536 < (String.ofList (List.replicate 65537 'a')).utf8ByteSize := by
    rw [utf8ByteSize_replicate]
    omega
  obtain ⟨tr, s, res, h, hspawned, hlate, hp, hexit, hout, hs⟩ := unread_fails (by decide) hlong
  exact ⟨tr, s, res, h, hspawned, hlate, hp, hexit, hout, fun hclean =>
    absurd (hs.symm.trans hclean.1) Bool.false_ne_true⟩

end CodeHive.Worker.Judging
