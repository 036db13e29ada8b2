import CodeHive.Worker.Success

/-! # Which waits a timer ends

`execute` waits for the compiler, for its standard input to be taken, for the process to end and for
its outputs to be closed. What it waits for is up to code of the user; only the wait for the end of
the process is in a `select!` with a timer. -/

namespace CodeHive.Worker.Timers

set_option autoImplicit false

open CodeHive.Concurrency.Interleaving CodeHive.Os.Process CodeHive.Worker.Types
open CodeHive.Worker.Commands CodeHive.Worker.Sandbox

section
variable (r : Runner) (job : ExecutionJob)

/-- `execute` has returned, or the task is lost. -/
def Finished : Phase → Prop
  | .returned _ => True
  | .panicked => True
  | _ => False

/-- Only a process, or a timer, can make `execute` go on. -/
def Suspended (s : State) : Prop :=
  ¬ Finished s.phase ∧ ∀ x ms, x ≠ .timeout → s.exec r job x ms = none

/-- A timer ends the wait. -/
def TimerArmed (s : State) : Prop := ∀ ms, (s.exec r job .timeout ms).isSome

/-- **No wait is without its timer.** -/
def Guarded (s : State) : Prop := Suspended r job s → TimerArmed r job s

/-- What `execute` waits for has not come, and there is no timer. -/
def Blocked (s : State) : Prop :=
  match s.phase with
  | .compiling _ _ => s.child.ended = none ∨ s.child.stdout = none ∨ s.child.stderr = none
  | .feeding left => left ≠ 0 ∧ s.child.reader = true ∧ s.child.room = 0
  | .draining _ _ => s.child.stdout = none ∨ s.child.stderr = none
  | _ => False

/-- A step that begins no wait without a timer: it starts no compiler, it starts or continues to
write only what can be written, and it turns to the outputs only when they are closed. -/
def BeginsNoWait (s : State) : Label → Prop
  | .exec (.spawned (.ok capacity)) _ =>
    match s.phase with
    | .linking _ _ _ => False
    | _ => ∀ data, job.stdin = some data → data.utf8ByteSize = 0 ∨ capacity ≠ 0
  | .exec .wrote _ =>
    ∀ left, s.phase = .feeding left → left ≤ s.child.room ∨ s.child.reader = false
  | .exec .waited _ => s.child.stdout ≠ none ∧ s.child.stderr ≠ none
  | .exec .killed _ => s.child.stdout ≠ none ∧ s.child.stderr ≠ none
  | _ => True

end

section
variable {r : Runner} {job : ExecutionJob} {s s' : State} {new : List Event}

/-- A blocked call cannot go on, not even when time passes. -/
theorem Blocked.stuck (hb : Blocked s) (x : ExecStep) (ms : UInt64) : s.exec r job x ms = none := by
  by_contra hne
  obtain ⟨⟨s', new⟩, h⟩ := Option.ne_none_iff_exists'.mp hne
  unfold Blocked at hb
  cases move_of_exec h with
  | output hp he hout herr =>
    rw [hp] at hb
    rcases hb with hb | hb | hb
    · exact absurd (he.symm.trans hb) (by simp)
    · exact absurd (hout.symm.trans hb) (by simp)
    · exact absurd (herr.symm.trans hb) (by simp)
  | wrote hp hw =>
    rw [hp] at hb
    obtain ⟨hleft, hreader, hroom⟩ := hb
    rcases write_cases hw with ⟨h, -⟩ | ⟨-, h, -⟩ | ⟨-, -, h, -⟩
    · exact hleft h
    · exact absurd (hreader.symm.trans h) (by simp)
    · exact h hroom
  | drained hp hout herr =>
    rw [hp] at hb
    rcases hb with hb | hb
    · exact absurd (hout.symm.trans hb) (by simp)
    · exact absurd (herr.symm.trans hb) (by simp)
  | notPrepared hp | prepared hp | noCompiler hp | compiler hp | noProgram hp | program hp
  | waited hp | waitFailed hp | timeout hp | killed hp | removed hp =>
    rw [hp] at hb
    exact hb

theorem Blocked.not_guarded (hb : Blocked s) : ¬ Guarded r job s := by
  intro h
  have hopen : ¬ Finished s.phase := by
    intro hf
    unfold Blocked at hb
    unfold Finished at hf
    split at hf
    case h_1 hp => rw [hp] at hb; exact hb
    case h_2 hp => rw [hp] at hb; exact hb
    case h_3 => exact hf
  have harmed := h ⟨hopen, fun x ms _ => hb.stuck x ms⟩ 0
  rw [hb.stuck] at harmed
  exact absurd harmed (by simp)

/-- A call that can go on is not suspended. -/
theorem guarded_of_exec {x : ExecStep} (hx : x ≠ .timeout) (h : s.exec r job x 0 ≠ none) :
    Guarded r job s :=
  fun hs => absurd (hs.2 x 0 hx) h

/-- Writing goes on unless the pipe is full. -/
theorem write_ne_none {left : ℕ} {ms : UInt64}
    (h : left ≠ 0 → s.child.reader = true → s.child.room ≠ 0) : s.write job left ms ≠ none := by
  unfold State.write
  by_cases hleft : left = 0
  · rw [if_pos hleft]
    exact Option.some_ne_none _
  rw [if_neg hleft]
  by_cases hreader : s.child.reader = false
  · rw [if_pos hreader]
    exact Option.some_ne_none _
  · have hroom : s.child.room ≠ 0 := h hleft (by simpa using hreader)
    rw [if_neg hreader, if_neg hroom]
    exact Option.some_ne_none _

/-- **A wait is without a timer exactly where `execute` is blocked.** -/
theorem guarded_iff : Guarded r job s ↔ ¬ Blocked s := by
  refine ⟨fun h hb => hb.not_guarded h, fun hb => ?_⟩
  unfold Blocked at hb
  obtain ⟨phase, child⟩ := s
  cases phase with
  | preparing => exact guarded_of_exec (x := .prepared (.error "")) (by simp) (by simp [State.exec])
  | linking dir cmd args =>
    exact guarded_of_exec (x := .spawned (.ok 0)) (by simp) (by simp [State.exec])
  | compiling dir cmd =>
    simp only [not_or] at hb
    obtain ⟨status, hend⟩ := Option.ne_none_iff_exists'.mp hb.1
    obtain ⟨out, hout⟩ := Option.ne_none_iff_exists'.mp hb.2.1
    obtain ⟨err, herr⟩ := Option.ne_none_iff_exists'.mp hb.2.2
    exact guarded_of_exec (x := .output) (by simp) (by simp [State.exec, hend, hout, herr])
  | starting cmd => exact guarded_of_exec (x := .spawned (.ok 0)) (by simp) (by simp [State.exec])
  | feeding left =>
    have hwrite : State.write job ⟨.feeding left, child⟩ left 0 ≠ none :=
      write_ne_none fun hleft hreader hroom => hb ⟨hleft, hreader, hroom⟩
    exact guarded_of_exec (x := .wrote) (by simp) (by simpa [State.exec] using hwrite)
  | waiting => exact fun _ ms => rfl
  | killing => exact guarded_of_exec (x := .killed) (by simp) (by simp [State.exec])
  | draining t result =>
    simp only [not_or] at hb
    obtain ⟨out, hout⟩ := Option.ne_none_iff_exists'.mp hb.1
    obtain ⟨err, herr⟩ := Option.ne_none_iff_exists'.mp hb.2
    exact guarded_of_exec (x := .drained) (by simp) (by simp [State.exec, hout, herr])
  | cleaning result => exact guarded_of_exec (x := .removed) (by simp) (by simp [State.exec])
  | returned result => exact fun hs => absurd trivial hs.1
  | panicked => exact fun hs => absurd trivial hs.1

/-! ### Over a whole run -/

/-- What a process does never blocks the call. -/
theorem not_blocked_act (hb : ¬ Blocked s) (a : Act) :
    ¬ Blocked { s with child := s.child.act a } := by
  intro h
  refine hb ?_
  unfold Blocked at h ⊢
  split at h
  case h_1 hp =>
    rw [show s.phase = _ from hp]
    exact h.imp Child.ended_of_act (Or.imp Child.stdout_of_act Child.stderr_of_act)
  case h_2 hp =>
    rw [show s.phase = _ from hp]
    exact ⟨h.1, Child.reader_of_act h.2.1, Child.room_of_act h.2.2⟩
  case h_3 hp =>
    rw [show s.phase = _ from hp]
    exact h.imp Child.stdout_of_act Child.stderr_of_act
  case h_4 => exact h.elim

/-- Only a call that is launching, or has panicked, comes out of `launch`. -/
theorem not_blocked_launch (dir : Path) (bin : Option Path) (child : Child) :
    ¬ Blocked ⟨launch r job dir bin, child⟩ := by
  unfold launch
  split <;> exact id

theorem not_blocked_afterSource (dir : Path) (child : Child) :
    ¬ Blocked ⟨afterSource r job dir, child⟩ := by
  unfold afterSource
  split
  · split <;> exact id
  · exact not_blocked_launch dir none child

/-- Once the program runs, writing to it may have to wait. -/
theorem not_blocked_afterSpawn {cmd : Command} (hpiped : streamsPiped cmd) (capacity : ℕ) :
    ¬ Blocked ⟨afterSpawn job cmd, .started capacity⟩ ↔
      ∀ data, job.stdin = some data → data.utf8ByteSize = 0 ∨ capacity ≠ 0 := by
  unfold afterSpawn
  rw [if_pos hpiped]
  cases job.stdin with
  | none => simp [Blocked]
  | some data =>
    have hroom : (Child.started capacity).room = capacity := rfl
    have hreader : (Child.started capacity).reader = true := rfl
    simp only [Blocked, hroom, hreader, Option.some.injEq, forall_eq']
    tauto

/-- What does not fit into the pipe has to wait. -/
theorem not_blocked_write {left : ℕ} {ms ms' : UInt64} (hp : s.phase = .feeding left)
    (hw : s.write job left ms = some s') :
    ¬ Blocked s' ↔ BeginsNoWait job s (.exec .wrote ms') := by
  have hfine : BeginsNoWait job s (.exec .wrote ms') ↔
      left ≤ s.child.room ∨ s.child.reader = false := by
    unfold BeginsNoWait
    rw [hp]
    exact ⟨fun h => h left rfl, fun h l hl => by cases hl; exact h⟩
  rw [hfine]
  rcases write_cases hw with ⟨h0, rfl⟩ | ⟨-, hreader, rfl⟩ | ⟨h0, hreader, hroom, rfl⟩
  · exact ⟨fun _ => .inl (by omega), fun _ => id⟩
  · exact ⟨fun _ => .inr hreader, fun _ => id⟩
  · have hrest : s.child.room = s.child.capacity - s.child.buffered := rfl
    rw [hrest] at hroom
    unfold Blocked
    simp only [hreader, Child.room, Bool.true_eq_false, or_false, true_and]
    omega

theorem beginsNoWait_program {cmd : Command} (hp : s.phase = .starting cmd) (capacity : ℕ)
    (ms : UInt64) :
    BeginsNoWait job s (.exec (.spawned (.ok capacity)) ms) ↔
      ∀ data, job.stdin = some data → data.utf8ByteSize = 0 ∨ capacity ≠ 0 := by
  unfold BeginsNoWait
  rw [hp]

/-- **A step blocks the call exactly when it begins a wait without a timer.** -/
theorem not_blocked_step {l : Label} (hpipes : ∀ cmd, s.phase = .starting cmd → streamsPiped cmd)
    (hb : ¬ Blocked s) (h : (machine r job).step s l = some (s', new)) :
    ¬ Blocked s' ↔ BeginsNoWait job s l := by
  rcases l with ⟨x, ms⟩ | a
  · cases move_of_exec h with
    | notPrepared hp => exact ⟨fun _ => trivial, fun _ => id⟩
    | prepared hp => exact ⟨fun _ => trivial, fun _ => not_blocked_afterSource _ _⟩
    | noCompiler hp => exact ⟨fun _ => trivial, fun _ => id⟩
    | compiler hp =>
      unfold BeginsNoWait
      rw [hp]
      exact ⟨fun h => h (.inl rfl), False.elim⟩
    | output hp he hout herr =>
      refine ⟨fun _ => trivial, fun _ => ?_⟩
      unfold afterCompiler
      split
      · exact not_blocked_launch _ _ _
      · exact id
    | noProgram hp => exact ⟨fun _ => trivial, fun _ => id⟩
    | program hp =>
      rw [beginsNoWait_program hp]
      exact not_blocked_afterSpawn (hpipes _ hp) _
    | wrote hp hw => exact not_blocked_write hp hw
    | waited hp he => exact not_or
    | waitFailed hp he => exact ⟨fun _ => trivial, fun _ => id⟩
    | timeout hp => exact ⟨fun _ => trivial, fun _ => id⟩
    | killed hp => exact not_or
    | drained hp hout herr => exact ⟨fun _ => trivial, fun _ => id⟩
    | removed hp => exact ⟨fun _ => trivial, fun _ => id⟩
  · cases h
    exact ⟨fun _ => trivial, fun _ => not_blocked_act hb a⟩

end

/-- **In a run of `execute`, no wait is without its timer exactly when no step begins such a wait**:
the compiler is never started, the standard input fits into what its pipe has room for, and the
outputs are closed by the time the process has ended or is killed. -/
theorem guarded_iff_beginsNoWait (r : Runner) (job : ExecutionJob) {tr : List (State × Label)}
    {s : State} (h : Steps (machine r job) .init tr s) :
    (∀ x ∈ tr, Guarded r job x.1) ∧ Guarded r job s ↔ ∀ x ∈ tr, BeginsNoWait job x.1 x.2 := by
  have hinit : ¬ Blocked State.init := id
  refine h.always_iff (guarded_iff.mpr hinit) ?_
  intro es s l s' new hs hgood hstep
  rw [guarded_iff] at hgood ⊢
  exact not_blocked_step (fun cmd hp => streamsPiped_of_starting hs hp) hgood hstep

/-- The program ends, but one that it has started keeps the output open. -/
def daemon : List Label :=
  [.exec (.prepared (.ok (.ofString "/tmp/dir"))) 0, .exec (.spawned (.ok 65536)) 1,
    .process (.closesStderr ""), .process (.ends (.exited 0)), .exec .waited 10]

/-- **What a program leaves behind can hold `execute` for ever**: the timer has been dropped. -/
theorem daemon_not_guarded : ∃ es s, Reaches (machine Success.direct Success.script) .init es s ∧
    Suspended Success.direct Success.script s ∧ ¬ TimerArmed Success.direct Success.script s := by
  refine ⟨_, _, reaches_of_run
    (rfl : (machine Success.direct Success.script).run .init daemon = some _), ⟨id, ?_⟩, ?_⟩
  · intro x ms _
    cases x <;> rfl
  · intro h
    exact absurd (h 0) (by decide)

/-- A program that prints nothing and exits is waited for with a timer throughout. -/
theorem script_guarded : ∃ tr s, Steps (machine Success.direct Success.script) .init tr s ∧
    (∃ res, s.phase = .returned (.ok res)) ∧
    (∀ x ∈ tr, Guarded Success.direct Success.script x.1) ∧
    Guarded Success.direct Success.script s := by
  have hrun : Steps (machine Success.direct Success.script) .init _ _ :=
    Steps.refl
    |>.step (l := .exec (.prepared (.ok (.ofString "/tmp/dir"))) 0) rfl
    |>.step (l := .exec (.spawned (.ok 65536)) 1) rfl
    |>.step (l := .process (.closesStdout "")) rfl
    |>.step (l := .process (.closesStderr "")) rfl
    |>.step (l := .process (.ends (.exited 0))) rfl
    |>.step (l := .exec .waited 10) rfl
    |>.step (l := .exec .drained 10) rfl
    |>.step (l := .exec .removed 11) rfl
  refine ⟨_, _, hrun, ⟨_, rfl⟩, ?_⟩
  refine (guarded_iff_beginsNoWait _ _ hrun).mpr fun x hx => ?_
  simp only [List.nil_append, List.cons_append, List.mem_cons, List.not_mem_nil, or_false] at hx
  rcases hx with rfl | rfl | rfl | rfl | rfl | rfl | rfl | rfl
  all_goals try trivial
  · intro data hdata
    cases hdata

end CodeHive.Worker.Timers
