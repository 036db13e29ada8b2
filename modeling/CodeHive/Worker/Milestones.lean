import CodeHive.Lists.Slots
import CodeHive.Worker.Success

/-! # The course of a call

What a call of `execute` has done with the program: spawned it, waited for it, killed it, or given
it up. The milestones are read off the steps of a run, and `Course` says which of them lie behind
the call in each phase. -/

namespace CodeHive.Worker.Milestones

set_option autoImplicit false

open CodeHive.Concurrency.Interleaving CodeHive.Os.Process CodeHive.Worker.Types
open CodeHive.Worker.Commands CodeHive.Worker.Sandbox

inductive Milestone where
  /-- The program is spawned, and `capture_output` is given the child. -/
  | spawned
  /-- `child.wait` has completed first. -/
  | waited
  /-- `sleep` has completed first. -/
  | late
  /-- The child is killed and waited for. -/
  | killed
  /-- `capture_output` returns through `?`. -/
  | gaveUp
  deriving DecidableEq

/-- The milestone that a step is. -/
def milestone (x : State × Label) : Option Milestone :=
  match x.1.phase, x.2 with
  | .starting _, .exec (.spawned (.ok _)) _ => some .spawned
  | .feeding left, .exec .wrote _ =>
    if left ≠ 0 ∧ x.1.child.reader = false then some .gaveUp else none
  | _, .exec .waited _ => some .waited
  | _, .exec (.waitFailed _) _ => some .gaveUp
  | _, .exec .timeout _ => some .late
  | _, .exec .killed _ => some .killed
  | _, _ => none

/-- The milestones of a run, in order. -/
def milestones (tr : List (State × Label)) : List Milestone := tr.filterMap milestone

theorem milestones_concat (tr : List (State × Label)) (x : State × Label) :
    milestones (tr ++ [x]) = milestones tr ++ (milestone x).toList :=
  Lists.Slots.filterMap_concat _ _ _

/-- **Where a result comes from.** -/
inductive Made (job : ExecutionJob) (c : Child) : ExecutionResult → List Milestone → Prop where
  /-- The program has not been spawned. -/
  | notSpawned (res : ExecutionResult) : Made job c res []
  | gaveUp {res : ExecutionResult} (hs : res.success = false) : Made job c res [.spawned, .gaveUp]
  | ended {e : Ending} {stdout : String} (stderr : String) (ms : UInt64)
    (he : c.ended = some e) (hout : c.stdout = some stdout) :
    Made job c (resultOf job (captured stdout stderr false (.ok e)) ms) [.spawned, .waited]
  | killed {res : ExecutionResult} (he : c.ended.isSome) (hs : res.success = false) :
    Made job c res [.spawned, .late, .killed]

/-- **The milestones behind a call**, in each phase. -/
inductive Course (job : ExecutionJob) (c : Child) : Phase → List Milestone → Prop where
  | preparing : Course job c .preparing []
  | linking (dir : Path) (cmd : String) (args : List Arg) : Course job c (.linking dir cmd args) []
  | compiling (dir : Path) (cmd : String) : Course job c (.compiling dir cmd) []
  | starting (cmd : Command) : Course job c (.starting cmd) []
  | feeding (left : ℕ) : Course job c (.feeding left) [.spawned]
  | waiting : Course job c .waiting [.spawned]
  | killing : Course job c .killing [.spawned, .late]
  | ended {e : Ending} (he : c.ended = some e) :
    Course job c (.draining false (.ok e)) [.spawned, .waited]
  | killed (e : RunnerError) (he : c.ended.isSome) :
    Course job c (.draining true (.error e)) [.spawned, .late, .killed]
  | cleaning {res : ExecutionResult} {ms : List Milestone} (h : Made job c res ms) :
    Course job c (.cleaning res) ms
  | returned {res : ExecutionResult} {ms : List Milestone} (h : Made job c res ms) :
    Course job c (.returned (.ok res)) ms
  | failed (e : String) : Course job c (.returned (.error e)) []
  | panicked : Course job c .panicked []

section
variable {r : Runner} {job : ExecutionJob} {s s' : State} {tr : List (State × Label)}
  {c : Child} {new : List Event} {ms : List Milestone}

/-! ### What a process does -/

theorem ended_act {e : Ending} (h : c.ended = some e) (a : Act) : (c.act a).ended = some e := by
  cases a with
  | ends e' =>
    unfold Child.act
    rw [h]
    rfl
  | _ => exact h

theorem stdout_act {text : String} (h : c.stdout = some text) (a : Act) :
    (c.act a).stdout = some text := by
  cases a with
  | closesStdout text' =>
    unfold Child.act
    rw [h]
    rfl
  | _ => exact h

theorem isSome_ended_act (h : c.ended.isSome) (a : Act) : (c.act a).ended.isSome := by
  obtain ⟨e, he⟩ := Option.isSome_iff_exists.mp h
  rw [ended_act he a]
  rfl

theorem Made.act {res : ExecutionResult} (h : Made job c res ms) (a : Act) :
    Made job (c.act a) res ms := by
  cases h with
  | notSpawned => exact .notSpawned res
  | gaveUp hs => exact .gaveUp hs
  | ended stderr ms he hout => exact .ended stderr ms (ended_act he a) (stdout_act hout a)
  | killed he hs => exact .killed (isSome_ended_act he a) hs

theorem Course.act {p : Phase} (h : Course job c p ms) (a : Act) : Course job (c.act a) p ms := by
  cases h with
  | preparing => exact .preparing
  | linking dir cmd args => exact .linking dir cmd args
  | compiling dir cmd => exact .compiling dir cmd
  | starting cmd => exact .starting cmd
  | feeding left => exact .feeding left
  | waiting => exact .waiting
  | killing => exact .killing
  | ended he => exact .ended (ended_act he a)
  | killed e he => exact .killed e (isSome_ended_act he a)
  | cleaning h => exact .cleaning (h.act a)
  | returned h => exact .returned (h.act a)
  | failed e => exact .failed e
  | panicked => exact .panicked

/-! ### What `execute` does -/

theorem course_launch (dir : Path) (bin : Option Path) : Course job c (launch r job dir bin) [] := by
  unfold launch
  split
  · exact .starting _
  · exact .panicked

theorem course_afterSource (dir : Path) : Course job c (afterSource r job dir) [] := by
  unfold afterSource
  split
  · split
    · exact .linking _ _ _
    · exact .panicked
  · exact course_launch dir none

theorem course_afterCompiler (dir : Path) (cmd : String) (status : Ending) (stderr : String)
    (elapsed : UInt64) : Course job c (afterCompiler r job dir cmd status stderr elapsed) [] := by
  unfold afterCompiler
  split
  · exact course_launch dir _
  · exact .cleaning (.notSpawned _)

theorem course_afterSpawn {cmd : Command} (hpiped : streamsPiped cmd) :
    Course job c (afterSpawn job cmd) [.spawned] := by
  unfold afterSpawn
  rw [if_pos hpiped]
  split
  · exact .feeding _
  · exact .waiting

/-- Killed, the child has ended. -/
theorem isSome_ended_kill (c : Child) : c.kill.ended.isSome := by
  unfold Child.kill Child.act
  cases c.ended <;> rfl

theorem Course.at {p : Phase} (h : Course job s.child s.phase ms) (hp : s.phase = p) :
    Course job s.child p ms := by
  rw [← hp]
  exact h

/-- **A step takes the course on.** -/
theorem course_exec {x : ExecStep} {elapsed : UInt64}
    (hpipes : ∀ cmd, s.phase = .starting cmd → streamsPiped cmd)
    (hc : Course job s.child s.phase ms) (h : s.exec r job x elapsed = some (s', new)) :
    Course job s'.child s'.phase (ms ++ (milestone (s, .exec x elapsed)).toList) := by
  cases move_of_exec h with
  | notPrepared hp =>
    cases hc.at hp
    simp only [milestone, hp]
    exact .failed _
  | prepared hp =>
    cases hc.at hp
    simp only [milestone, hp]
    exact course_afterSource _
  | noCompiler hp =>
    cases hc.at hp
    simp only [milestone, hp]
    exact .cleaning (.notSpawned _)
  | compiler hp =>
    cases hc.at hp
    simp only [milestone, hp]
    exact .compiling _ _
  | output hp he hout herr =>
    cases hc.at hp
    simp only [milestone, hp]
    exact course_afterCompiler _ _ _ _ _
  | noProgram hp =>
    cases hc.at hp
    simp only [milestone, hp]
    exact .cleaning (.notSpawned _)
  | program hp =>
    cases hc.at hp
    simp only [milestone, hp]
    exact course_afterSpawn (hpipes _ hp)
  | wrote hp hw =>
    cases hc.at hp
    simp only [milestone, hp]
    rcases write_cases hw with ⟨hleft, rfl⟩ | ⟨hleft, hreader, rfl⟩ | ⟨hleft, hreader, hroom, rfl⟩
    · rw [if_neg (fun hbad => hbad.1 hleft)]
      exact .waiting
    · rw [if_pos ⟨hleft, hreader⟩]
      exact .cleaning (.gaveUp rfl)
    · rw [if_neg (fun hbad => by simp [hreader] at hbad)]
      exact .feeding _
  | waited hp he =>
    cases hc.at hp
    simp only [milestone, hp]
    exact .ended he
  | waitFailed hp he =>
    cases hc.at hp
    simp only [milestone, hp]
    exact .cleaning (.gaveUp rfl)
  | timeout hp =>
    cases hc.at hp
    simp only [milestone, hp]
    exact .killing
  | killed hp =>
    cases hc.at hp
    simp only [milestone, hp]
    exact .killed _ (isSome_ended_kill _)
  | drained hp hout herr =>
    cases hc.at hp with
    | ended he =>
      simp only [milestone, hp]
      exact .cleaning (.ended _ _ he hout)
    | killed e he =>
      simp only [milestone, hp]
      exact .cleaning (.killed he rfl)
  | removed hp =>
    cases hc.at hp with
    | cleaning hmade =>
      simp only [milestone, hp]
      rw [Option.toList_none, List.append_nil]
      exact .returned hmade

/-- **Every run has its course.** -/
theorem course (h : Steps (machine r job) .init tr s) :
    Course job s.child s.phase (milestones tr) := by
  refine h.keeps (I := fun tr s => Course job s.child s.phase (milestones tr)) .preparing ?_
  intro tr s l s' new hs hc hstep
  rw [milestones_concat]
  rcases l with ⟨x, elapsed⟩ | a
  · obtain ⟨es, hes⟩ := hs.reaches
    exact course_exec (fun cmd hp => streamsPiped_of_starting hes hp) hc hstep
  · cases hstep
    have hnone : milestone (s, .process a) = none := by
      unfold milestone
      split <;> first | rfl | simp_all
    rw [hnone, Option.toList_none, List.append_nil]
    exact hc.act a

end

end CodeHive.Worker.Milestones
