import CodeHive.Os.Process

/-! # Executions of commands

How the execution of a command comes to an end, and what its parent observes of it. The process and
its pipes are two things: descendants may hold the pipes after the process has ended. -/

namespace CodeHive.Os.Executions

set_option autoImplicit false

open CodeHive.Os.Process

/-- The numbers of errors with which a process is not started, as far as they make a difference. -/
inductive Errno where
  | EACCES
  | EAGAIN
  | EMFILE
  | ENFILE
  | ENOENT
  | other
  deriving DecidableEq

/-- Why a process was not started. -/
structure SpawnError where
  errno : Errno
  message : String
  deriving DecidableEq

/-- How the process comes to its end. -/
inductive Outcome where
  /-- It ends by itself, before any timeout. -/
  | ended (e : Ending)
  /-- It is killed at the timeout. -/
  | timedOut
  /-- There has not been a process. -/
  | notSpawned (err : SpawnError)
  deriving DecidableEq

/-- When something has come about: before the timeout, or after it. -/
inductive Moment where
  | inTime
  | late
  | never
  deriving DecidableEq

/-- What becomes of the standard input. -/
inductive InputFate where
  /-- Nothing is left of it from that moment on. -/
  | taken (m : Moment)
  /-- A write failed because nobody could read it any more. -/
  | refused
  deriving DecidableEq

inductive Stream where
  | stdout
  | stderr
  deriving DecidableEq

/-- An execution, as its parent observes it. -/
structure Execution where
  outcome : Outcome
  /-- What is read from the two pipes, chunk by chunk. -/
  output : List (Stream × List UInt8)
  /-- When the last writer of the two pipes is gone. -/
  outputClosed : Moment
  input : InputFate

/-- There has been a process. -/
def Execution.Spawned (x : Execution) : Prop := ∀ err, x.outcome ≠ .notSpawned err

/-- Somebody holds a pipe for ever: who waits for both ends of it never goes on. -/
def Execution.Stuck (x : Execution) : Prop := x.outputClosed = .never ∨ x.input = .taken .never

/-- The pipes are done with before the timeout. -/
def Execution.Prompt (x : Execution) : Prop :=
  x.outputClosed = .inTime ∧ (x.input = .refused ∨ x.input = .taken .inTime)

instance (x : Execution) : Decidable x.Stuck :=
  inferInstanceAs (Decidable (x.outputClosed = .never ∨ x.input = .taken .never))

instance (x : Execution) : Decidable x.Prompt :=
  inferInstanceAs (Decidable (x.outputClosed = .inTime ∧
    (x.input = .refused ∨ x.input = .taken .inTime)))

theorem Execution.not_stuck_of_prompt {x : Execution} (h : x.Prompt) : ¬ x.Stuck := by
  rintro (hclosed | hinput)
  · rw [h.1] at hclosed
    cases hclosed
  · rcases h.2 with hrefused | htaken
    · rw [hrefused] at hinput
      cases hinput
    · rw [htaken] at hinput
      cases hinput

/-- The chunks of a stream. -/
def chunks (output : List (Stream × List UInt8)) (stream : Stream) : List (List UInt8) :=
  (output.filter (·.1 = stream)).map (·.2)

/-- What was written to a stream. -/
def written (output : List (Stream × List UInt8)) (stream : Stream) : List UInt8 :=
  (chunks output stream).flatten

theorem chunks_cons (d : Stream × List UInt8) (output : List (Stream × List UInt8))
    (stream : Stream) :
    chunks (d :: output) stream = (if d.1 = stream then [d.2] else []) ++ chunks output stream := by
  unfold chunks
  by_cases hd : d.1 = stream
  · rw [List.filter_cons_of_pos (by simpa using hd), if_pos hd]
    rfl
  · rw [List.filter_cons_of_neg (by simpa using hd), if_neg hd]
    rfl

end CodeHive.Os.Executions
