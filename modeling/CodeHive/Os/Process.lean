import Mathlib.Data.List.Basic

/-! # Child processes

What a program names when it starts another one, and what the other one and its descendants do to
the three pipes between them. Output is text here, as its reader decodes it. -/

namespace CodeHive.Os.Process

set_option autoImplicit false

/-! ### Paths -/

/-- A path is a string of bytes, which need not be text. -/
structure Path where
  bytes : ByteArray

/-- The path as text, if it is UTF-8. -/
def Path.to_str (p : Path) : Option String := String.fromUTF8? p.bytes

def Path.join (p : Path) (name : String) : Path := ⟨p.bytes ++ ("/" ++ name).toByteArray⟩

/-- The last component of a path that ends in a name. -/
def Path.file_name (p : Path) : Path :=
  ⟨⟨((p.bytes.toList.reverse.takeWhile (· ≠ '/'.toNat.toUInt8)).reverse).toArray⟩⟩

/-- The path that a text is. -/
def Path.ofString (s : String) : Path := ⟨s.toByteArray⟩

theorem Path.to_str_ofString (s : String) : (Path.ofString s).to_str = some s := by
  unfold Path.to_str String.fromUTF8?
  have hs : (Path.ofString s).bytes.IsValidUTF8 := s.isValidUTF8
  rw [dif_pos hs]
  rfl

/-- **Below a directory whose path is text, paths are text.** -/
theorem Path.isSome_to_str_join {p : Path} (h : p.to_str.isSome) (name : String) :
    (p.join name).to_str.isSome := by
  unfold Path.to_str String.fromUTF8? at h ⊢
  have hp : p.bytes.IsValidUTF8 := by
    by_contra hnot
    rw [dif_neg hnot] at h
    exact absurd h Bool.false_ne_true
  have hjoin : (p.join name).bytes.IsValidUTF8 := hp.append ("/" ++ name).isValidUTF8
  rw [dif_pos hjoin]
  rfl

/-! ### Commands -/

/-- What a standard stream of a new process is connected to. -/
inductive Stdio where
  | inherit
  | null
  | piped
  deriving DecidableEq

/-- An argument of a command: text, a path, or a directory displayed in front of where it is
mounted. -/
inductive Arg where
  | str (s : String)
  | path (p : Path)
  | volume (p : Path) (dir : String)

structure Command where
  program : Arg
  args : List Arg := []
  envs : List (String × String) := []
  current_dir : Option Path := none
  stdin : Stdio := .inherit
  stdout : Stdio := .inherit
  stderr : Stdio := .inherit

/-- All three streams are pipes. -/
def Command.piped (c : Command) : Command :=
  { c with stdin := .piped, stdout := .piped, stderr := .piped }

/-! ### Processes -/

/-- How a process ended. -/
inductive Ending where
  | exited (code : Int32)
  | signaled (signal : ℕ)
  deriving DecidableEq

/-- The exit code; a process that a signal ended has none. -/
def Ending.code : Ending → Option Int32
  | .exited n => some n
  | .signaled _ => none

def SIGKILL : ℕ := 9

/-- Whether the process reports success. -/
def Ending.success (e : Ending) : Bool := e.code = some 0

theorem Ending.success_iff {e : Ending} : e.success ↔ e = .exited 0 := by
  unfold Ending.success
  cases e with
  | exited n => simp [Ending.code]
  | signaled g => simp [Ending.code]

/-- A process as its parent sees it. -/
structure Child where
  ended : Option Ending
  /-- How many bytes the pipe to its standard input holds at most, and how many it holds. -/
  capacity : ℕ
  buffered : ℕ
  /-- Whether anyone can still read that pipe. -/
  reader : Bool
  /-- What was written to its output, from the moment on when nobody can write to it any more. -/
  stdout : Option String
  stderr : Option String
  deriving DecidableEq

/-- The process has just been started. -/
def Child.started (capacity : ℕ) : Child := ⟨none, capacity, 0, true, none, none⟩

/-- How many bytes can be written at once. -/
def Child.room (c : Child) : ℕ := c.capacity - c.buffered

/-- Text with a given number of bytes. -/
theorem utf8ByteSize_replicate (n : ℕ) :
    (String.ofList (List.replicate n 'a')).utf8ByteSize = n := by
  induction n with
  | zero => rfl
  | succ n ih =>
    rw [List.replicate_succ', String.ofList_append, String.utf8ByteSize_append, ih]
    rfl

/-- What the process and its descendants do. -/
inductive Act where
  /-- Bytes of the standard input are read. -/
  | reads (n : ℕ)
  /-- The last reader of the standard input is gone. -/
  | closesStdin
  /-- The process ends; its descendants need not. -/
  | ends (e : Ending)
  /-- The last writer of the output is gone, and this was written. -/
  | closesStdout (text : String)
  | closesStderr (text : String)

/-- The process after an act; it ends once, and a closed pipe stays closed. -/
def Child.act (c : Child) : Act → Child
  | .reads n => { c with buffered := c.buffered - n }
  | .closesStdin => { c with reader := false }
  | .ends e => { c with ended := c.ended.or (some e) }
  | .closesStdout text => { c with stdout := c.stdout.or (some text) }
  | .closesStderr text => { c with stderr := c.stderr.or (some text) }

section
variable {c : Child} {a : Act}

/-- What was not there after an act was not there before. -/
theorem Child.ended_of_act (h : (c.act a).ended = none) : c.ended = none := by
  cases a with
  | ends e => exact (Option.or_eq_none_iff.mp h).1
  | _ => exact h

theorem Child.stdout_of_act (h : (c.act a).stdout = none) : c.stdout = none := by
  cases a with
  | closesStdout text => exact (Option.or_eq_none_iff.mp h).1
  | _ => exact h

theorem Child.stderr_of_act (h : (c.act a).stderr = none) : c.stderr = none := by
  cases a with
  | closesStderr text => exact (Option.or_eq_none_iff.mp h).1
  | _ => exact h

theorem Child.reader_of_act (h : (c.act a).reader = true) : c.reader = true := by
  cases a with
  | closesStdin => exact absurd h Bool.false_ne_true
  | _ => exact h

/-- Reading makes room. -/
theorem Child.room_of_act (h : (c.act a).room = 0) : c.room = 0 := by
  cases a with
  | reads n =>
    have hroom : c.capacity - (c.buffered - n) = 0 := h
    unfold Child.room
    omega
  | _ => exact h

end

/-- The process is killed, unless it has ended. -/
def Child.kill (c : Child) : Child := c.act (.ends (.signaled SIGKILL))

end CodeHive.Os.Process
