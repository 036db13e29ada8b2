import CodeHive.Api.Executor
import CodeHive.Os.Executions
import CodeHive.Text.Utf8

/-! # The child processes of the API

`runProcess` of `services/executor.ts`: what its promise settles to. A string has a greatest length,
and output that would exceed it is an exception in the listener, which ends the API. -/

namespace CodeHive.Api.Process

set_option autoImplicit false

open CodeHive.Js.Value CodeHive.Api.Types CodeHive.Api.Program CodeHive.Os.Process
open CodeHive.Os.Executions CodeHive.Text.Utf8

/-- `[...(cfg.args ?? []), file]`. -/
def args (cfg : LangCfg) (file : String) : List String := cfg.args.getD [] ++ [file]

/-! ### Starting a process -/

/-- What `spawn` does. -/
inductive Spawn where
  /-- It returns a process object with its three streams; that there is no process is an event. -/
  | streams
  /-- There are too many open files: it returns an object without streams, and emits `error`. -/
  | noStreams
  | throws (err : JsError)
  deriving DecidableEq

/-- Only the errors of some numbers are events. -/
def spawnOf : Outcome → Spawn
  | .notSpawned ⟨errno, message⟩ =>
    match errno with
    | .EACCES | .EAGAIN | .ENOENT => .streams
    | .EMFILE | .ENFILE => .noStreams
    | .other => .throws (.error message)
  | _ => .streams

/-- What `proc.stdout.on` throws where there is no `proc.stdout`. -/
def noStdout : JsError := .error "Cannot read properties of undefined (reading 'on')"

/-! ### The events -/

/-- What a callback may be called for. -/
inductive ProcEvent where
  | data (stream : Stream) (d : List UInt8)
  /-- `error` of `proc.stdin`. -/
  | stdinError
  | close (code : Option ℤ)
  /-- `error` of `proc`. -/
  | error (message : String)
  /-- The timer fires. -/
  | timeout
  deriving DecidableEq

/-- It is an event named `error`. -/
def ProcEvent.isError : ProcEvent → Bool
  | .stdinError => true
  | .error _ => true
  | _ => false

/-- It settles the promise. -/
def ProcEvent.isTerminal : ProcEvent → Bool
  | .close _ => true
  | .error _ => true
  | .timeout => true
  | _ => false

/-- How far a call is: what has been read, or what the promise is resolved to. -/
inductive Stage where
  | reading (stdout stderr : String)
  | settled (r : ProcResult)
  /-- The API has ended before. -/
  | lost

def Stage.next : Stage → ProcEvent → Stage
  | .reading stdout stderr, .data .stdout d =>
    (concat stdout (decode d)).elim .lost fun stdout => .reading stdout stderr
  | .reading stdout stderr, .data .stderr d =>
    (concat stderr (decode d)).elim .lost fun stderr => .reading stdout stderr
  -- nobody listens to this event
  | .reading _ _, .stdinError => .lost
  | .reading stdout stderr, .close code =>
    .settled ⟨stdout, stderr, (code.getD (-1) : ℤ), none⟩
  | .reading _ _, .error message => .settled ⟨"", message, -1, some message⟩
  | .reading _ _, .timeout =>
    .settled ⟨"", "Process killed: timeout exceeded", -1, some "timeout"⟩
  | s, _ => s

/-- What the promise is resolved to. -/
def Stage.result : Stage → Option ProcResult
  | .settled r => some r
  | _ => none

/-- What some events make of a call. -/
def resolved (es : List ProcEvent) : Stage := es.foldl Stage.next (.reading "" "")

/-- The event with which an execution comes to its end: `close` waits for the pipes, the timer does
not. -/
def lastEvent (x : Execution) : ProcEvent :=
  match x.outcome with
  | .ended e => if x.outputClosed = .inTime then .close (e.code.map Int32.toInt) else .timeout
  | .timedOut => .timeout
  | .notSpawned err => .error err.message

/-- The events of an execution. -/
def events (x : Execution) : List ProcEvent :=
  x.output.map (fun d => .data d.1 d.2) ++
    (if x.input = .refused then [.stdinError] else []) ++ [lastEvent x]

/-- `runProcess`: what its promise settles to, unless the API ends before. -/
def runProcess (x : Execution) : Option (Except JsError ProcResult) :=
  match spawnOf x.outcome with
  | .streams => (resolved (events x)).result.map .ok
  | .noStreams => some (.error noStdout)
  | .throws err => some (.error err)

/-! ### What an execution resolves to -/

/-- The text of a stream, chunk by chunk. -/
def textOf (output : List (Stream × List UInt8)) (stream : Stream) : String :=
  decodePieces (chunks output stream)

/-- Both texts are short enough for a string. -/
def Fits (output : List (Stream × List UInt8)) : Prop :=
  ∀ stream, utf16Length (textOf output stream) ≤ MAX_STRING_LENGTH

section
variable {output : List (Stream × List UInt8)} {stdout stderr : String} {x : Execution}

theorem foldl_lost (es : List ProcEvent) : es.foldl Stage.next .lost = .lost := by
  induction es with
  | nil => rfl
  | cons e es ih => cases e <;> exact ih

theorem foldl_settled (r : ProcResult) (es : List ProcEvent) :
    es.foldl Stage.next (.settled r) = .settled r := by
  induction es with
  | nil => rfl
  | cons e es ih => cases e <;> exact ih

theorem textOf_cons (d : Stream × List UInt8) (output : List (Stream × List UInt8))
    (stream : Stream) :
    textOf (d :: output) stream =
      (if d.1 = stream then decode d.2 else "") ++ textOf output stream := by
  unfold textOf decodePieces
  rw [chunks_cons, List.map_append, String.join_append]
  split_ifs <;> simp

/-- What the two texts are with `output` after them, if it fits. -/
def Room (stdout stderr : String) (output : List (Stream × List UInt8)) : Prop :=
  utf16Length (stdout ++ textOf output .stdout) ≤ MAX_STRING_LENGTH ∧
    utf16Length (stderr ++ textOf output .stderr) ≤ MAX_STRING_LENGTH

/-- What does not fit at first does not fit in the end. -/
theorem le_of_append_le {s t : String} {n : ℕ} (h : utf16Length (s ++ t) ≤ n) :
    utf16Length s ≤ n := by
  rw [utf16Length_append] at h
  omega

/-- **Data is appended as long as there is room.** -/
theorem foldl_data_of_room (h : Room stdout stderr output) :
    (output.map fun d => ProcEvent.data d.1 d.2).foldl Stage.next (.reading stdout stderr) =
      .reading (stdout ++ textOf output .stdout) (stderr ++ textOf output .stderr) := by
  induction output generalizing stdout stderr with
  | nil => simp [textOf, chunks, decodePieces]
  | cons d output ih =>
    obtain ⟨stream, d⟩ := d
    unfold Room at h
    rw [textOf_cons, textOf_cons] at h ⊢
    cases stream with
    | stdout =>
      simp only [if_pos, reduceCtorEq, if_false, String.empty_append, ← String.append_assoc] at h ⊢
      have hfits : concat stdout (decode d) = some (stdout ++ decode d) :=
        if_pos (le_of_append_le h.1)
      rw [List.map_cons, List.foldl_cons, Stage.next, hfits]
      exact ih h
    | stderr =>
      simp only [if_pos, reduceCtorEq, if_false, String.empty_append, ← String.append_assoc] at h ⊢
      have hfits : concat stderr (decode d) = some (stderr ++ decode d) :=
        if_pos (le_of_append_le h.2)
      rw [List.map_cons, List.foldl_cons, Stage.next, hfits]
      exact ih h

/-- **Data that does not fit ends the API.** -/
theorem foldl_data_of_not_room (hout : utf16Length stdout ≤ MAX_STRING_LENGTH)
    (herr : utf16Length stderr ≤ MAX_STRING_LENGTH) (h : ¬ Room stdout stderr output) :
    (output.map fun d => ProcEvent.data d.1 d.2).foldl Stage.next (.reading stdout stderr) =
      .lost := by
  induction output generalizing stdout stderr with
  | nil => exact absurd ⟨by simpa [textOf, chunks, decodePieces] using hout,
      by simpa [textOf, chunks, decodePieces] using herr⟩ h
  | cons d output ih =>
    obtain ⟨stream, d⟩ := d
    unfold Room at h
    rw [textOf_cons, textOf_cons] at h
    rw [List.map_cons, List.foldl_cons]
    cases stream with
    | stdout =>
      simp only [if_pos, reduceCtorEq, if_false, String.empty_append, ← String.append_assoc] at h
      by_cases hfits : utf16Length (stdout ++ decode d) ≤ MAX_STRING_LENGTH
      · rw [Stage.next, concat, if_pos hfits]
        exact ih hfits herr h
      · rw [Stage.next, concat, if_neg hfits]
        exact foldl_lost _
    | stderr =>
      simp only [if_pos, reduceCtorEq, if_false, String.empty_append, ← String.append_assoc] at h
      by_cases hfits : utf16Length (stderr ++ decode d) ≤ MAX_STRING_LENGTH
      · rw [Stage.next, concat, if_pos hfits]
        exact ih hout hfits h
      · rw [Stage.next, concat, if_neg hfits]
        exact foldl_lost _

theorem room_iff_fits : Room "" "" output ↔ Fits output := by
  unfold Room
  rw [String.empty_append, String.empty_append]
  constructor
  · rintro ⟨hout, herr⟩ stream
    cases stream with
    | stdout => exact hout
    | stderr => exact herr
  · exact fun h => ⟨h .stdout, h .stderr⟩

/-- **What the promise is resolved to** where the output fits and the input is not refused. -/
theorem resolved_events (hfits : Fits x.output) (hinput : x.input ≠ .refused) :
    resolved (events x) =
      Stage.next (.reading (textOf x.output .stdout) (textOf x.output .stderr)) (lastEvent x) := by
  unfold resolved events
  rw [if_neg hinput, List.append_nil, List.foldl_append, foldl_data_of_room (room_iff_fits.mpr hfits),
    String.empty_append, String.empty_append]
  rfl

/-- **Otherwise the API ends.** -/
theorem resolved_events_lost (h : ¬ (Fits x.output ∧ x.input ≠ .refused)) :
    resolved (events x) = .lost := by
  have hempty : utf16Length "" ≤ MAX_STRING_LENGTH := Nat.zero_le _
  unfold resolved events
  rw [List.foldl_append, List.foldl_append]
  by_cases hfits : Fits x.output
  · have hinput : x.input = .refused := by
      by_contra hnot
      exact h ⟨hfits, hnot⟩
    rw [foldl_data_of_room (room_iff_fits.mpr hfits), if_pos hinput]
    exact foldl_lost _
  · rw [foldl_data_of_not_room hempty hempty (room_iff_fits.not.mpr hfits), foldl_lost, foldl_lost]

/-- The API hears of the end of a process before the timeout, with all the output. -/
def Heard (x : Execution) : Prop :=
  x.outputClosed = .inTime ∧ x.input ≠ .refused ∧ Fits x.output

/-- What a process that ended with `e` resolves to. -/
def closedWith (x : Execution) (e : Ending) : ProcResult :=
  ⟨textOf x.output .stdout, textOf x.output .stderr, ((e.code.map Int32.toInt).getD (-1) : ℤ), none⟩

/-- An execution comes to its end with its process, at the timeout, or before it has begun. -/
theorem lastEvent_cases (x : Execution) :
    (∃ e, x.outcome = .ended e ∧ x.outputClosed = .inTime) ∨ lastEvent x = .timeout ∨
      ∃ message, lastEvent x = .error message := by
  unfold lastEvent
  cases x.outcome with
  | ended e =>
    by_cases hclosed : x.outputClosed = .inTime
    · exact Or.inl ⟨e, rfl, hclosed⟩
    · exact Or.inr (Or.inl (if_neg hclosed))
  | timedOut => exact Or.inr (Or.inl rfl)
  | notSpawned err => exact Or.inr (Or.inr ⟨err.message, rfl⟩)

theorem runProcess_of_heard {e : Ending} (ho : x.outcome = .ended e) (h : Heard x) :
    runProcess x = some (.ok (closedWith x e)) := by
  have hlast : lastEvent x = .close (e.code.map Int32.toInt) := by
    unfold lastEvent
    rw [ho]
    exact if_pos h.1
  unfold runProcess
  rw [ho]
  dsimp only [spawnOf]
  rw [resolved_events h.2.2 h.2.1, hlast]
  rfl

/-- **Whatever else the promise is resolved to has the code -1.** -/
theorem exitCode_of_runProcess {p : ProcResult} (h : runProcess x = some (.ok p)) :
    (∃ e, x.outcome = .ended e ∧ Heard x ∧ p = closedWith x e) ∨ p.exitCode = -1 := by
  have hstreams : (resolved (events x)).result = some p := by
    unfold runProcess at h
    split at h
    · simpa using h
    · cases h
    · cases h
  by_cases hquiet : Fits x.output ∧ x.input ≠ .refused
  · rw [resolved_events hquiet.1 hquiet.2] at hstreams
    rcases lastEvent_cases x with ⟨e, ho, hclosed⟩ | hlast | ⟨message, hlast⟩
    · have hheard : Heard x := ⟨hclosed, hquiet.2, hquiet.1⟩
      rw [runProcess_of_heard ho hheard] at h
      cases h
      exact .inl ⟨e, ho, hheard, rfl⟩
    · rw [hlast] at hstreams
      cases hstreams
      exact .inr rfl
    · rw [hlast] at hstreams
      cases hstreams
      exact .inr rfl
  · rw [resolved_events_lost hquiet] at hstreams
    cases hstreams

end

end CodeHive.Api.Process
