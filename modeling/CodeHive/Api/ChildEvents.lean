import CodeHive.Api.Process
import CodeHive.Concurrency.Interleaving

/-! # The events of a child process

A call of `runProcess` of `services/executor.ts`, callback by callback: `spawn` has been called, and
the standard input is handed over. From then on the child does what it wants, its objects emit
events, and the timer may fire. An exception in a callback ends the API, and so does an `error` that
nobody listens to.

Main results: `settles_by_first_iff` (what the promise is settled to), `recorded_iff_aligned` (what
is recorded of a stream) and `errors_heard_iff` (which runs are survived). -/

namespace CodeHive.Api.ChildEvents

set_option autoImplicit false

open CodeHive.Concurrency.Interleaving CodeHive.Js.Value CodeHive.Os.Process CodeHive.Os.Executions
open CodeHive.Api.Types CodeHive.Api.Program CodeHive.Api.Process CodeHive.Text.Utf8

/-! ### The callbacks -/

/-- Somebody has called `on` for it, or `setTimeout`; without `proc.stdout` no `on` is reached. -/
def hasListener (spawn : Spawn) : ProcEvent → Bool
  | .stdinError => false
  | .timeout => true
  | _ => spawn = .streams

structure State where
  /-- What `spawn` has done. -/
  spawn : Spawn
  stdout : String
  stderr : String
  /-- `timeoutId` is neither cleared nor has it fired. -/
  armed : Bool
  promise : Option (Except JsError ProcResult)
  /-- How many bytes of the standard input `proc.stdin` still has to write. -/
  left : ℕ
  child : Child
  /-- An exception that nobody catches has been thrown; that ends the API. -/
  uncaught : Bool

inductive Event where
  | emitted (e : ProcEvent)
  /-- `SIGKILL` is sent. -/
  | killed
  /-- The promise is resolved; later calls of `resolve` do nothing. -/
  | settled (r : ProcResult)
  deriving DecidableEq

/-- `runProcess` has returned; `''` is not written. What is thrown inside `new Promise` rejects it;
the timer is set before `proc.stdout.on` throws. -/
def State.init (spawn : Spawn) (stdin : Option String) (capacity : ℕ) : State :=
  match spawn with
  | .streams =>
    ⟨.streams, "", "", true, none, (stdin.getD "").utf8ByteSize, .started capacity, false⟩
  | .noStreams => ⟨.noStreams, "", "", true, some (.error noStdout), 0, .started capacity, false⟩
  | .throws err => ⟨.throws err, "", "", false, some (.error err), 0, .started capacity, false⟩

/-- `resolve(r)`. -/
def State.resolve (s : State) (r : ProcResult) : State × List Event :=
  match s.promise with
  | none => ({ s with promise := some (.ok r) }, [.settled r])
  | some _ => (s, [])

/-- `clearTimeout(timeoutId)`. -/
def State.clearTimeout (s : State) : State := { s with armed := false }

/-- The callback for an event. -/
def State.callback (s : State) : ProcEvent → State × List Event
  | .data .stdout d =>
    match concat s.stdout (decode d) with
    | some stdout => ({ s with stdout }, [])
    | none => ({ s with uncaught := true }, [])
  | .data .stderr d =>
    match concat s.stderr (decode d) with
    | some stderr => ({ s with stderr }, [])
    | none => ({ s with uncaught := true }, [])
  | .close code => s.clearTimeout.resolve ⟨s.stdout, s.stderr, (code.getD (-1) : ℤ), none⟩
  | .error message => s.clearTimeout.resolve ⟨"", message, -1, some message⟩
  | .timeout =>
    let (s', es) := State.resolve { s with armed := false, child := s.child.kill }
      ⟨"", "Process killed: timeout exceeded", -1, some "timeout"⟩
    (s', .killed :: es)
  -- nobody listens
  | .stdinError => (s, [])

/-- An event is emitted; an `error` that nobody listens to is thrown. -/
def State.emit (s : State) (e : ProcEvent) : State × List Event :=
  if hasListener s.spawn e then ((s.callback e).1, .emitted e :: (s.callback e).2)
  else ({ s with uncaught := s.uncaught || e.isError }, [.emitted e])

/-! ### The machine -/

inductive Label where
  | process (a : Act)
  /-- `proc.stdin` writes what there is room for, or is refused. -/
  | flush
  /-- `proc` is told that there is no process any more, and destroys `proc.stdin`. -/
  | exit
  | data (stream : Stream) (d : List UInt8)
  | close (code : Option ℤ)
  | error (message : String)
  | timeout

/-- `proc.stdin` writes; it waits while the pipe is full. -/
def State.flush (s : State) : Option (State × List Event) :=
  if s.left = 0 then none
  else if s.child.reader = false then some (State.emit { s with left := 0 } .stdinError)
  else if s.child.room = 0 then none
  else
    let n := min s.left s.child.room
    some ({ s with left := s.left - n, child := { s.child with buffered := s.child.buffered + n } },
      [])

/-- What comes next. An object without streams only says why. -/
def State.next (s : State) (l : Label) : Option (State × List Event) :=
  match s.spawn, l with
  | .throws _, _ => none
  | _, .error message => some (s.emit (.error message))
  | _, .timeout => if s.armed then some (s.emit .timeout) else none
  | .noStreams, _ => none
  | .streams, .process a => some ({ s with child := s.child.act a }, [])
  | .streams, .flush => s.flush
  | .streams, .exit => some ({ s with left := 0 }, [])
  | .streams, .data stream d => some (s.emit (.data stream d))
  | .streams, .close code => some (s.emit (.close code))

/-- `runProcess` after its return, with the child beside it. -/
def machine : Automaton State Label Event where
  step s l := if s.uncaught then none else s.next l

/-! ### What a run has shown -/

/-- The events of a run, in order. -/
def emitted (es : List Event) : List ProcEvent :=
  es.filterMap fun
    | .emitted e => some e
    | _ => none

/-- What the promise was resolved to. -/
def settlements (es : List Event) : List ProcResult :=
  es.filterMap fun
    | .settled r => some r
    | _ => none

/-- The chunks of a stream. -/
def chunksOf (stream : Stream) (seen : List ProcEvent) : List (List UInt8) :=
  seen.filterMap fun
    | .data stream' d => if stream' = stream then some d else none
    | _ => none

/-- What a terminal event resolves the promise to, after what was seen. -/
def value (seen : List ProcEvent) : ProcEvent → ProcResult
  | .close code =>
    ⟨decodePieces (chunksOf .stdout seen), decodePieces (chunksOf .stderr seen),
      (code.getD (-1) : ℤ), none⟩
  | .error message => ⟨"", message, -1, some message⟩
  | _ => ⟨"", "Process killed: timeout exceeded", -1, some "timeout"⟩

/-! ### The steps, one by one -/

/-- What has been read of a stream. -/
def State.text (s : State) : Stream → String
  | .stdout => s.stdout
  | .stderr => s.stderr

/-- **A step that the API survives**: `proc.stdin` is not refused, since it has nothing to write or
somebody can read it; what is read of a stream fits in a string; and an `error` finds the streams. -/
def Safe (s : State) : Label → Prop
  | .flush => s.left = 0 ∨ s.child.reader = true
  | .data stream d => utf16Length (s.text stream ++ decode d) ≤ MAX_STRING_LENGTH
  | .error _ => s.spawn = .streams
  | _ => True

/-- The steps of a call that is not at its end, with what each needs. -/
inductive Move (s : State) : Label → State → List Event → Prop where
  | process (a : Act) : Move s (.process a) { s with child := s.child.act a } []
  | exit : Move s .exit { s with left := 0 } []
  | refused (hleft : s.left ≠ 0) (hreader : s.child.reader = false) :
    Move s .flush { s with left := 0, uncaught := true } [.emitted .stdinError]
  | wrote (hreader : s.child.reader = true) :
    Move s .flush
      { s with
        left := s.left - min s.left s.child.room
        child := { s.child with buffered := s.child.buffered + min s.left s.child.room } } []
  | data (stream : Stream) (d : List UInt8) :
    Move s (.data stream d) (s.callback (.data stream d)).1 [.emitted (.data stream d)]
  | terminal {l : Label} {e : ProcEvent} (hl : Safe s l) (he : e.isTerminal)
    (hheard : hasListener s.spawn e) (harmed : e = .timeout → s.armed) :
    Move s l (s.callback e).1 (.emitted e :: (s.callback e).2)
  | unheard (message : String) (hspawn : s.spawn ≠ .streams) :
    Move s (.error message) { s with uncaught := true } [.emitted (.error message)]

section
variable {s s' : State} {l : Label} {new es : List Event} {spawn : Spawn} {stdin : Option String}
  {capacity : ℕ}

/-! ### What callbacks do -/

/-- Data that fits is appended. -/
theorem callback_data_of_fits {stream : Stream} {d : List UInt8} (h : Safe s (.data stream d)) :
    s.callback (.data stream d) =
      ({ s with
        stdout := if stream = .stdout then s.stdout ++ decode d else s.stdout
        stderr := if stream = .stderr then s.stderr ++ decode d else s.stderr }, []) := by
  cases stream with
  | stdout =>
    have hconcat : concat s.stdout (decode d) = some (s.stdout ++ decode d) := if_pos h
    simp [State.callback, hconcat]
  | stderr =>
    have hconcat : concat s.stderr (decode d) = some (s.stderr ++ decode d) := if_pos h
    simp [State.callback, hconcat]

/-- Data that does not fit is thrown away with the API. -/
theorem callback_data_of_not_fits {stream : Stream} {d : List UInt8}
    (h : ¬ Safe s (.data stream d)) :
    s.callback (.data stream d) = ({ s with uncaught := true }, []) := by
  cases stream with
  | stdout =>
    have hconcat : concat s.stdout (decode d) = none := if_neg h
    simp [State.callback, hconcat]
  | stderr =>
    have hconcat : concat s.stderr (decode d) = none := if_neg h
    simp [State.callback, hconcat]

theorem snd_callback_data (s : State) (stream : Stream) (d : List UInt8) :
    (s.callback (.data stream d)).2 = [] := by
  by_cases hsafe : Safe s (.data stream d)
  · rw [callback_data_of_fits hsafe]
  · rw [callback_data_of_not_fits hsafe]

/-- Whatever is not data leaves most of the state alone. -/
theorem callback_frame {e : ProcEvent} (he : e.isTerminal) :
    (s.callback e).1.spawn = s.spawn ∧ (s.callback e).1.uncaught = s.uncaught ∧
      (s.callback e).1.stdout = s.stdout ∧ (s.callback e).1.stderr = s.stderr := by
  cases e with
  | data stream d => exact absurd he Bool.false_ne_true
  | stdinError => exact absurd he Bool.false_ne_true
  | _ =>
    simp only [State.callback, State.resolve, State.clearTimeout]
    cases s.promise <;> exact ⟨rfl, rfl, rfl, rfl⟩

/-- A callback is called for one event. -/
theorem emitted_callback (s : State) (e : ProcEvent) :
    emitted (.emitted e :: (s.callback e).2) = [e] := by
  have hnone : emitted (s.callback e).2 = [] := by
    cases e with
    | data stream d => rw [snd_callback_data]; rfl
    | stdinError => rfl
    | _ =>
      simp only [State.callback, State.resolve, State.clearTimeout]
      cases s.promise <;> rfl
  show e :: emitted (s.callback e).2 = [e]
  rw [hnone]

/-! ### What steps do -/

/-- **Every step is one of these.** -/
theorem move_of_step (h : machine.step s l = some (s', new)) :
    s.uncaught = false ∧ Move s l s' new := by
  replace h : (if s.uncaught then none else s.next l) = some (s', new) := h
  by_cases hun : s.uncaught = true
  · rw [if_pos hun] at h
    cases h
  rw [if_neg hun] at h
  have hun' : s.uncaught = false := by simpa using hun
  refine ⟨hun', ?_⟩
  unfold State.next at h
  split at h
  · cases h
  · next message hthrows =>
    by_cases hspawn : s.spawn = .streams
    · have hheard : hasListener s.spawn (.error message) := by simp [hasListener, hspawn]
      rw [State.emit, if_pos hheard] at h
      cases h
      exact .terminal hspawn rfl hheard nofun
    · rw [State.emit, if_neg (by simp [hasListener, hspawn]), hun'] at h
      cases h
      exact .unheard message hspawn
  · split_ifs at h with harmed
    have hheard : hasListener s.spawn .timeout := rfl
    rw [State.emit, if_pos hheard] at h
    cases h
    exact .terminal trivial rfl hheard fun _ => harmed
  · cases h
  · cases h
    exact .process _
  · next hspawn =>
    unfold State.flush at h
    split_ifs at h with hleft hreader hroom
    · have hemit : State.emit { s with left := 0 } .stdinError =
          ({ s with left := 0, uncaught := true }, [.emitted .stdinError]) := by
        simp [State.emit, hasListener, ProcEvent.isError]
      rw [hemit] at h
      cases h
      exact .refused hleft hreader
    · cases h
      exact .wrote (by simpa using hreader)
  · cases h
    exact .exit
  · next stream d hspawn =>
    rw [State.emit, if_pos (by simp [hasListener, hspawn]), snd_callback_data] at h
    cases h
    exact .data _ _
  · next code hspawn =>
    have hheard : hasListener s.spawn (.close code) := by simp [hasListener, hspawn]
    rw [State.emit, if_pos hheard] at h
    cases h
    exact .terminal trivial rfl hheard nofun

theorem emitted_append (es new : List Event) : emitted (es ++ new) = emitted es ++ emitted new :=
  List.filterMap_append

theorem settlements_append (es new : List Event) :
    settlements (es ++ new) = settlements es ++ settlements new :=
  List.filterMap_append

/-- Nothing changes what `spawn` has done. -/
theorem spawn_of_move (h : Move s l s' new) : s'.spawn = s.spawn := by
  cases h with
  | data stream d =>
    by_cases hsafe : Safe s (.data stream d)
    · rw [callback_data_of_fits hsafe]
    · rw [callback_data_of_not_fits hsafe]
  | terminal hl he => exact (callback_frame he).1
  | _ => rfl

theorem spawn_of_steps {tr : List (State × Label)}
    (h : Steps machine (.init spawn stdin capacity) tr s) : s.spawn = spawn := by
  refine h.keeps (I := fun _ s => s.spawn = spawn) (by cases spawn <;> rfl) ?_
  intro tr s l s' new _ hs hstep
  exact (spawn_of_move (move_of_step hstep).2).trans hs

/-- **A step ends the API exactly when it is not safe**, and then it settles nothing. -/
theorem uncaught_of_move (hun : s.uncaught = false) (h : Move s l s' new) :
    (s'.uncaught = false ↔ Safe s l) ∧ (¬ Safe s l → s'.promise = s.promise) := by
  cases h with
  | process a => exact ⟨iff_of_true hun trivial, fun hnot => absurd trivial hnot⟩
  | exit => exact ⟨iff_of_true hun trivial, fun hnot => absurd trivial hnot⟩
  | wrote hreader => exact ⟨iff_of_true hun (.inr hreader), fun _ => rfl⟩
  | refused hleft hreader =>
    refine ⟨iff_of_false nofun ?_, fun _ => rfl⟩
    rintro (hzero | hopen)
    · exact hleft hzero
    · exact absurd (hreader.symm.trans hopen) Bool.false_ne_true
  | data stream d =>
    by_cases hsafe : Safe s (.data stream d)
    · rw [callback_data_of_fits hsafe]
      exact ⟨iff_of_true hun hsafe, fun hnot => absurd hsafe hnot⟩
    · rw [callback_data_of_not_fits hsafe]
      exact ⟨iff_of_false nofun hsafe, fun _ => rfl⟩
  | terminal hl he =>
    exact ⟨iff_of_true ((callback_frame he).2.1.trans hun) hl, fun hnot => absurd hl hnot⟩
  | unheard message hspawn => exact ⟨iff_of_false nofun hspawn, fun _ => rfl⟩

/-! ### What has been read -/

/-- What has been read of the two streams. -/
def Collected (seen : List ProcEvent) (s : State) : Prop :=
  ∀ stream, s.text stream = decodePieces (chunksOf stream seen)

theorem chunksOf_concat (stream : Stream) (seen : List ProcEvent) (e : ProcEvent) :
    chunksOf stream (seen ++ [e]) = chunksOf stream seen ++ chunksOf stream [e] :=
  List.filterMap_append

theorem decodePieces_concat (pieces : List (List UInt8)) (d : List UInt8) :
    decodePieces (pieces ++ [d]) = decodePieces pieces ++ decode d := by
  unfold decodePieces
  rw [List.map_append, List.map_singleton, String.join_append]
  simp

/-- Data that fits is collected. -/
theorem Collected.data {seen : List ProcEvent} {stream : Stream} {d : List UInt8}
    (h : Collected seen s) (hsafe : Safe s (.data stream d)) :
    Collected (seen ++ [.data stream d]) (s.callback (.data stream d)).1 := by
  intro stream'
  have hseen := h stream'
  rw [callback_data_of_fits hsafe, chunksOf_concat]
  cases stream <;> cases stream' <;>
    simp_all [State.text, chunksOf, decodePieces_concat]

/-- Nothing else is. -/
theorem Collected.passes {seen : List ProcEvent} {e : ProcEvent} (h : Collected seen s)
    (he : ∀ stream, chunksOf stream [e] = []) (hout : s'.stdout = s.stdout)
    (herr : s'.stderr = s.stderr) : Collected (seen ++ [e]) s' := by
  intro stream
  rw [chunksOf_concat, he, List.append_nil, ← h]
  cases stream with
  | stdout => exact hout
  | stderr => exact herr

theorem chunksOf_terminal {e : ProcEvent} (he : e.isTerminal) (stream : Stream) :
    chunksOf stream [e] = [] := by
  cases e with
  | data stream d => exact absurd he Bool.false_ne_true
  | stdinError => exact absurd he Bool.false_ne_true
  | _ => rfl

/-! ### What terminal events do -/

/-- **What a terminal event does while the promise is pending.** -/
theorem callback_pending {seen : List ProcEvent} {e : ProcEvent} (hc : Collected seen s)
    (hp : s.promise = none) (he : e.isTerminal) :
    (s.callback e).1.promise = some (.ok (value seen e)) ∧ (s.callback e).1.armed = false ∧
      (s.callback e).2 = (if e = .timeout then [.killed] else []) ++ [.settled (value seen e)] := by
  have hout : s.stdout = decodePieces (chunksOf .stdout seen) := hc .stdout
  have herr : s.stderr = decodePieces (chunksOf .stderr seen) := hc .stderr
  cases e with
  | data stream d => exact absurd he Bool.false_ne_true
  | stdinError => exact absurd he Bool.false_ne_true
  | close code => simp [State.callback, State.resolve, State.clearTimeout, hp, value, hout, herr]
  | error message => simp [State.callback, State.resolve, State.clearTimeout, hp, value]
  | timeout => simp [State.callback, State.resolve, hp, value]

/-- And afterwards. -/
theorem callback_settled {r : Except JsError ProcResult} {e : ProcEvent} (hp : s.promise = some r)
    (he : e.isTerminal) :
    (s.callback e).1.promise = some r ∧ (s.callback e).1.armed = false ∧
      (s.callback e).2 = if e = .timeout then [.killed] else [] := by
  cases e with
  | data stream d => exact absurd he Bool.false_ne_true
  | stdinError => exact absurd he Bool.false_ne_true
  | close code => simp [State.callback, State.resolve, State.clearTimeout, hp]
  | error message => simp [State.callback, State.resolve, State.clearTimeout, hp]
  | timeout => simp [State.callback, State.resolve, hp]

/-- A promise that is settled stays as it is. -/
theorem promise_of_move {r : Except JsError ProcResult} (h : Move s l s' new)
    (hp : s.promise = some r) : s'.promise = some r := by
  cases h with
  | data stream d =>
    by_cases hsafe : Safe s (.data stream d)
    · rw [callback_data_of_fits hsafe]
      exact hp
    · rw [callback_data_of_not_fits hsafe]
      exact hp
  | terminal hl he => exact (callback_settled hp he).1
  | _ => exact hp

/-! ### The promise -/

/-- **How a call has been settled**, by the first terminal event. -/
inductive Settles (es : List Event) (s : State) : Prop where
  /-- There has been none: the promise is pending, and the timer is armed. -/
  | pending (hnone : ∀ x ∈ emitted es, x.isTerminal = false) (hp : s.promise = none)
    (hset : settlements es = []) (hkill : .killed ∉ es) (harmed : s.armed = true)
  /-- `e` was the first: the promise was resolved once, with its value; the child was sent a signal
  if it was the timer, and the timer does not fire any more. -/
  | settled (before : List ProcEvent) (e : ProcEvent) (later : List ProcEvent)
    (hes : emitted es = before ++ e :: later) (hbefore : ∀ x ∈ before, x.isTerminal = false)
    (he : e.isTerminal) (hp : s.promise = some (.ok (value before e)))
    (hset : settlements es = [value before e]) (hkill : .killed ∈ es ↔ e = .timeout)
    (hzero : (value before e).exitCode = 0 ↔ e = .close (some 0))
    (harmed : s.armed = false) (hlate : .timeout ∉ later)

/-- Only `close` with the code 0 is reported as the code 0. -/
theorem exitCode_value_iff {seen : List ProcEvent} {e : ProcEvent} (he : e.isTerminal) :
    (value seen e).exitCode = 0 ↔ e = .close (some 0) := by
  have hminus : (-1 : Js.Value.Finite) ≠ 0 := by decide
  cases e with
  | data stream d => exact absurd he Bool.false_ne_true
  | stdinError => exact absurd he Bool.false_ne_true
  | close code =>
    cases code with
    | none => exact iff_of_false hminus (by simp)
    | some n => simp [value]
  | error message => exact iff_of_false hminus nofun
  | timeout => exact iff_of_false hminus nofun

/-- What changes neither the promise nor the timer. -/
theorem Settles.passes (h : Settles es s) (hnew : ∀ x ∈ emitted new, x.isTerminal = false)
    (hset : settlements new = []) (hkill : .killed ∉ new) (hp : s'.promise = s.promise)
    (harmed : s'.armed = s.armed) : Settles (es ++ new) s' := by
  have hkills : Event.killed ∈ es ++ new ↔ .killed ∈ es := by
    rw [List.mem_append, or_iff_left hkill]
  have hsets : settlements (es ++ new) = settlements es := by
    rw [settlements_append, hset, List.append_nil]
  cases h with
  | pending hnone hp₀ hset₀ hkill₀ harmed₀ =>
    refine .pending ?_ (hp.trans hp₀) (hsets.trans hset₀) (hkills.not.mpr hkill₀)
      (harmed.trans harmed₀)
    rw [emitted_append, List.forall_mem_append]
    exact ⟨hnone, hnew⟩
  | settled before e later hes hbefore he hp₀ hset₀ hkill₀ hzero harmed₀ hlate =>
    refine .settled before e (later ++ emitted new) ?_ hbefore he (hp.trans hp₀)
      (hsets.trans hset₀) (hkills.trans hkill₀) hzero (harmed.trans harmed₀) ?_
    · rw [emitted_append, hes, List.append_assoc, List.cons_append]
    · rw [List.mem_append, not_or]
      exact ⟨hlate, fun hmem => absurd (hnew _ hmem) (by simp [ProcEvent.isTerminal])⟩

/-- **A terminal event settles the call, or comes too late.** -/
theorem Settles.terminal {e : ProcEvent} (h : Settles es s) (hc : Collected (emitted es) s)
    (he : e.isTerminal) (harmed : e = .timeout → s.armed) :
    Settles (es ++ .emitted e :: (s.callback e).2) (s.callback e).1 := by
  cases h with
  | pending hnone hp hset hkill harmed₀ =>
    obtain ⟨hp', harmed', hnew⟩ := callback_pending hc hp he
    refine .settled (emitted es) e [] ?_ hnone he hp' ?_ ?_ (exitCode_value_iff he) harmed'
      List.not_mem_nil
    · rw [emitted_append, hnew]
      by_cases ht : e = .timeout <;> simp [emitted, ht]
    · rw [settlements_append, hset, hnew]
      by_cases ht : e = .timeout <;> simp [settlements, ht]
    · rw [hnew]
      by_cases ht : e = .timeout <;> simp [hkill, ht]
  | settled before e₀ later hes hbefore he₀ hp hset hkill hzero harmed₀ hlate =>
    have ht : e ≠ .timeout := fun ht => absurd ((harmed ht).symm.trans harmed₀) (by simp)
    obtain ⟨hp', harmed', hnew⟩ := callback_settled hp he
    rw [if_neg ht] at hnew
    rw [hnew]
    refine .settled before e₀ (later ++ [e]) ?_ hbefore he₀ hp' ?_ ?_ hzero harmed' ?_
    · rw [emitted_append, hes, List.append_assoc, List.cons_append]
      rfl
    · rw [settlements_append, hset]
      rfl
    · rw [List.mem_append]
      simpa using hkill
    · simpa using ⟨hlate, ht.symm⟩

/-- What every step of a call with streams keeps. -/
theorem collected_settles (h : Reaches machine (.init .streams stdin capacity) es s) :
    (s.spawn = .streams ∧ (s.uncaught = false → Collected (emitted es) s)) ∧ Settles es s := by
  refine h.keeps (I := fun es s =>
    (s.spawn = .streams ∧ (s.uncaught = false → Collected (emitted es) s)) ∧ Settles es s)
    ⟨⟨rfl, fun _ stream => by cases stream <;> rfl⟩, .pending nofun rfl rfl nofun rfl⟩ ?_
  rintro es s l s' new - ⟨⟨hspawn, hc⟩, hs⟩ hstep
  obtain ⟨hun, hmove⟩ := move_of_step hstep
  replace hc := hc hun
  rw [emitted_append, spawn_of_move hmove]
  have hsilent : Collected (emitted es ++ emitted []) s := by
    rw [show emitted [] = [] from rfl, List.append_nil]
    exact hc
  cases hmove with
  | process a => exact ⟨⟨hspawn, fun _ => hsilent⟩, hs.passes nofun rfl nofun rfl rfl⟩
  | exit => exact ⟨⟨hspawn, fun _ => hsilent⟩, hs.passes nofun rfl nofun rfl rfl⟩
  | wrote => exact ⟨⟨hspawn, fun _ => hsilent⟩, hs.passes nofun rfl nofun rfl rfl⟩
  | refused =>
    refine ⟨⟨hspawn, nofun⟩, ?_⟩
    exact hs.passes (by simp [emitted, ProcEvent.isTerminal]) rfl (by simp) rfl rfl
  | data stream d =>
    by_cases hsafe : Safe s (.data stream d)
    · refine ⟨⟨hspawn, fun _ => hc.data hsafe⟩, ?_⟩
      rw [callback_data_of_fits hsafe]
      exact hs.passes (by simp [emitted, ProcEvent.isTerminal]) rfl (by simp) rfl rfl
    · rw [callback_data_of_not_fits hsafe]
      refine ⟨⟨hspawn, nofun⟩, ?_⟩
      exact hs.passes (by simp [emitted, ProcEvent.isTerminal]) rfl (by simp) rfl rfl
  | @terminal l e hl he hheard harmed =>
    obtain ⟨-, -, hout, herr⟩ := callback_frame (s := s) he
    refine ⟨⟨hspawn, fun _ => ?_⟩, hs.terminal hc he harmed⟩
    rw [emitted_callback]
    exact hc.passes (chunksOf_terminal he) hout herr
  | unheard message hnot => exact absurd hspawn hnot

/-- How far the call is, if it has streams. -/
def State.stage (s : State) : Stage :=
  match s.promise with
  | some (.ok r) => .settled r
  | some (.error _) => .lost
  | none => if s.uncaught then .lost else .reading s.stdout s.stderr

/-- What has been settled stays so. -/
theorem foldl_stage_of_settled {r : Except JsError ProcResult} (hp : s.promise = some r)
    (seen : List ProcEvent) : seen.foldl Stage.next s.stage = s.stage := by
  unfold State.stage
  rw [hp]
  cases r with
  | ok r => exact foldl_settled r seen
  | error err => exact foldl_lost seen

/-- Data is read while the promise is pending. -/
theorem stage_data (hun : s.uncaught = false) (hp : s.promise = none) (stream : Stream)
    (d : List UInt8) :
    (s.callback (.data stream d)).1.stage =
      Stage.next (.reading s.stdout s.stderr) (.data stream d) := by
  by_cases hsafe : Safe s (.data stream d)
  · rw [callback_data_of_fits hsafe]
    cases stream with
    | stdout =>
      have hconcat : concat s.stdout (decode d) = some (s.stdout ++ decode d) := if_pos hsafe
      simp [State.stage, Stage.next, hp, hun, hconcat]
    | stderr =>
      have hconcat : concat s.stderr (decode d) = some (s.stderr ++ decode d) := if_pos hsafe
      simp [State.stage, Stage.next, hp, hun, hconcat]
  · rw [callback_data_of_not_fits hsafe]
    cases stream with
    | stdout =>
      have hconcat : concat s.stdout (decode d) = none := if_neg hsafe
      simp [State.stage, Stage.next, hp, hconcat]
    | stderr =>
      have hconcat : concat s.stderr (decode d) = none := if_neg hsafe
      simp [State.stage, Stage.next, hp, hconcat]

/-- And its end settles it. -/
theorem stage_terminal (hp : s.promise = none) {e : ProcEvent} (he : e.isTerminal) :
    (s.callback e).1.stage = Stage.next (.reading s.stdout s.stderr) e := by
  cases e with
  | data stream d => exact absurd he Bool.false_ne_true
  | stdinError => exact absurd he Bool.false_ne_true
  | _ => simp [State.callback, State.resolve, State.clearTimeout, State.stage, hp, Stage.next]

/-- **What the promise is resolved to is what the events resolve to.** -/
theorem stage_eq_resolved (h : Reaches machine (.init .streams stdin capacity) es s) :
    s.stage = resolved (emitted es) := by
  refine (h.keeps (I := fun es s => s.spawn = .streams ∧ s.stage = resolved (emitted es))
    ⟨rfl, rfl⟩ ?_).2
  rintro es s l s' new - ⟨hspawn, hs⟩ hstep
  obtain ⟨hun, hmove⟩ := move_of_step hstep
  refine ⟨(spawn_of_move hmove).trans hspawn, ?_⟩
  unfold resolved at hs ⊢
  rw [emitted_append, List.foldl_append, ← hs]
  cases hp : s.promise with
  | some r =>
    rw [foldl_stage_of_settled hp]
    unfold State.stage
    rw [promise_of_move hmove hp, hp]
    cases r <;> rfl
  | none =>
    have hstage : s.stage = .reading s.stdout s.stderr := by simp [State.stage, hp, hun]
    rw [hstage]
    cases hmove with
    | process a => simp [State.stage, hp, hun, emitted]
    | exit => simp [State.stage, hp, hun, emitted]
    | wrote hreader => simp [State.stage, hp, hun, emitted]
    | refused hleft hreader => simp [State.stage, hp, emitted, Stage.next]
    | data stream d => exact stage_data hun hp stream d
    | terminal hl he =>
      rw [emitted_callback]
      exact stage_terminal hp he
    | unheard message hnot => exact absurd hspawn hnot

/-! ### What is recorded -/

/-- What is recorded of a stream. -/
def recorded (stream : Stream) (r : ProcResult) : String :=
  match stream with
  | .stdout => r.stdout
  | .stderr => r.stderr

theorem recorded_value (stream : Stream) (seen : List ProcEvent) (code : Option ℤ) :
    recorded stream (value seen (.close code)) = decodePieces (chunksOf stream seen) := by
  cases stream <;> rfl

/-- There is one first terminal event. -/
theorem first_terminal_unique {before before' later later' : List ProcEvent} {e e' : ProcEvent}
    (h : before ++ e :: later = before' ++ e' :: later')
    (hbefore : ∀ x ∈ before, x.isTerminal = false) (he : e.isTerminal)
    (hbefore' : ∀ x ∈ before', x.isTerminal = false) (he' : e'.isTerminal) :
    before = before' ∧ e = e' := by
  induction before generalizing before' with
  | nil =>
    cases before' with
    | nil => exact ⟨rfl, (List.cons.inj h).1⟩
    | cons x before' =>
      obtain rfl : e = x := (List.cons.inj h).1
      exact absurd ((hbefore' e List.mem_cons_self).symm.trans he) Bool.false_ne_true
  | cons x before ih =>
    cases before' with
    | nil =>
      obtain rfl : x = e' := (List.cons.inj h).1
      exact absurd ((hbefore x List.mem_cons_self).symm.trans he') Bool.false_ne_true
    | cons y before' =>
      obtain ⟨rfl, htail⟩ := List.cons.inj h
      obtain ⟨rfl, rfl⟩ := ih htail (fun z hz => hbefore z (List.mem_cons_of_mem _ hz))
        fun z hz => hbefore' z (List.mem_cons_of_mem _ hz)
      exact ⟨rfl, rfl⟩

/-- **What is recorded of a stream is the text of its bytes exactly when no chunk ends inside a
sequence that the next one goes on with.** -/
theorem recorded_iff_aligned (stdin : Option String) (capacity : ℕ) {es : List Event} {s : State}
    (h : Reaches machine (.init .streams stdin capacity) es s) {before later : List ProcEvent}
    {code : Option ℤ} (hes : emitted es = before ++ .close code :: later)
    (hbefore : ∀ x ∈ before, x.isTerminal = false) :
    ∃ r, s.promise = some (.ok r) ∧ ∀ stream,
      (recorded stream r = decode (chunksOf stream before).flatten ↔
        Aligned (chunksOf stream before)) := by
  cases (collected_settles h).2 with
  | pending hnone =>
    have hmem : .close code ∈ emitted es := by rw [hes]; simp
    exact absurd (hnone _ hmem) (by simp [ProcEvent.isTerminal])
  | settled before' e later' hes' hbefore' he hp =>
    obtain ⟨rfl, rfl⟩ := first_terminal_unique (hes.symm.trans hes') hbefore rfl hbefore' he
    refine ⟨_, hp, fun stream => ?_⟩
    rw [recorded_value]
    exact decodePieces_eq_iff _

/-- **The same bytes in two chunks are another text**: a letter that is written at once and one that
is cut in two. -/
theorem split_differs : ∃ es s es' s', Reaches machine (.init .streams none 65536) es s ∧
    Reaches machine (.init .streams none 65536) es' s' ∧
    emitted es = [.data .stdout [0xC3, 0xA9], .close (some 0)] ∧
    emitted es' = [.data .stdout [0xC3], .data .stdout [0xA9], .close (some 0)] ∧
    s.promise = some (.ok ⟨"é", "", 0, none⟩) ∧
    s'.promise = some (.ok ⟨"\uFFFD\uFFFD", "", 0, none⟩) := by
  have hwhole : Reaches machine (.init .streams none 65536) _ _ :=
    Reaches.refl
    |>.step (l := .data .stdout [0xC3, 0xA9]) rfl
    |>.step (l := .close (some 0)) rfl
  have hsplit : Reaches machine (.init .streams none 65536) _ _ :=
    Reaches.refl
    |>.step (l := .data .stdout [0xC3]) rfl
    |>.step (l := .data .stdout [0xA9]) rfl
    |>.step (l := .close (some 0)) rfl
  exact ⟨_, _, _, _, hwhole, hsplit, rfl, rfl, by decide, by decide⟩

/-- Chunks that end between two letters are recorded as they were written. -/
theorem letters_recorded : ∃ es s r, Reaches machine (.init .streams none 65536) es s ∧
    emitted es = [.data .stdout [0xC3, 0xA9], .data .stdout [0x0A], .close (some 0)] ∧
    s.promise = some (.ok r) ∧ r.stdout = decode [0xC3, 0xA9, 0x0A] := by
  obtain ⟨es, s, hrun, hes⟩ : ∃ es s, Reaches machine (.init .streams none 65536) es s ∧
      emitted es = [.data .stdout [0xC3, 0xA9], .data .stdout [0x0A]] ++ .close (some 0) :: [] := by
    have hrun : Reaches machine (.init .streams none 65536) _ _ :=
      Reaches.refl
      |>.step (l := .data .stdout [0xC3, 0xA9]) rfl
      |>.step (l := .data .stdout [0x0A]) rfl
      |>.step (l := .close (some 0)) rfl
    exact ⟨_, _, hrun, rfl⟩
  obtain ⟨r, hp, hr⟩ := recorded_iff_aligned none 65536 hrun hes (by decide)
  have haligned : Aligned (chunksOf .stdout
      [.data .stdout [0xC3, 0xA9], .data .stdout [0x0A]]) :=
    ⟨by decide, by decide, trivial⟩
  exact ⟨es, s, r, hrun, hes, hp, (hr .stdout).mpr haligned⟩

/-! ### Errors -/

/-- **A step in which every `error` is heard and nothing is thrown** is a safe one. -/
theorem step_heard (h : machine.step s l = some (s', new)) :
    (∀ e ∈ emitted new, e.isError → hasListener s.spawn e) ∧ s'.uncaught = false ↔ Safe s l := by
  obtain ⟨hun, hmove⟩ := move_of_step h
  rw [(uncaught_of_move hun hmove).1]
  refine and_iff_right_of_imp fun hsafe e he herror => ?_
  cases hmove with
  | process a => exact absurd he List.not_mem_nil
  | exit => exact absurd he List.not_mem_nil
  | wrote hreader => exact absurd he List.not_mem_nil
  | refused hleft hreader =>
    rcases hsafe with hzero | hopen
    · exact absurd hzero hleft
    · exact absurd (hreader.symm.trans hopen) Bool.false_ne_true
  | data stream d =>
    obtain rfl := List.mem_singleton.mp he
    exact absurd herror Bool.false_ne_true
  | terminal hl hterminal hheard harmed =>
    rw [emitted_callback] at he
    obtain rfl := List.mem_singleton.mp he
    exact hheard
  | unheard message hspawn => exact absurd hsafe hspawn

/-- **Every `error` has a listener and nothing is thrown exactly when every step is safe.** -/
theorem errors_heard_iff (spawn : Spawn) (stdin : Option String) (capacity : ℕ)
    {tr : List (State × Label)} {s : State}
    (h : Steps machine (.init spawn stdin capacity) tr s) :
    (∀ e ∈ emitted (machine.observed tr), e.isError → hasListener spawn e) ∧ s.uncaught = false ↔
      ∀ x ∈ tr, Safe x.1 x.2 := by
  induction h with
  | refl =>
    refine iff_of_true ⟨fun e he => absurd he List.not_mem_nil, by cases spawn <;> rfl⟩ ?_
    exact fun x hx => absurd hx List.not_mem_nil
  | @step tr s s' l new h hs ih =>
    have hun := (move_of_step hs).1
    have hstep := step_heard hs
    rw [spawn_of_steps h] at hstep
    rw [observed_concat hs, emitted_append, List.forall_mem_append, List.forall_mem_append,
      List.forall_mem_singleton, and_assoc, hstep, ← ih]
    exact and_congr_left fun _ => (and_iff_left hun).symm

/-- **More input than the pipe holds, and nobody reads it**: an `error` without a listener. -/
theorem unread_uncaught {data : String} {capacity : ℕ} (hpos : capacity ≠ 0)
    (hlong : capacity < data.utf8ByteSize) : ∃ tr s,
      Steps machine (.init .streams (some data) capacity) tr s ∧
      .stdinError ∈ emitted (machine.observed tr) ∧ s.uncaught = true := by
  have hmin : min data.utf8ByteSize (capacity - 0) = capacity := min_eq_right hlong.le
  have hfill : machine.step (.init .streams (some data) capacity) .flush =
      some (⟨.streams, "", "", true, none, data.utf8ByteSize - capacity,
        ⟨none, capacity, capacity, true, none, none⟩, false⟩, []) := by
    show State.flush _ = _
    simp only [State.flush, State.init, Child.started, Child.room, Option.getD_some, hmin]
    rw [if_neg (by omega), if_neg (by simp), if_neg (by omega)]
    simp
  have hrefused : machine.step ⟨.streams, "", "", true, none, data.utf8ByteSize - capacity,
      ⟨some (.exited 0), capacity, capacity, false, none, none⟩, false⟩ .flush =
      some (⟨.streams, "", "", true, none, 0,
        ⟨some (.exited 0), capacity, capacity, false, none, none⟩, true⟩,
        [.emitted .stdinError]) := by
    show State.flush _ = _
    simp only [State.flush]
    rw [if_neg (by omega), if_pos trivial]
    rfl
  have hrun : Steps machine (.init .streams (some data) capacity) _
      ⟨.streams, "", "", true, none, data.utf8ByteSize - capacity,
        ⟨some (.exited 0), capacity, capacity, false, none, none⟩, false⟩ :=
    Steps.refl
    |>.step (l := .flush) hfill
    |>.step (l := .process .closesStdin) rfl
    |>.step (l := .process (.ends (.exited 0))) rfl
  refine ⟨_, _, hrun.step hrefused, ?_, rfl⟩
  rw [observed_concat hrefused, emitted_append]
  simp [emitted]

/-- **A program that ignores a large input ends the API.** -/
theorem large_input_uncaught : ∃ tr s,
    Steps machine (.init .streams (some (.ofList (List.replicate 300000 'a'))) 212992) tr s ∧
    ¬ ((∀ e ∈ emitted (machine.observed tr), e.isError → hasListener .streams e) ∧
      s.uncaught = false) := by
  have hlong : 212992 < (String.ofList (List.replicate 300000 'a')).utf8ByteSize := by
    rw [utf8ByteSize_replicate]
    omega
  obtain ⟨tr, s, h, -, hun⟩ := unread_uncaught (by decide) hlong
  exact ⟨tr, s, h, fun hheard => absurd (hun.symm.trans hheard.2) (by simp)⟩

/-- A program that reads what it is given. -/
theorem reader_heard : ∃ tr s, Steps machine (.init .streams (some "hello\n") 212992) tr s ∧
    s.promise = some (.ok ⟨"hi", "", 0, none⟩) ∧
    (∀ e ∈ emitted (machine.observed tr), e.isError → hasListener .streams e) ∧
    s.uncaught = false := by
  have hrun : Steps machine (.init .streams (some "hello\n") 212992) _ _ :=
    Steps.refl
    |>.step (l := .flush) rfl
    |>.step (l := .process (.reads 6)) rfl
    |>.step (l := .data .stdout [0x68, 0x69]) rfl
    |>.step (l := .process (.ends (.exited 0))) rfl
    |>.step (l := .exit) rfl
    |>.step (l := .close (some 0)) rfl
  refine ⟨_, _, hrun, by decide, (errors_heard_iff _ _ _ hrun).mpr ?_⟩
  intro x hx
  simp only [List.nil_append, List.cons_append, List.mem_cons, List.not_mem_nil, or_false] at hx
  rcases hx with rfl | rfl | rfl | rfl | rfl | rfl
  · exact .inr rfl
  · exact trivial
  · exact Nat.le_of_ble_eq_true rfl
  all_goals exact trivial

/-! ### A flood of output -/

/-- A child has written `n` letters, which have been read. -/
def State.written (stdin : Option String) (capacity n : ℕ) : State :=
  { State.init .streams stdin capacity with stdout := String.ofList (List.replicate n 'a') }

theorem append_letter (n : ℕ) : String.ofList (List.replicate n 'a') ++ decode [0x61] =
    String.ofList (List.replicate (n + 1) 'a') := by
  rw [List.replicate_succ', String.ofList_append]
  rfl

/-- One more letter fits or not. -/
theorem safe_letter_iff (stdin : Option String) (capacity n : ℕ) :
    Safe (.written stdin capacity n) (.data .stdout [0x61]) ↔ n + 1 ≤ MAX_STRING_LENGTH := by
  show utf16Length (String.ofList (List.replicate n 'a') ++ decode [0x61]) ≤ _ ↔ _
  rw [append_letter, utf16Length_replicate]

theorem step_letter (stdin : Option String) (capacity n : ℕ) :
    machine.step (.written stdin capacity n) (.data .stdout [0x61]) =
      some ((State.callback (.written stdin capacity n) (.data .stdout [0x61])).1,
        [.emitted (.data .stdout [0x61])]) := by
  show some (_, .emitted _ :: (State.callback _ _).2) = _
  rw [snd_callback_data]

/-- A child writes letters, one after the other. -/
theorem letters_read (stdin : Option String) (capacity : ℕ) {n : ℕ} (hn : n ≤ MAX_STRING_LENGTH) :
    ∃ tr, Steps machine (.init .streams stdin capacity) tr (.written stdin capacity n) := by
  induction n with
  | zero => exact ⟨[], .refl⟩
  | succ n ih =>
    obtain ⟨tr, htr⟩ := ih (by omega)
    have hafter : (State.callback (.written stdin capacity n) (.data .stdout [0x61])).1 =
        .written stdin capacity (n + 1) := by
      rw [callback_data_of_fits ((safe_letter_iff stdin capacity n).mpr hn)]
      simp only [State.written, ← append_letter]
      rfl
    rw [← hafter]
    exact ⟨_, htr.step (step_letter stdin capacity n)⟩

/-- **Output that never ends is longer than any string.** -/
theorem flood_uncaught (stdin : Option String) (capacity : ℕ) : ∃ tr s,
    Steps machine (.init .streams stdin capacity) tr s ∧ s.uncaught = true := by
  obtain ⟨tr, htr⟩ := letters_read stdin capacity le_rfl
  refine ⟨_, _, htr.step (step_letter stdin capacity MAX_STRING_LENGTH), ?_⟩
  rw [callback_data_of_not_fits ((safe_letter_iff ..).not.mpr (Nat.not_succ_le_self _))]

/-- **Only where there is no child at all is the API safe from it.** -/
theorem never_uncaught_iff (spawn : Spawn) (stdin : Option String) (capacity : ℕ) :
    (∀ tr s, Steps machine (.init spawn stdin capacity) tr s → s.uncaught = false) ↔
      ∃ err, spawn = .throws err := by
  constructor
  · intro hsafe
    cases spawn with
    | streams =>
      obtain ⟨tr, s, h, hun⟩ := flood_uncaught stdin capacity
      exact absurd ((hsafe tr s h).symm.trans hun) Bool.false_ne_true
    | noStreams =>
      have hrun : Steps machine (.init .noStreams stdin capacity) _ _ :=
        Steps.refl.step (l := .error "spawn EMFILE") rfl
      exact absurd (hsafe _ _ hrun).symm Bool.false_ne_true
    | throws err => exact ⟨err, rfl⟩
  · rintro ⟨err, rfl⟩ tr s h
    refine (h.keeps (I := fun _ s => s.spawn = .throws err ∧ s.uncaught = false) ⟨rfl, rfl⟩ ?_).2
    rintro tr s l s' new - ⟨hspawn, hun⟩ hstep
    have hnone : machine.step s l = none := by
      show (if s.uncaught then none else s.next l) = none
      rw [if_neg (by simp [hun])]
      unfold State.next
      rw [hspawn]
    rw [hnone] at hstep
    cases hstep

end

end CodeHive.Api.ChildEvents
