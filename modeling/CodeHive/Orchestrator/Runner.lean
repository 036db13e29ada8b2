import CodeHive.Concurrency.Interleaving
import CodeHive.Go.Sync
import CodeHive.Orchestrator.Types
import Mathlib.Tactic.Simps.Basic

/-! # The dispatcher

`Dispatcher` of `internal/runner/runner.go`, with the goroutines that move around it: its worker
loops, callers of `Submit`, `Dequeue` and `Stop`, and the holders of the result channels. A job is
known by the order in which `Submit` was called; that number stands for the pointer to it. -/

namespace CodeHive.Orchestrator.Runner

set_option autoImplicit false

open CodeHive.Concurrency.Interleaving CodeHive.Go.Sync CodeHive.Orchestrator.Types

/-! ### The dispatcher -/

structure Worker where
  ID : String
  RunningJobs : ℤ
  MaxJobs : ℤ
  Status : String

structure Dispatcher where
  jobQueue : Chan ℕ
  workers : List Worker
  maxWorkers : ℕ
  /-- Whether `stopCh` is closed. -/
  stopCh : Bool
  stopOnce : Once
  wg : ℕ
  results : Map ExecutionResult
  heartbeats : Map Time

def NewDispatcher (maxWorkers : ℕ) : Dispatcher where
  jobQueue := .make 1000
  workers := (List.range maxWorkers).map fun i =>
    { ID := s!"worker-{i + 1}", RunningJobs := 0, MaxJobs := 5, Status := "idle" }
  maxWorkers := maxWorkers
  stopCh := false
  stopOnce := .fresh
  wg := 0
  results := ∅
  heartbeats := ∅

/-- The queue after a receive, or after a `default` branch that found nothing to receive. -/
def Dispatcher.Dequeue (d : Dispatcher) : Option ℕ × Dispatcher :=
  match d.jobQueue.recv with
  | some (job, q) => (some job, { d with jobQueue := q })
  | none => (none, d)

def Dispatcher.StoreResult (d : Dispatcher) (jobId : String) (result : ExecutionResult) :
    Dispatcher :=
  { d with results := d.results.Store jobId result }

def Dispatcher.RecordHeartbeat (d : Dispatcher) (workerId : String) (now : Time) : Dispatcher :=
  { d with heartbeats := d.heartbeats.Store workerId now }

/-- `w.RunningJobs++` and `w.Status = "running"`. -/
def Worker.begin (w : Worker) : Worker :=
  { w with RunningJobs := w.RunningJobs + 1, Status := "running" }

/-- `w.RunningJobs--`, and `idle` at zero. -/
def Worker.finish (w : Worker) : Worker :=
  { w with
    RunningJobs := w.RunningJobs - 1
    Status := if w.RunningJobs - 1 = 0 then "idle" else w.Status }

/-- What `executor.Execute` returns; `execErr` is the text of its error. -/
structure Output where
  stdout : String
  stderr : String
  exitCode : ℤ
  execErr : Option String
  deriving DecidableEq

/-- The result that `executeJob` sends. -/
def resultOf (req : ExecutionRequest) (out : Output) (elapsed : Duration) (now : Time) :
    ExecutionResult where
  ID := req.ID
  Stdout := out.stdout
  Stderr := out.stderr
  ExitCode := out.exitCode
  Duration := elapsed
  Error := out.execErr.getD ""
  Status := if out.execErr.isSome then JobStatusFailed else JobStatusCompleted
  CreatedAt := req.CreatedAt
  UpdatedAt := now

/-! ### The goroutines -/

/-- Where a worker loop is. -/
inductive Loop where
  /-- At the `select`. -/
  | select
  /-- It has received a job and not counted it yet. -/
  | received (job : ℕ)
  /-- In `executor.Execute`. -/
  | executing (job : ℕ)
  /-- About to send the result. -/
  | sending (job : ℕ) (result : ExecutionResult)
  /-- The result is sent, and the job still counted. -/
  | sent (job : ℕ)
  /-- It has seen `stopCh` closed; `wg.Done` is left. -/
  | stopping
  | exited

/-- Where a call of `Stop` is. -/
inductive Stopper where
  /-- Before `stopOnce`. -/
  | calling
  /-- It has closed `stopCh` and waits for the loops. -/
  | waiting
  | returned

structure State where
  d : Dispatcher
  jobs : List Job
  /-- The result channels, by address. -/
  chans : List (Chan ExecutionResult)
  /-- The jobs whose `Submit` has not sent them yet. -/
  submitting : List ℕ
  loops : List Loop
  stops : List Stopper

/-- `Start`: one loop for each worker. -/
def Dispatcher.Start (d : Dispatcher) : State where
  d := { d with wg := d.wg + d.maxWorkers }
  jobs := []
  chans := []
  submitting := []
  loops := List.replicate d.maxWorkers .select
  stops := []

/-- What is seen of a run. -/
inductive Event where
  /-- `Submit` of a job has completed. -/
  | sent (job : ℕ)
  /-- A worker loop has received a job. -/
  | received (worker job : ℕ)
  /-- A worker loop calls `Execute` for a job. -/
  | execute (worker job : ℕ)
  /-- `Execute` has returned. -/
  | executed (worker job : ℕ) (out : Output)
  /-- The result of a job is sent. -/
  | result (job : ℕ) (r : ExecutionResult)
  /-- A result is received from a channel. -/
  | delivered (chan : ℕ) (r : ExecutionResult)
  /-- `Dequeue` returns a job. -/
  | dequeued (job : ℕ)

/-- How a worker loop goes on: by a branch of its `select`, with what `Execute` returned and when,
or in the only way it can. -/
inductive LoopStep where
  | stopCh
  | jobQueue
  | returned (out : Output) (elapsed : Duration) (now : Time)
  | next

inductive Label where
  /-- A goroutine makes a job with a result channel of its own and calls `Submit`. -/
  | submit (request : ExecutionRequest) (createdAt : Time) (priority : ℤ)
  /-- A call of `Submit` sends its job. -/
  | send (job : ℕ)
  /-- The holder of a result channel receives from it. -/
  | receive (chan : ℕ)
  | dequeue
  | loop (worker : ℕ) (step : LoopStep)
  /-- `Stop` is called. -/
  | callStop
  /-- A call of `Stop` goes on. -/
  | stop (k : ℕ)
  | storeResult (jobId : String) (result : ExecutionResult)
  | recordHeartbeat (workerId : String) (now : Time)

/-! ### The steps -/

/-- Worker loop `i` goes on to `l`. -/
@[simps] def State.goto (s : State) (i : ℕ) (l : Loop) : State := { s with loops := s.loops.set i l }

@[simps] def State.withQueue (s : State) (q : Chan ℕ) : State :=
  { s with d := { s.d with jobQueue := q } }

@[simps] def State.withWorker (s : State) (i : ℕ) (f : Worker → Worker) : State :=
  { s with d := { s.d with workers := s.d.workers.modify i f } }

/-- The job is made and `Submit` called. -/
def State.submit (s : State) (request : ExecutionRequest) (createdAt : Time) (priority : ℤ) :
    State :=
  { s with
    jobs := s.jobs ++ [⟨request, s.chans.length, createdAt, priority⟩]
    chans := s.chans ++ [.make 1]
    submitting := s.submitting ++ [s.jobs.length] }

/-- `d.jobQueue <- job`. -/
def State.send (s : State) (job : ℕ) : Option State :=
  if job ∈ s.submitting then do
    let q ← s.d.jobQueue.send job
    return { s.withQueue q with submitting := s.submitting.erase job }
  else none

/-- `<-resultCh`. -/
def State.receive (s : State) (chan : ℕ) : Option (ExecutionResult × State) := do
  let c ← s.chans[chan]?
  let (r, c) ← c.recv
  return (r, { s with chans := s.chans.set chan c })

def State.dequeue (s : State) : State × List Event :=
  ({ s with d := s.d.Dequeue.2 }, (s.d.Dequeue.1.map Event.dequeued).toList)

/-- `job.ResultCh <- result`. -/
def State.sendResult (s : State) (job : ℕ) (result : ExecutionResult) :
    Option (State × List Event) := do
  let j ← s.jobs[job]?
  let c ← s.chans[j.ResultCh]?
  let c ← c.send result
  return ({ s with chans := s.chans.set j.ResultCh c }, [.result job result])

/-- `workerLoop`, with `executeJob`. -/
def State.workerLoop (s : State) (i : ℕ) (step : LoopStep) : Option (State × List Event) := do
  match ← s.loops[i]?, step with
  | .select, .stopCh => if s.d.stopCh then return (s.goto i .stopping, []) else none
  | .select, .jobQueue =>
    let (job, q) ← s.d.jobQueue.recv
    return ((s.withQueue q).goto i (.received job), [.received i job])
  | .received job, .next =>
    return ((s.withWorker i Worker.begin).goto i (.executing job), [.execute i job])
  | .executing job, .returned out elapsed now =>
    let j ← s.jobs[job]?
    return (s.goto i (.sending job (resultOf j.Request out elapsed now)), [.executed i job out])
  | .sending job result, .next =>
    let (s, es) ← s.sendResult job result
    return (s.goto i (.sent job), es)
  | .sent _, .next => return ((s.withWorker i Worker.finish).goto i .select, [])
  | .stopping, .next =>
    return ({ s with d := { s.d with wg := s.d.wg - 1 } }.goto i .exited, [])
  | _, _ => none

/-- `Stop`: the first call closes `stopCh` and waits; the others wait for it. -/
def State.stop (s : State) (k : ℕ) : Option State := do
  match ← s.stops[k]?, s.d.stopOnce with
  | .calling, .fresh =>
    return { s with
      d := { s.d with stopOnce := .running, stopCh := true }, stops := s.stops.set k .waiting }
  | .calling, .done => return { s with stops := s.stops.set k .returned }
  | .waiting, _ =>
    if s.d.wg = 0 then
      return { s with d := { s.d with stopOnce := .done }, stops := s.stops.set k .returned }
    else none
  | _, _ => none

/-- **The dispatcher and those who use it.** -/
def runner : Automaton State Label Event where
  step s
    | .submit request createdAt priority => some (s.submit request createdAt priority, [])
    | .send job => (s.send job).map fun s => (s, [.sent job])
    | .receive chan => (s.receive chan).map fun x => (x.2, [.delivered chan x.1])
    | .dequeue => some s.dequeue
    | .loop i step => s.workerLoop i step
    | .callStop => some ({ s with stops := s.stops ++ [.calling] }, [])
    | .stop k => (s.stop k).map fun s => (s, [])
    | .storeResult jobId result => some ({ s with d := s.d.StoreResult jobId result }, [])
    | .recordHeartbeat workerId now => some ({ s with d := s.d.RecordHeartbeat workerId now }, [])

/-- A new dispatcher with `n` workers, started. -/
def start (n : ℕ) : State := (NewDispatcher n).Start

/-! ### What a step can do -/

/-- **The moves of the dispatcher**, other than calls of `Submit`: the state before, the state after,
and what is seen. -/
inductive Move : State → State → List Event → Prop where
  | send {s : State} {job : ℕ} {q : Chan ℕ} (hjob : job ∈ s.submitting)
      (hq : s.d.jobQueue.send job = some q) :
      Move s { s.withQueue q with submitting := s.submitting.erase job } [.sent job]
  | receive {s : State} {chan : ℕ} {c c' : Chan ExecutionResult} {r : ExecutionResult}
      (hc : s.chans[chan]? = some c) (hr : c.recv = some (r, c')) :
      Move s { s with chans := s.chans.set chan c' } [.delivered chan r]
  | dequeue {s : State} {job : ℕ} {q : Chan ℕ} (hq : s.d.jobQueue.recv = some (job, q)) :
      Move s (s.withQueue q) [.dequeued job]
  | take {s : State} {i job : ℕ} {q : Chan ℕ} (hi : s.loops[i]? = some .select)
      (hq : s.d.jobQueue.recv = some (job, q)) :
      Move s ((s.withQueue q).goto i (.received job)) [.received i job]
  | execute {s : State} {i job : ℕ} (hi : s.loops[i]? = some (.received job)) :
      Move s ((s.withWorker i Worker.begin).goto i (.executing job)) [.execute i job]
  | executed {s : State} {i job : ℕ} {j : Job} (out : Output) (elapsed : Duration) (now : Time)
      (hi : s.loops[i]? = some (.executing job)) (hj : s.jobs[job]? = some j) :
      Move s (s.goto i (.sending job (resultOf j.Request out elapsed now))) [.executed i job out]
  | result {s : State} {i job : ℕ} {r : ExecutionResult} {j : Job} {c c' : Chan ExecutionResult}
      (hi : s.loops[i]? = some (.sending job r)) (hj : s.jobs[job]? = some j)
      (hc : s.chans[j.ResultCh]? = some c) (hs : c.send r = some c') :
      Move s ({ s with chans := s.chans.set j.ResultCh c' }.goto i (.sent job)) [.result job r]
  | finish {s : State} {i job : ℕ} (hi : s.loops[i]? = some (.sent job)) :
      Move s ((s.withWorker i Worker.finish).goto i .select) []
  | seeStop {s : State} {i : ℕ} (hi : s.loops[i]? = some .select) (hstop : s.d.stopCh = true) :
      Move s (s.goto i .stopping) []
  | exit {s : State} {i : ℕ} (hi : s.loops[i]? = some .stopping) :
      Move s ({ s with d := { s.d with wg := s.d.wg - 1 } }.goto i .exited) []
  | callStop (s : State) : Move s { s with stops := s.stops ++ [.calling] } []
  | close {s : State} {k : ℕ} (hk : s.stops[k]? = some .calling) (honce : s.d.stopOnce = .fresh) :
      Move s { s with
        d := { s.d with stopOnce := .running, stopCh := true }, stops := s.stops.set k .waiting } []
  | returned {s : State} {k : ℕ} (hk : s.stops[k]? = some .calling) (honce : s.d.stopOnce = .done) :
      Move s { s with stops := s.stops.set k .returned } []
  | waited {s : State} {k : ℕ} (hk : s.stops[k]? = some .waiting) (hwg : s.d.wg = 0) :
      Move s { s with
        d := { s.d with stopOnce := .done }, stops := s.stops.set k .returned } []
  /-- What is recorded from outside touches nothing that the moves above use. -/
  | record (s : State) (results : Map ExecutionResult) (heartbeats : Map Time) :
      Move s { s with d := { s.d with results := results, heartbeats := heartbeats } } []

/-- `Dequeue` takes the job at the head of the queue, or finds it empty. -/
theorem Dispatcher.Dequeue_cases (d : Dispatcher) :
    (∃ job q, d.jobQueue.recv = some (job, q) ∧ d.Dequeue = (some job, { d with jobQueue := q })) ∨
      (d.jobQueue.buf = [] ∧ d.Dequeue = (none, d)) := by
  unfold Dispatcher.Dequeue
  cases hq : d.jobQueue.recv with
  | none => exact Or.inr ⟨Chan.recv_eq_none.mp hq, rfl⟩
  | some x => exact Or.inl ⟨x.1, x.2, rfl, rfl⟩

theorem move_of_dequeue (s : State) : Move s s.dequeue.1 s.dequeue.2 := by
  unfold State.dequeue
  rcases s.d.Dequeue_cases with ⟨job, q, hq, hd⟩ | ⟨-, hd⟩
  · rw [hd]
    exact .dequeue hq
  · rw [hd]
    exact .record s _ _

theorem move_of_send {s s' : State} {job : ℕ} (h : s.send job = some s') :
    Move s s' [.sent job] := by
  unfold State.send at h
  split at h
  · next hjob =>
    obtain ⟨q, hq, h⟩ := Option.bind_eq_some_iff.mp h
    cases h
    exact .send hjob hq
  · cases h

theorem move_of_receive {s s' : State} {chan : ℕ} {r : ExecutionResult}
    (h : s.receive chan = some (r, s')) : Move s s' [.delivered chan r] := by
  obtain ⟨c, hc, h⟩ := Option.bind_eq_some_iff.mp h
  obtain ⟨⟨r, c'⟩, hr, h⟩ := Option.bind_eq_some_iff.mp h
  cases h
  exact .receive hc hr

theorem move_of_workerLoop {s s' : State} {i : ℕ} {step : LoopStep} {es : List Event}
    (h : s.workerLoop i step = some (s', es)) : Move s s' es := by
  obtain ⟨l, hi, h⟩ := Option.bind_eq_some_iff.mp h
  split at h
  · split at h
    · next hstop => cases h; exact .seeStop hi hstop
    · cases h
  · obtain ⟨⟨job, q⟩, hq, h⟩ := Option.bind_eq_some_iff.mp h
    cases h
    exact .take hi hq
  · cases h
    exact .execute hi
  · obtain ⟨j, hj, h⟩ := Option.bind_eq_some_iff.mp h
    cases h
    exact .executed _ _ _ hi hj
  · obtain ⟨⟨s₁, es₁⟩, h₁, h⟩ := Option.bind_eq_some_iff.mp h
    obtain ⟨j, hj, h₁⟩ := Option.bind_eq_some_iff.mp h₁
    obtain ⟨c, hc, h₁⟩ := Option.bind_eq_some_iff.mp h₁
    obtain ⟨c', hs, h₁⟩ := Option.bind_eq_some_iff.mp h₁
    cases h₁
    cases h
    exact .result hi hj hc hs
  · cases h
    exact .finish hi
  · cases h
    exact .exit hi
  · cases h

theorem move_of_stop {s s' : State} {k : ℕ} (h : s.stop k = some s') : Move s s' [] := by
  obtain ⟨x, hk, h⟩ := Option.bind_eq_some_iff.mp h
  split at h
  · next honce => cases h; exact .close hk honce
  · next honce => cases h; exact .returned hk honce
  · split at h
    · next hwg => cases h; exact .waited hk hwg
    · cases h
  · cases h

/-- **Every step is a call of `Submit` or a move.** -/
theorem step_cases {s s' : State} {l : Label} {es : List Event}
    (h : runner.step s l = some (s', es)) :
    (∃ request createdAt priority, l = .submit request createdAt priority ∧
      s' = s.submit request createdAt priority ∧ es = []) ∨ Move s s' es := by
  cases l with
  | submit request createdAt priority =>
    cases h
    exact Or.inl ⟨request, createdAt, priority, rfl, rfl, rfl⟩
  | send job =>
    obtain ⟨s₁, h₁, h⟩ := Option.map_eq_some_iff.mp h
    cases h
    exact Or.inr (move_of_send h₁)
  | receive chan =>
    obtain ⟨⟨r, s₁⟩, h₁, h⟩ := Option.map_eq_some_iff.mp h
    cases h
    exact Or.inr (move_of_receive h₁)
  | dequeue => cases h; exact Or.inr (move_of_dequeue s)
  | loop i step => exact Or.inr (move_of_workerLoop h)
  | callStop => cases h; exact Or.inr (.callStop s)
  | stop k =>
    obtain ⟨s₁, h₁, h⟩ := Option.map_eq_some_iff.mp h
    cases h
    exact Or.inr (move_of_stop h₁)
  | storeResult jobId result => cases h; exact Or.inr (.record s _ _)
  | recordHeartbeat workerId now => cases h; exact Or.inr (.record s _ _)

/-- What a call of `Submit` and every move keep, holds in every run. -/
theorem keeps_of_moves {s₀ : State} {I : List Event → State → Prop} (h₀ : I [] s₀)
    (hsubmit : ∀ es s request createdAt priority, I es s →
      I es (s.submit request createdAt priority))
    (hmove : ∀ es s s' new, I es s → Move s s' new → I (es ++ new) s') {es : List Event}
    {s : State} (h : Reaches runner s₀ es s) : I es s := by
  refine h.keeps h₀ fun es s l s' new _ hI hs => ?_
  rcases step_cases hs with ⟨request, createdAt, priority, -, rfl, rfl⟩ | hm
  · rw [List.append_nil]
    exact hsubmit es s request createdAt priority hI
  · exact hmove es s s' new hI hm

/-- Only `Submit` makes jobs and channels. -/
theorem Move.jobs {s s' : State} {new : List Event} (hm : Move s s' new) : s'.jobs = s.jobs := by
  cases hm <;> rfl

/-! ### Pieces of schedules -/

/-- A request, and what its program may return. -/
def request (id : String) : ExecutionRequest :=
  { ID := id, Language := "python", Code := "print(1)", Stdin := "", Timeout := 30
    MemoryLimit := 0, CreatedAt := 0 }

def output (stdout : String) : Output :=
  { stdout := stdout, stderr := "", exitCode := 0, execErr := none }

/-- Worker loop `i` takes a job and executes it, until its result is sent. -/
def execution (i : ℕ) (stdout : String) : List Label :=
  [.loop i .jobQueue, .loop i .next, .loop i (.returned (output stdout) 1 2), .loop i .next]

end CodeHive.Orchestrator.Runner
