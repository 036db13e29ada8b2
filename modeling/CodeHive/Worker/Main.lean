import CodeHive.Lists.Slots
import CodeHive.Worker.Sandbox

/-! # The worker

The job poll loop of `main.rs` and the tasks that it spawns. The loop asks a server for one job
after the other; each job is executed, counted and reported by a task of its own. What a response
with status 200 hands out is known by the number of such responses before it. The counters of
completed and failed jobs are numbers without a bound here. -/

namespace CodeHive.Worker.Main

set_option autoImplicit false

open CodeHive.Concurrency.Interleaving CodeHive.Js.Value CodeHive.Lists.Slots CodeHive.Os.Process
open CodeHive.Worker.Types CodeHive.Worker.Commands

/-- Where a task is. -/
inductive Stage where
  /-- In `sandbox.execute`, or with its result. -/
  | executing (x : Sandbox.State)
  /-- In `send` of the result. -/
  | reporting (res : ExecutionResult)
  /-- The result has been sent, or not; `active` is about to be decremented. -/
  | leaving
  | exited

structure Task where
  job : ExecutionJob
  /-- What the task was spawned for, if the response had status 200. -/
  handed : Option ℕ
  stage : Stage

/-- Where the poll loop is. -/
inductive Poll where
  /-- In `tick`. -/
  | ticking
  /-- In `send` of the request. -/
  | requesting
  /-- In `json` of a response. -/
  | reading (handed : Option ℕ)

structure State where
  poll : Poll
  active_jobs : UInt32
  completed_jobs : ℕ
  failed_jobs : ℕ
  tasks : List Task
  /-- How many responses had status 200. -/
  handed : ℕ

/-- The poll loop has been spawned. -/
def State.init : State := ⟨.ticking, 0, 0, 0, [], 0⟩

def State.at (s : State) (poll : Poll) : State := { s with poll := poll }

def Task.at (t : Task) (stage : Stage) : Task := { t with stage := stage }

/-- Task `i` goes on. -/
def State.goto (s : State) (i : ℕ) (t : Task) (stage : Stage) : State :=
  { s with tasks := s.tasks.set i (t.at stage) }

/-- How a task goes on, with what the network answers: an error, or a status. -/
inductive TaskStep where
  | sandbox (l : Sandbox.Label)
  | count
  | posted (answer : Except String ℕ)
  | leave

inductive Label where
  | tick
  | responded (answer : Except String ℕ)
  /-- The body of the response, if it has arrived and is JSON. -/
  | body (body : Option Json)
  | task (i : ℕ) (step : TaskStep)

inductive Event where
  | handed (k : ℕ)
  | body (k : Option ℕ) (body : Option Json)
  | sandbox (i : ℕ) (e : Sandbox.Event)
  /-- Task `i` has been counted, as completed or as failed. -/
  | counted (i : ℕ) (completed : Bool)
  | posted (i : ℕ) (answer : Except String ℕ)
  | left (i : ℕ)

/-- The result that is reported when `execute` fails. -/
def failureOf (job : ExecutionJob) (e : String) : ExecutionResult where
  id := job.id
  success := false
  stdout := ""
  stderr := ""
  exit_code := none
  duration_ms := 0
  memory_used_mb := none
  error := some e
  timed_out := false

/-- `resp.json::<ExecutionJob>()`. -/
def jobOf (body : Option Json) : Option ExecutionJob := body.bind ExecutionJob.deserialize

/-- The limit is checked. -/
def State.tick (r : Runner) (s : State) : State :=
  if r.config.max_concurrent_jobs ≤ s.active_jobs then s else s.at .requesting

/-- A response has come. -/
def State.responded (s : State) : Except String ℕ → State × List Event
  | .error _ => (s.at .ticking, [])
  | .ok status =>
    if status = 204 then (s.at .ticking, [])
    else if status = 200 then
      ({ s with poll := .reading (some s.handed), handed := s.handed + 1 }, [.handed s.handed])
    else (s.at (.reading none), [])

/-- The body of a response has come: a task is spawned, or a warning logged. -/
def State.read (s : State) (k : Option ℕ) (body : Option Json) : State :=
  match jobOf body with
  | some job =>
    { s with
      poll := .ticking
      active_jobs := s.active_jobs + 1
      tasks := s.tasks ++ [⟨job, k, .executing .init⟩] }
  | none => s.at .ticking

/-- A task goes on. -/
def State.task (r : Runner) (s : State) (i : ℕ) (t : Task) (step : TaskStep) :
    Option (State × List Event) :=
  match t.stage, step with
  | .executing x, .sandbox l => do
    let (x', new) ← (Sandbox.machine r t.job).step x l
    return (s.goto i t (.executing x'), new.map (.sandbox i))
  | .executing x, .count =>
    match x.phase with
    | .returned (.ok res) =>
      some ({ s.goto i t (.reporting res) with completed_jobs := s.completed_jobs + 1 },
        [.counted i true])
    | .returned (.error e) =>
      some ({ s.goto i t (.reporting (failureOf t.job e)) with failed_jobs := s.failed_jobs + 1 },
        [.counted i false])
    | _ => none
  | .reporting _, .posted answer => some (s.goto i t .leaving, [.posted i answer])
  | .leaving, .leave =>
    some ({ s.goto i t .exited with active_jobs := s.active_jobs - 1 }, [.left i])
  | _, _ => none

/-- The worker. -/
def worker (r : Runner) : Automaton State Label Event where
  step s l :=
    match s.poll, l with
    | .ticking, .tick => some (s.tick r, [])
    | .requesting, .responded answer => some (s.responded answer)
    | .reading k, .body body => some (s.read k body, [.body k body])
    | _, .task i step => do s.task r i (← s.tasks[i]?) step
    | _, _ => none

/-! ### The steps, one by one -/

/-- The steps of the worker, with what each needs. -/
inductive Move (r : Runner) (s : State) : State → List Event → Prop where
  | full (hp : s.poll = .ticking) (hlimit : r.config.max_concurrent_jobs ≤ s.active_jobs) :
    Move r s s []
  | request (hp : s.poll = .ticking) (hlimit : s.active_jobs < r.config.max_concurrent_jobs) :
    Move r s (s.at .requesting) []
  | nothing (hp : s.poll = .requesting) : Move r s (s.at .ticking) []
  | handed (hp : s.poll = .requesting) :
    Move r s { s with poll := .reading (some s.handed), handed := s.handed + 1 } [.handed s.handed]
  | other (hp : s.poll = .requesting) : Move r s (s.at (.reading none)) []
  | spawn {k : Option ℕ} {body : Option Json} {job : ExecutionJob} (hp : s.poll = .reading k)
    (hj : jobOf body = some job) :
    Move r s { s with
      poll := .ticking
      active_jobs := s.active_jobs + 1
      tasks := s.tasks ++ [⟨job, k, .executing .init⟩] } [.body k body]
  | discard {k : Option ℕ} {body : Option Json} (hp : s.poll = .reading k)
    (hj : jobOf body = none) : Move r s (s.at .ticking) [.body k body]
  | sandbox {i : ℕ} {t : Task} {x x' : Sandbox.State} {l : Sandbox.Label}
    {new : List Sandbox.Event} (hi : s.tasks[i]? = some t) (ht : t.stage = .executing x)
    (hx : (Sandbox.machine r t.job).step x l = some (x', new)) :
    Move r s (s.goto i t (.executing x')) (new.map (.sandbox i))
  | completed {i : ℕ} {t : Task} {x : Sandbox.State} {res : ExecutionResult}
    (hi : s.tasks[i]? = some t) (ht : t.stage = .executing x)
    (hx : x.phase = .returned (.ok res)) :
    Move r s { s.goto i t (.reporting res) with completed_jobs := s.completed_jobs + 1 }
      [.counted i true]
  | failed {i : ℕ} {t : Task} {x : Sandbox.State} {e : String}
    (hi : s.tasks[i]? = some t) (ht : t.stage = .executing x)
    (hx : x.phase = .returned (.error e)) :
    Move r s
      { s.goto i t (.reporting (failureOf t.job e)) with failed_jobs := s.failed_jobs + 1 }
      [.counted i false]
  | posted {i : ℕ} {t : Task} {res : ExecutionResult} {answer : Except String ℕ}
    (hi : s.tasks[i]? = some t) (ht : t.stage = .reporting res) :
    Move r s (s.goto i t .leaving) [.posted i answer]
  | leave {i : ℕ} {t : Task} (hi : s.tasks[i]? = some t) (ht : t.stage = .leaving) :
    Move r s { s.goto i t .exited with active_jobs := s.active_jobs - 1 } [.left i]

section
variable {r : Runner} {s s' : State} {new : List Event}

theorem move_of_task {i : ℕ} {t : Task} {step : TaskStep} (hi : s.tasks[i]? = some t)
    (h : s.task r i t step = some (s', new)) : Move r s s' new := by
  unfold State.task at h
  split at h
  case h_1 x l ht =>
    obtain ⟨⟨x', new'⟩, hx, h⟩ := Option.bind_eq_some_iff.mp h
    cases h
    exact .sandbox hi ht hx
  case h_2 x ht =>
    split at h
    case h_1 hx => cases h; exact .completed hi ht hx
    case h_2 hx => cases h; exact .failed hi ht hx
    case h_3 => cases h
  case h_3 ht => cases h; exact .posted hi ht
  case h_4 ht => cases h; exact .leave hi ht
  case h_5 => cases h

/-- **Every step of the worker is one of these.** -/
theorem move_of_step {l : Label} (h : (worker r).step s l = some (s', new)) : Move r s s' new := by
  unfold worker at h
  simp only at h
  split at h
  case h_1 hp =>
    cases h
    unfold State.tick
    split
    case isTrue hfull => exact .full hp hfull
    case isFalse hfree => exact .request hp (UInt32.not_le.mp hfree)
  case h_2 answer hp =>
    have h := Option.some.inj h
    unfold State.responded at h
    split at h
    · cases h; exact .nothing hp
    · split_ifs at h
      · cases h; exact .nothing hp
      · cases h; exact .handed hp
      · cases h; exact .other hp
  case h_3 k body hp =>
    cases h
    unfold State.read
    split
    case h_1 hj => exact .spawn hp hj
    case h_2 hj => exact .discard hp hj
  case h_4 =>
    obtain ⟨t, hi, h⟩ := Option.bind_eq_some_iff.mp h
    exact move_of_task hi h
  case h_5 => cases h

end

end CodeHive.Worker.Main
