import CodeHive.Orchestrator.Runner

/-! # The API server of the orchestrator

`Server` of `internal/api/api.go` on a started dispatcher, with the goroutines it runs: the handlers
of `POST /api/execute`, the collectors they start, and the handlers of `GET /api/status/`. A body is
what `json.NewDecoder(r.Body).Decode` leaves, `none` where it fails. -/

namespace CodeHive.Orchestrator.ApiServer

set_option autoImplicit false

open CodeHive.Concurrency.Interleaving CodeHive.Go.Sync CodeHive.Orchestrator.Types
open CodeHive.Orchestrator.Runner

/-! ### Replies -/

inductive Body where
  /-- `{ error }`. -/
  | error (msg : String)
  /-- `{ id, status }`. -/
  | accepted (id : String) (status : JobStatus)
  | result (r : ExecutionResult)
  deriving DecidableEq

structure Reply where
  code : ℕ
  body : Body
  deriving DecidableEq

def writeError (code : ℕ) (msg : String) : Reply := ⟨code, .error msg⟩

/-! ### The database -/

/-- The rows of `execution_results`, by id. -/
abbrev Rows := Map ExecutionResult

/-- The upsert of `SaveResult`; the row that is there keeps its `created_at`. -/
def Rows.SaveResult (rows : Rows) (result : ExecutionResult) : Rows :=
  Map.Store rows result.ID
    { result with CreatedAt := ((Map.Load rows result.ID).map (·.CreatedAt)).getD result.CreatedAt }

/-- `GetResult`; a query may fail. -/
def Rows.GetResult (rows : Rows) (id : String) (fails : Bool) : Option ExecutionResult :=
  if fails then none else Map.Load rows id

/-! ### The goroutines -/

/-- Where a handler of `POST /api/execute` is. -/
inductive Handler where
  /-- In `Submit`. -/
  | submitting
  /-- The job is sent. -/
  | submitted
  /-- The collector is started. -/
  | started
  | answered
  deriving DecidableEq

/-- Where the collector of a handler is. -/
inductive Collector where
  | none
  /-- At `<-resultCh`. -/
  | waiting
  | storing (result : ExecutionResult)
  | saving (result : ExecutionResult)
  | done
  deriving DecidableEq

/-- A request that was not refused, its handler and its collector. -/
structure Submission where
  req : ExecutionRequest
  job : ℕ
  resultCh : ℕ
  handler : Handler
  collector : Collector

/-- A handler of `GET /api/status/`. -/
inductive Query where
  /-- The results map had nothing; the database is asked. -/
  | querying (id : String)
  | answered

structure Server where
  runner : State
  db : Option Rows
  results : Map ExecutionResult
  submissions : List Submission
  queries : List Query

/-- `NewServer`. -/
def NewServer (runner : State) (db : Option Rows) : Server := ⟨runner, db, ∅, [], []⟩

/-- What is seen of a run. -/
inductive Event where
  | runner (e : Runner.Event)
  /-- A request is refused. -/
  | refused (reply : Reply)
  /-- Submission `h` is made, with this id in its body and this reading of the clock. -/
  | received (h : ℕ) (supplied : String) (now : Time)
  /-- The job of submission `h` is sent. -/
  | submitted (h : ℕ) (id : String)
  /-- Submission `h` is answered with 202. -/
  | accepted (h : ℕ) (reply : Reply)
  /-- The collector of submission `h` has stored a result. -/
  | stored (h : ℕ) (id : String) (result : ExecutionResult)
  /-- The collector of submission `h` has saved a result in the database. -/
  | saved (h : ℕ) (result : ExecutionResult)
  /-- Status request `k` has looked into the results map. -/
  | asked (k : ℕ) (id : String)
  /-- The database has answered status request `k`, or failed. -/
  | queried (k : ℕ) (fails : Bool)
  /-- Status request `k` is answered. -/
  | told (k : ℕ) (id : String) (reply : Reply)

inductive Label where
  /-- A request for `POST /api/execute`, and three readings of the clock. -/
  | execute (method : String) (body : Option ExecutionRequest) (now₁ now₂ now₃ : Time)
  /-- The handler of a submission goes on. -/
  | handler (h : ℕ)
  /-- The collector of a submission goes on; `fails` where the database refuses the row. -/
  | collector (h : ℕ) (fails : Bool)
  /-- A request for `GET /api/status/`, with what follows the slash. -/
  | status (method id : String)
  /-- The database answers status request `k`. -/
  | query (k : ℕ) (fails : Bool)
  /-- The dispatcher goes on, or is used by others than this server. -/
  | runner (l : Runner.Label)

/-! ### The steps -/

/-- `fmt.Sprintf("job-%d", now.UnixNano())`. -/
def generatedID (now : Time) : String := "job-" ++ toString now

/-- The id under which a request is executed. -/
def idOf (supplied : String) (now : Time) : String :=
  if supplied = "" then generatedID now else supplied

/-- The request that is submitted: defaults filled in. -/
def withDefaults (body : ExecutionRequest) (now₁ now₂ : Time) : ExecutionRequest :=
  { body with
    ID := idOf body.ID now₁
    Timeout := if body.Timeout ≤ 0 then 30 else body.Timeout
    CreatedAt := now₂ }

/-- A request is admitted: `Submit` is called with a job and a result channel of its own. -/
def Server.enroll (s : Server) (req : ExecutionRequest) (now : Time) : Server :=
  { s with
    runner := s.runner.submit req now 0
    submissions := s.submissions ++
      [⟨req, s.runner.jobs.length, s.runner.chans.length, .submitting, .none⟩] }

/-- `handleExecute`, up to the call of `Submit`. -/
def Server.execute (s : Server) (method : String) (body : Option ExecutionRequest)
    (now₁ now₂ now₃ : Time) : Server × List Event :=
  if method ≠ "POST" then (s, [.refused (writeError 405 "method not allowed")])
  else
    match body with
    | none => (s, [.refused (writeError 400 "invalid request body")])
    | some body => (s.enroll (withDefaults body now₁ now₂) now₃,
        [.received s.submissions.length body.ID now₁])

/-- Submission `h` goes on to `x`. -/
@[simps] def Server.goto (s : Server) (h : ℕ) (x : Submission) : Server :=
  { s with submissions := s.submissions.set h x }

@[simps] def Server.withRunner (s : Server) (runner : State) : Server := { s with runner := runner }

/-- `handleExecute`, from the call of `Submit` on. -/
def Server.handler (s : Server) (h : ℕ) : Option (Server × List Event) := do
  let x ← s.submissions[h]?
  match x.handler with
  | .submitting =>
    let runner ← s.runner.send x.job
    return ((s.withRunner runner).goto h { x with handler := .submitted },
      [.runner (.sent x.job), .submitted h x.req.ID])
  | .submitted => return (s.goto h { x with handler := .started, collector := .waiting }, [])
  | .started =>
    return (s.goto h { x with handler := .answered },
      [.accepted h ⟨202, .accepted x.req.ID JobStatusQueued⟩])
  | .answered => none

/-- The goroutine that `handleExecute` starts. -/
def Server.collector (s : Server) (h : ℕ) (fails : Bool) : Option (Server × List Event) := do
  let x ← s.submissions[h]?
  match x.collector with
  | .waiting =>
    let (result, runner) ← s.runner.receive x.resultCh
    return ((s.withRunner runner).goto h { x with collector := .storing result },
      [.runner (.delivered x.resultCh result)])
  | .storing result =>
    return ({ s with results := s.results.Store x.req.ID result }.goto h
      { x with collector := if s.db.isSome then .saving result else .done },
      [.stored h x.req.ID result])
  | .saving result =>
    if fails then return (s.goto h { x with collector := .done }, [])
    else
      return ({ s with db := s.db.map fun rows => Rows.SaveResult rows result }.goto h
        { x with collector := .done }, [.saved h result])
  | _ => none

/-- Status request `k` is answered without the database. -/
def Server.tell (s : Server) (id : String) (reply : Reply) : Server × List Event :=
  ({ s with queries := s.queries ++ [.answered] },
    [.asked s.queries.length id, .told s.queries.length id reply])

/-- `handleStatus`, up to where it is answered or asks the database. -/
def Server.status (s : Server) (method id : String) : Server × List Event :=
  if method ≠ "GET" then (s, [.refused (writeError 405 "method not allowed")])
  else if id = "" then (s, [.refused (writeError 400 "missing job id")])
  else
    match s.results.Load id with
    | some r => s.tell id ⟨200, .result r⟩
    | none =>
      if s.db.isSome then
        ({ s with queries := s.queries ++ [.querying id] }, [.asked s.queries.length id])
      else s.tell id (writeError 404 "job not found")

/-- What the database's answer makes the reply. -/
def rowReply : Option ExecutionResult → Reply
  | some r => ⟨200, .result r⟩
  | none => writeError 404 "job not found"

/-- `handleStatus`, from the answer of the database on. -/
def Server.query (s : Server) (k : ℕ) (fails : Bool) : Option (Server × List Event) := do
  match ← s.queries[k]? with
  | .querying id =>
    return ({ s with queries := s.queries.set k .answered },
      [.queried k fails, .told k id (rowReply (s.db.bind fun rows => Rows.GetResult rows id fails))])
  | .answered => none

/-- The steps of the dispatcher that are not made by a handler or a collector of the server. -/
def outside : Runner.Label → Bool
  | .submit _ _ _ => false
  | .send _ => false
  | .receive _ => false
  | _ => true

/-- **The API server of the orchestrator.** -/
def server : Automaton Server Label Event where
  step s
    | .execute method body now₁ now₂ now₃ => some (s.execute method body now₁ now₂ now₃)
    | .handler h => s.handler h
    | .collector h fails => s.collector h fails
    | .status method id => some (s.status method id)
    | .query k fails => s.query k fails
    | .runner l =>
      if outside l then
        (runner.step s.runner l).map fun x => (s.withRunner x.1, x.2.map .runner)
      else none

/-- A new server on a dispatcher with `n` workers, started. -/
def start (n : ℕ) (db : Option Rows) : Server := NewServer (Runner.start n) db

/-! ### What a step can do -/

/-- **The moves of the server**: the state before, the state after, and what is seen. -/
inductive Move : Server → Server → List Event → Prop where
  | refuse (s : Server) (reply : Reply) : Move s s [.refused reply]
  | enroll (s : Server) (body : ExecutionRequest) (now₁ now₂ now₃ : Time) :
      Move s (s.enroll (withDefaults body now₁ now₂) now₃)
        [.received s.submissions.length body.ID now₁]
  | submit {s : Server} {h : ℕ} {x : Submission} {r : State} (hx : s.submissions[h]? = some x)
      (hp : x.handler = .submitting) (hs : s.runner.send x.job = some r) :
      Move s ((s.withRunner r).goto h { x with handler := .submitted })
        [.runner (.sent x.job), .submitted h x.req.ID]
  | collect {s : Server} {h : ℕ} {x : Submission} (hx : s.submissions[h]? = some x)
      (hp : x.handler = .submitted) :
      Move s (s.goto h { x with handler := .started, collector := .waiting }) []
  | accept {s : Server} {h : ℕ} {x : Submission} (hx : s.submissions[h]? = some x)
      (hp : x.handler = .started) :
      Move s (s.goto h { x with handler := .answered })
        [.accepted h ⟨202, .accepted x.req.ID JobStatusQueued⟩]
  | deliver {s : Server} {h : ℕ} {x : Submission} {r : State} {result : ExecutionResult}
      (hx : s.submissions[h]? = some x) (hp : x.collector = .waiting)
      (hr : s.runner.receive x.resultCh = some (result, r)) :
      Move s ((s.withRunner r).goto h { x with collector := .storing result })
        [.runner (.delivered x.resultCh result)]
  | store {s : Server} {h : ℕ} {x : Submission} {result : ExecutionResult}
      (hx : s.submissions[h]? = some x) (hp : x.collector = .storing result) :
      Move s ({ s with results := s.results.Store x.req.ID result }.goto h
        { x with collector := if s.db.isSome then .saving result else .done })
        [.stored h x.req.ID result]
  | drop {s : Server} {h : ℕ} {x : Submission} {result : ExecutionResult}
      (hx : s.submissions[h]? = some x) (hp : x.collector = .saving result) :
      Move s (s.goto h { x with collector := .done }) []
  | save {s : Server} {h : ℕ} {x : Submission} {result : ExecutionResult}
      (hx : s.submissions[h]? = some x) (hp : x.collector = .saving result) :
      Move s ({ s with db := s.db.map fun rows => Rows.SaveResult rows result }.goto h
        { x with collector := .done }) [.saved h result]
  | hit {s : Server} {id : String} {r : ExecutionResult} (hr : s.results.Load id = some r) :
      Move s (s.tell id ⟨200, .result r⟩).1 (s.tell id ⟨200, .result r⟩).2
  | miss {s : Server} {id : String} (hr : s.results.Load id = none) (hdb : s.db = none) :
      Move s (s.tell id (writeError 404 "job not found")).1
        (s.tell id (writeError 404 "job not found")).2
  | ask {s : Server} {id : String} (hr : s.results.Load id = none) (hdb : s.db.isSome) :
      Move s { s with queries := s.queries ++ [.querying id] } [.asked s.queries.length id]
  | row {s : Server} {k : ℕ} {id : String} (fails : Bool) (hk : s.queries[k]? = some (.querying id)) :
      Move s { s with queries := s.queries.set k .answered }
        [.queried k fails, .told k id (rowReply (s.db.bind fun rows => Rows.GetResult rows id fails))]
  | runner {s : Server} {l : Runner.Label} {r : State} {es : List Runner.Event}
      (hl : outside l = true) (hs : Runner.runner.step s.runner l = some (r, es)) :
      Move s (s.withRunner r) (es.map .runner)

theorem move_of_execute (s : Server) (method : String) (body : Option ExecutionRequest)
    (now₁ now₂ now₃ : Time) :
    Move s (s.execute method body now₁ now₂ now₃).1 (s.execute method body now₁ now₂ now₃).2 := by
  unfold Server.execute
  split
  · exact .refuse s _
  · split
    · exact .refuse s _
    · exact .enroll s _ _ _ _

theorem move_of_handler {s s' : Server} {h : ℕ} {es : List Event}
    (hs : s.handler h = some (s', es)) : Move s s' es := by
  obtain ⟨x, hx, hs⟩ := Option.bind_eq_some_iff.mp hs
  split at hs
  · next hp =>
    obtain ⟨r, hr, hs⟩ := Option.bind_eq_some_iff.mp hs
    cases hs
    exact .submit hx hp hr
  · next hp => cases hs; exact .collect hx hp
  · next hp => cases hs; exact .accept hx hp
  · cases hs

theorem move_of_collector {s s' : Server} {h : ℕ} {fails : Bool} {es : List Event}
    (hs : s.collector h fails = some (s', es)) : Move s s' es := by
  obtain ⟨x, hx, hs⟩ := Option.bind_eq_some_iff.mp hs
  split at hs
  · next hp =>
    obtain ⟨⟨result, r⟩, hr, hs⟩ := Option.bind_eq_some_iff.mp hs
    cases hs
    exact .deliver hx hp hr
  · next hp => cases hs; exact .store hx hp
  · next hp =>
    split at hs
    · cases hs; exact .drop hx hp
    · cases hs; exact .save hx hp
  · cases hs

theorem move_of_status (s : Server) (method id : String) :
    Move s (s.status method id).1 (s.status method id).2 := by
  unfold Server.status
  split
  · exact .refuse s _
  · split
    · exact .refuse s _
    · split
      · next hr => exact .hit hr
      · next hr =>
        split
        · next hdb => exact .ask hr hdb
        · next hdb => exact .miss hr (by simpa using hdb)

theorem move_of_query {s s' : Server} {k : ℕ} {fails : Bool} {es : List Event}
    (hs : s.query k fails = some (s', es)) : Move s s' es := by
  obtain ⟨x, hk, hs⟩ := Option.bind_eq_some_iff.mp hs
  split at hs
  · cases hs; exact .row fails hk
  · cases hs

/-- **Every step is a move.** -/
theorem move_of_step {s s' : Server} {l : Label} {es : List Event}
    (h : server.step s l = some (s', es)) : Move s s' es := by
  cases l with
  | execute method body now₁ now₂ now₃ =>
    have hm := move_of_execute s method body now₁ now₂ now₃
    rw [Option.some.inj h] at hm
    exact hm
  | handler h' => exact move_of_handler h
  | collector h' fails => exact move_of_collector h
  | status method id =>
    have hm := move_of_status s method id
    rw [Option.some.inj h] at hm
    exact hm
  | query k fails => exact move_of_query h
  | runner l =>
    unfold server at h
    simp only at h
    split at h
    · next hl =>
      obtain ⟨⟨r, es⟩, hr, h⟩ := Option.map_eq_some_iff.mp h
      cases h
      exact .runner hl hr
    · cases h

/-! ### The dispatcher of the server -/

def runnerEvent : Event → Option Runner.Event
  | .runner e => some e
  | _ => none

theorem filterMap_map_runner (es : List Runner.Event) :
    (es.map Event.runner).filterMap runnerEvent = es := by
  rw [List.filterMap_map]
  exact List.filterMap_some

/-- **The dispatcher is a part of the server.** -/
theorem runner_part : Part server runner Server.runner runnerEvent where
  step s l s' new hs := by
    cases move_of_step hs with
    | enroll body now₁ now₂ now₃ => exact Or.inr ⟨.submit _ now₃ 0, rfl⟩
    | @submit h x r hx hp hr =>
      exact Or.inr ⟨.send x.job, Option.map_eq_some_iff.mpr ⟨r, hr, rfl⟩⟩
    | @deliver h x r result hx hp hr =>
      exact Or.inr ⟨.receive x.resultCh, Option.map_eq_some_iff.mpr ⟨(result, r), hr, rfl⟩⟩
    | @runner l r es hl hr =>
      exact Or.inr ⟨l, by rw [filterMap_map_runner]; exact hr⟩
    | _ => exact Or.inl ⟨rfl, rfl⟩

theorem runner_reaches {n : ℕ} {db : Option Rows} {es : List Event} {s : Server}
    (h : Reaches server (start n db) es s) :
    Reaches runner (Runner.start n) (es.filterMap runnerEvent) s.runner :=
  runner_part.reaches h

/-! ### Pieces of schedules -/

/-- Submission `h` is made with id `id` and accepted. -/
def submission (h : ℕ) (id : String) : List Label :=
  [.execute "POST" (some (request id)) 1 2 3, .handler h, .handler h, .handler h]

/-- The collector of submission `h` stores its result. -/
def collection (h : ℕ) : List Label := [.collector h false, .collector h false]

end CodeHive.Orchestrator.ApiServer
