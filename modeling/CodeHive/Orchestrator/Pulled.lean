import CodeHive.Orchestrator.UnknownJobs
import CodeHive.Orchestrator.WorkerApi

/-! # Jobs that are pulled

`api.Server` and `workerapi.Server` on one dispatcher. A job is executed by a worker loop, or taken
by a remote worker with `handleDequeue`, which reports with `handleResult`. What is reported goes
into the results map of the dispatcher; status requests look into that of the API server. Main
definitions: `servers`, the two on one dispatcher; `ReportsBack`, what a report should lead to; and
`FoundElsewhere`, the same content for another reason. Main result: `reportsBack_iff`. -/

namespace CodeHive.Orchestrator.Pulled

set_option autoImplicit false

open CodeHive.Concurrency.Interleaving CodeHive.Go.Sync CodeHive.Js.Value
open CodeHive.Orchestrator.Types CodeHive.Orchestrator.Runner CodeHive.Orchestrator.ApiServer
open CodeHive.Orchestrator.Submissions CodeHive.Orchestrator.StatusAnswers
open CodeHive.Orchestrator.FinalResults CodeHive.Orchestrator.UnknownJobs
open CodeHive.Orchestrator.WorkerApi

inductive Label where
  /-- The API server goes on, or a worker loop does. -/
  | api (l : ApiServer.Label)
  /-- A request for `handleDequeue`. -/
  | dequeue
  /-- A request for `handleResult`. -/
  | result (jobID : String) (body : Option Json) (now : Time)

inductive Event where
  | api (e : ApiServer.Event)
  /-- `handleDequeue` has taken a job and answered. -/
  | pulled (job : ℕ) (response : Response)
  /-- `handleResult` has answered 200, with this result. -/
  | reported (jobID : String) (r : ExecutionResult)

/-- Only the worker API dequeues, and stores what workers report. -/
def ofApi : ApiServer.Label → Bool
  | .runner .dequeue => false
  | .runner (.storeResult _ _) => false
  | _ => true

section
variable (time : TimeText)

/-- What `handleDequeue` takes. -/
def pullEvents (s : State) : List Event :=
  match s.d.Dequeue.1 with
  | some job => [.api (.runner (.dequeued job)), .pulled job (handleDequeue time s).1]
  | none => []

/-- The result that `handleResult` stores. -/
def reportOf (jobID : String) (body : Option Json) (now : Time) : Option ExecutionResult :=
  (body.bind (decodeResult time)).map fun r => { r with ID := jobID, UpdatedAt := now }

/-- **The two servers on one dispatcher.** -/
def servers : Automaton Server Label Event where
  step s
    | .api l => if ofApi l then (server.step s l).map fun x => (x.1, x.2.map .api) else none
    | .dequeue => some (s.withRunner (handleDequeue time s.runner).2, pullEvents time s.runner)
    | .result jobID body now =>
      some (s.withRunner { s.runner with d := (handleResult time jobID body now s.runner.d).2 },
        ((reportOf time jobID body now).map (.reported jobID)).toList)

/-- `handleResult` answers 200 exactly where it has a result to store, and stores that. -/
theorem handleResult_eq (jobID : String) (body : Option Json) (now : Time) (d : Dispatcher) :
    (∃ r, reportOf time jobID body now = some r ∧
      (handleResult time jobID body now d).1.code = 200 ∧
      (handleResult time jobID body now d).2 = d.StoreResult jobID r) ∨
    (reportOf time jobID body now = none ∧ (handleResult time jobID body now d).1.code = 400 ∧
      (handleResult time jobID body now d).2 = d) := by
  unfold handleResult reportOf
  cases body.bind (decodeResult time) with
  | none => exact .inr ⟨rfl, rfl, rfl⟩
  | some r => exact .inl ⟨_, rfl, rfl, rfl⟩

theorem handleDequeue_snd (s : State) : (handleDequeue time s).2 = s.dequeue.1 := by
  unfold handleDequeue
  split <;> rfl

/-! ### The API server in this system -/

def apiEvent : Event → Option ApiServer.Event
  | .api e => some e
  | _ => none

theorem filterMap_map_api (es : History) : (es.map Event.api).filterMap apiEvent = es := by
  rw [List.filterMap_map]
  exact List.filterMap_some

/-- **The API server is a part of it**, used by others than its own handlers. -/
theorem server_part : Part (servers time) server id apiEvent where
  step s l s' new hs := by
    cases l with
    | api l =>
      unfold servers at hs
      simp only at hs
      split at hs
      · obtain ⟨⟨s₁, es₁⟩, h₁, hs⟩ := Option.map_eq_some_iff.mp hs
        cases hs
        refine .inr ⟨l, ?_⟩
        rw [filterMap_map_api]
        exact h₁
      · cases hs
    | dequeue =>
      cases hs
      refine .inr ⟨.runner .dequeue, ?_⟩
      have hevents : (pullEvents time s.runner).filterMap apiEvent =
          s.runner.dequeue.2.map .runner := by
        unfold pullEvents State.dequeue
        cases s.runner.d.Dequeue.1 <;> rfl
      rw [hevents, handleDequeue_snd]
      rfl
    | result jobID body now =>
      cases hs
      rcases handleResult_eq time jobID body now s.runner.d with ⟨r, hr, -, hd⟩ | ⟨hr, -, hd⟩
      · refine .inr ⟨.runner (.storeResult jobID r), ?_⟩
        rw [hr, hd]
        rfl
      · rw [hr, hd]
        exact .inl ⟨rfl, rfl⟩

variable {time} {n : ℕ} {db : Option Rows} {es : List Event} {s : Server}

theorem server_reaches (h : Reaches (servers time) (start n db) es s) :
    Reaches server (start n db) (es.filterMap apiEvent) s :=
  (server_part time).reaches h

/-! ### Reporting back -/

/-- What is seen of the API server. -/
def apiHistory (es : List Event) : History := es.filterMap apiEvent

/-- Submission `h` was accepted under `id`, a remote worker has taken its job, and `r` was reported
under `id` after that. -/
structure Reported (es : List Event) (s : Server) (h : ℕ) (id : String) (r : ExecutionResult) :
    Prop where
  accepted : .api (.accepted h (acceptance id)) ∈ es
  pulled : ∃ x before response after, s.submissions[h]? = some x ∧
    es = before ++ .reported id r :: after ∧ .pulled x.job response ∈ before

/-- Status request `k` for `id` comes after `before`, and is answered after `between`. -/
def Asks (es before between : List Event) (k : ℕ) (id : String) (reply : Reply) : Prop :=
  ∃ later, es = before ++ .api (.asked k id) :: (between ++ .api (.told k id reply) :: later)

/-- **Pulled jobs report back**: every later status request is told what was reported. -/
def ReportsBack (es : List Event) (s : Server) : Prop :=
  ∀ before between h k id r reply, Asks es before between k id reply → Reported before s h id r →
    reply = ⟨200, .result r⟩

/-- The result that was collected last under `id` is `r`; another submission's collector stored
it. -/
def CollectedElsewhere (before : History) (h : ℕ) (id : String) (r : ExecutionResult) : Prop :=
  lastStored before id = some r ∧ ∃ h', h' ≠ h ∧ .stored h' id r ∈ before

/-- Nothing was collected under `id`, and the database had the row `r`. -/
def RowRead (db : Option Rows) (before between : History) (k : ℕ) (id : String)
    (r : ExecutionResult) : Prop :=
  lastStored before id = none ∧ ∃ rows rest, db = some rows ∧ between = rest ++ [.queried k false] ∧
    Rows.GetResult (rowsAfter (before ++ .asked k id :: between) rows) id false = some r

/-- What was reported is there for another reason, whenever it is asked for. -/
def FoundElsewhere (db : Option Rows) (es : List Event) (s : Server) : Prop :=
  ∀ before between h k id r reply, Asks es before between k id reply → Reported before s h id r →
    CollectedElsewhere (apiHistory before) h id r ∨
    RowRead db (apiHistory before) (apiHistory between) k id r

theorem Asks.history {before between : List Event} {k : ℕ} {id : String} {reply : Reply}
    (h : Asks es before between k id reply) : ∃ later, apiHistory es =
      apiHistory before ++ .asked k id :: (apiHistory between ++ .told k id reply :: later) := by
  obtain ⟨later, rfl⟩ := h
  refine ⟨apiHistory later, ?_⟩
  simp [apiHistory, List.filterMap_append, apiEvent]

theorem mem_apiHistory {e : ApiServer.Event} : e ∈ apiHistory es ↔ .api e ∈ es :=
  Lists.Slots.mem_filterMap_iff fun e' e => by cases e' <;> simp [apiEvent]

/-- What is pulled has been dequeued. -/
theorem dequeued_of_pulled (h : Reaches (servers time) (start n db) es s) {job : ℕ}
    {response : Response} (hp : .pulled job response ∈ es) :
    .api (.runner (.dequeued job)) ∈ es := by
  revert hp
  refine h.keeps (I := fun es _ => .pulled job response ∈ es → .api (.runner (.dequeued job)) ∈ es)
    (fun he => by cases he) fun es s l s' new _ ih hs hp => ?_
  rcases List.mem_append.mp hp with hp | hp
  · exact List.mem_append_left _ (ih hp)
  refine List.mem_append_right _ ?_
  cases l with
  | api l =>
    unfold servers at hs
    simp only at hs
    split at hs
    · obtain ⟨x, -, hs⟩ := Option.map_eq_some_iff.mp hs
      cases hs
      simp at hp
    · cases hs
  | dequeue =>
    cases hs
    unfold pullEvents at hp ⊢
    split at hp
    · simp only [List.mem_cons, List.not_mem_nil, or_false, reduceCtorEq, false_or] at hp
      cases hp
      exact List.mem_cons_self
    · cases hp
  | result jobID body now =>
    cases hs
    cases reportOf time jobID body now <;> simp at hp

/-- **No collector ever has the result of a job that was pulled.** -/
theorem not_stored_of_reported (h : Reaches (servers time) (start n db) es s)
    {before between : List Event} {k hd : ℕ} {id i : String} {r r' : ExecutionResult} {reply : Reply}
    (ha : Asks es before between k id reply) (hr : Reported before s hd id r) :
    .stored hd i r' ∉ apiHistory es := by
  obtain ⟨x, before', response, after, hx, rfl, hpulled⟩ := hr.pulled
  have hserver := server_reaches h
  have hjob : x.job = hd := ((inv hserver).own hd x hx).1
  have hmem : .pulled x.job response ∈ es := by
    obtain ⟨later, rfl⟩ := ha
    simp [hpulled]
  refine not_stored_of_dequeued hserver ?_ i r'
  exact mem_apiHistory.mpr (hjob ▸ dequeued_of_pulled h hmem)

theorem collectedElsewhere_iff (h : Reaches (servers time) (start n db) es s)
    {before between : List Event} {k hd : ℕ} {id : String} {r : ExecutionResult} {reply : Reply}
    (ha : Asks es before between k id reply) (hr : Reported before s hd id r) :
    CollectedElsewhere (apiHistory before) hd id r ↔ lastStored (apiHistory before) id = some r := by
  refine ⟨And.left, fun hlast => ⟨hlast, ?_⟩⟩
  obtain ⟨h', hstored⟩ := stored_of_lastStored hlast
  refine ⟨h', ?_, hstored⟩
  rintro rfl
  have hnot : .stored h' id r ∉ apiHistory es := not_stored_of_reported h ha hr
  obtain ⟨later, hes⟩ := ha.history
  rw [hes] at hnot
  exact hnot (List.mem_append_left _ hstored)

theorem rowReply_eq_iff {row : Option ExecutionResult} {r : ExecutionResult} :
    rowReply row = ⟨200, .result r⟩ ↔ row = some r := by
  cases row with
  | none => simp [rowReply, ApiServer.writeError]
  | some x => simp [rowReply]

/-- A status request comes only once: what was stored before its answer looked is what was stored
before it came. -/
theorem Asks.only {s : Server} (h : Reaches (servers time) (start n db) es s)
    {before between : List Event} {k : ℕ} {id : String} {reply : Reply}
    (ha : Asks es before between k id reply) {es₀ rest : History}
    (hcut : apiHistory before ++ .asked k id :: apiHistory between = es₀ ++ .asked k id :: rest) :
    es₀ = apiHistory before := by
  obtain ⟨later, hes⟩ := ha.history
  have hes₁ : apiHistory es = (apiHistory before ++ .asked k id :: apiHistory between) ++
      .told k id reply :: later := by simp [hes]
  have hes₂ : apiHistory es = es₀ ++ .asked k id :: (rest ++ .told k id reply :: later) := by
    simp [hes₁, hcut]
  exact asked_unique (server_reaches h) hes₂ hes

/-- **A status request is told what was reported exactly where that is there for another reason.** -/
theorem told_reported_iff (h : Reaches (servers time) (start n db) es s)
    {before between : List Event} {k hd : ℕ} {id : String} {r : ExecutionResult} {reply : Reply}
    (ha : Asks es before between k id reply) (hr : Reported before s hd id r) :
    reply = ⟨200, .result r⟩ ↔ CollectedElsewhere (apiHistory before) hd id r ∨
      RowRead db (apiHistory before) (apiHistory between) k id r := by
  rw [collectedElsewhere_iff h ha hr]
  have hserver := server_reaches h
  obtain ⟨later, hes⟩ := ha.history
  have hes₁ : apiHistory es = (apiHistory before ++ .asked k id :: apiHistory between) ++
      .told k id reply :: later := by simp [hes]
  cases told hserver hes₁ with
  | hit es₀ r' hcut hlast hreply =>
    rw [ha.only h hcut] at hlast
    rw [hreply, hlast]
    constructor
    · intro heq
      cases heq
      exact .inl rfl
    · rintro (heq | ⟨hnone, -⟩)
      · cases heq
        rfl
      · cases hlast.symm.trans hnone
  | miss es₀ hcut hlast hdb hreply =>
    rw [ha.only h hcut] at hlast
    rw [hreply, hlast]
    refine iff_of_false (by simp [ApiServer.writeError]) ?_
    rintro (heq | ⟨-, rows, rest, hrows, -⟩)
    · cases heq
    · cases hdb.symm.trans hrows
  | row es₀ rest fails rows hcut hlast hdb hreply =>
    have hcut' : apiHistory before ++ .asked k id :: apiHistory between =
        es₀ ++ .asked k id :: (rest ++ [.queried k fails]) := by simp [hcut]
    obtain rfl := ha.only h hcut'
    have hbetween : apiHistory between = rest ++ [.queried k fails] := by simpa using hcut'
    rw [hreply, rowReply_eq_iff, hlast]
    constructor
    · intro hrow
      cases fails with
      | true => cases hrow
      | false => exact .inr ⟨hlast, rows, rest, hdb, hbetween, hrow⟩
    · rintro (heq | ⟨-, rows', rest', hrows, hbetween', hrow⟩)
      · cases heq
      · obtain ⟨-, hqueried⟩ := List.append_inj' (hbetween.symm.trans hbetween') rfl
        cases hqueried
        cases hdb.symm.trans hrows
        exact hrow

end

/-- **Pulled jobs report back exactly where their results are found elsewhere**: whenever a status
request comes after the report, another submission's result under the same id, or else a row of the
database, happens to be what was reported. -/
theorem reportsBack_iff (time : TimeText) {n : ℕ} {db : Option Rows} {es : List Event} {s : Server}
    (h : Reaches (servers time) (start n db) es s) :
    ReportsBack es s ↔ FoundElsewhere db es s := by
  constructor
  · exact fun hb before between hd k id r reply ha hr =>
      (told_reported_iff h ha hr).mp (hb before between hd k id r reply ha hr)
  · exact fun hf before between hd k id r reply ha hr =>
      (told_reported_iff h ha hr).mpr (hf before between hd k id r reply ha hr)

/-- Times are not written here, and read as 0. -/
def noTimes : TimeText := ⟨fun _ => none, fun _ => some 0⟩

/-- What a worker reports. -/
def report : Option Json := some (.obj [("id", .str "a"), ("stdout", .str "1"), ("exit_code", .num 0)])

/-- What `handleResult` makes of it. -/
def reported : ExecutionResult :=
  { zeroResult with ID := "a", Stdout := "1", UpdatedAt := 5 }

/-- A job is accepted, pulled and reported. -/
def pull : List Label := (submission 0 "a").map .api ++ [.dequeue, .result "a" report 5]

/-- What is seen of that. -/
def pullHistory : List Event :=
  acceptedHistory.map .api ++ [.api (.runner (.dequeued 0)), .pulled 0 ⟨200, none⟩] ++
    [.reported "a" reported]

theorem reported_pull (s : Server) {x : Submission} (hx : s.submissions[0]? = some x)
    (hjob : x.job = 0) : Reported pullHistory s 0 "a" reported where
  accepted := by simp [pullHistory, acceptedHistory]
  pulled := by
    refine ⟨x, acceptedHistory.map .api ++ [.api (.runner (.dequeued 0)), .pulled 0 ⟨200, none⟩],
      ⟨200, none⟩, [], hx, rfl, ?_⟩
    rw [hjob]
    simp

/-- **The result of a pulled job is not there**: the status request is answered 404. -/
theorem pulled_unknown : ∃ es s, Reaches (servers noTimes) (start 1 none) es s ∧
    Reported pullHistory s 0 "a" reported ∧
    es = pullHistory ++ [.api (.asked 0 "a"),
      .api (.told 0 "a" (ApiServer.writeError 404 "job not found"))] ∧
    ¬ ReportsBack es s := by
  have hrun : ∃ s x, (servers noTimes).run (start 1 none) (pull ++ [.api (.status "GET" "a")]) =
      some (s, pullHistory ++ [.api (.asked 0 "a"),
        .api (.told 0 "a" (ApiServer.writeError 404 "job not found"))]) ∧
      s.submissions[0]? = some x ∧ x.job = 0 := ⟨_, _, rfl, rfl, rfl⟩
  obtain ⟨s, x, hs, hx, hjob⟩ := hrun
  have hreported := reported_pull s hx hjob
  refine ⟨_, s, reaches_of_run hs, hreported, rfl, fun hb => ?_⟩
  have htold := hb pullHistory [] 0 0 "a" reported _ ⟨[], rfl⟩ hreported
  exact absurd (congrArg Reply.code htold) (by decide)

/-- What is seen of a status request that finds what was reported in the database. -/
def lookup : List Event := [.api (.queried 0 false), .api (.told 0 "a" ⟨200, .result reported⟩)]

/-- A job is pulled and reported, and then asked for; an earlier process on the same database has
saved the same under its id. -/
theorem pull_reportsBack : ∃ s,
    Reaches (servers noTimes) (start 1 (some (Rows.SaveResult ∅ reported)))
      (pullHistory ++ .api (.asked 0 "a") :: lookup) s ∧
    Reported pullHistory s 0 "a" reported ∧
    ReportsBack (pullHistory ++ .api (.asked 0 "a") :: lookup) s := by
  have hrun : ∃ s x, (servers noTimes).run (start 1 (some (Rows.SaveResult ∅ reported)))
      (pull ++ [.api (.status "GET" "a"), .api (.query 0 false)]) =
        some (s, pullHistory ++ .api (.asked 0 "a") :: lookup) ∧
      s.submissions[0]? = some x ∧ x.job = 0 := ⟨_, _, rfl, rfl, rfl⟩
  obtain ⟨s, x, hs, hx, hjob⟩ := hrun
  refine ⟨s, reaches_of_run hs, reported_pull s hx hjob, ?_⟩
  refine (reportsBack_iff noTimes (reaches_of_run hs)).mpr ?_
  rintro before between h k id r reply ⟨later, hes⟩ ⟨-, -, b, response, after, -, hr, -⟩
  have hasked : .api (.asked k id) ∈ pullHistory ++ .api (.asked 0 "a") :: lookup := by simp [hes]
  obtain ⟨rfl, rfl⟩ : k = 0 ∧ id = "a" := by
    simpa [pullHistory, acceptedHistory, lookup] using hasked
  have hbefore : .api (.asked 0 "a") ∉ pullHistory := by simp [pullHistory, acceptedHistory]
  obtain ⟨rfl, -, hbetween⟩ :=
    (List.append_cons_inj_of_notMem hbefore (by simp [lookup])).mp hes
  have hreported : .reported "a" r ∈ pullHistory := by rw [hr]; simp
  obtain rfl : r = reported := by
    simpa [pullHistory, acceptedHistory] using hreported
  obtain rfl : between = [.api (.queried 0 false)] := by
    cases between with
    | nil => cases hbetween
    | cons e between =>
      obtain ⟨rfl, htail⟩ := List.cons.inj hbetween
      cases between with
      | nil => rfl
      | cons e between => simp at htail
  exact .inr ⟨rfl, _, [], rfl, rfl, rfl⟩

end CodeHive.Orchestrator.Pulled
