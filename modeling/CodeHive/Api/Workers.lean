import CodeHive.Api.Routes

/-! # The registry of workers

`POST /api/workers/:id/heartbeat` of `routes/worker-api.ts`, and the routes of `routes/workers.ts`
with their map of workers. None of the handlers awaits anything, so requests are handled one after
the other. -/

namespace CodeHive.Api.Workers

set_option autoImplicit false

open CodeHive.Js.Value CodeHive.Api.Types CodeHive.Api.Messages CodeHive.Api.Program
open CodeHive.Api.Routes CodeHive.Concurrency.Calls

/-! ### Heartbeats and workers -/

structure Resources where
  cpus : Finite
  memory : Finite
  deriving DecidableEq

inductive WorkerState where
  | idle
  | busy
  | offline
  deriving DecidableEq

/-- A checked body of `POST /api/workers/:id/heartbeat`. -/
structure Heartbeat where
  hostname : String
  status : WorkerState
  resources : Resources
  labels : Option (List (String × String))
  deriving DecidableEq

structure WorkerInfo where
  id : String
  hostname : String
  status : WorkerState
  labels : List (String × String)
  lastHeartbeat : String
  currentJob : Option String
  resources : Resources
  deriving DecidableEq

/-- `z.enum(['idle', 'busy', 'offline'])`. -/
def workerState : Json → Option WorkerState
  | .str "idle" => some .idle
  | .str "busy" => some .busy
  | .str "offline" => some .offline
  | _ => none

/-- The `resources` of a heartbeat. -/
def resources (v : Json) : Option Resources := do
  let cpus ← (v.get "cpus").bind Json.number?
  let memory ← (v.get "memory").bind Json.number?
  return { cpus, memory }

/-- `z.record(z.string())`. -/
def stringRecord : Json → Option (List (String × String))
  | .obj fields => fields.mapM fun f => f.2.string?.map fun s => (f.1, s)
  | _ => none

/-- The data of a heartbeat that `heartbeatSchema` accepts. -/
def parseHeartbeat (body : Json) : Option Heartbeat := do
  let hostname ← (body.get "hostname").bind Json.string?
  let status ← (body.get "status").bind workerState
  let resources ← (body.get "resources").bind resources
  let labels ← optional stringRecord (body.get "labels")
  return { hostname, status, resources, labels }

theorem isSome_stringRecord (fields : List (String × Json)) :
    (stringRecord (.obj fields)).isSome = fields.all fun f => f.2.string?.isSome := by
  show (fields.mapM fun f : String × Json => f.2.string?.map fun s => (f.1, s)).isSome = _
  induction fields with
  | nil => rfl
  | cons f fields ih =>
    rw [List.mapM_cons, List.all_cons, ← ih]
    cases f.2.string? with
    | none => rfl
    | some s => cases fields.mapM fun f : String × Json => f.2.string?.map fun s => (f.1, s) <;> rfl

theorem isSome_resources (v : Json) : (resources v).isSome =
    (v.isObject && ((v.get "cpus").bind Json.number?).isSome &&
      ((v.get "memory").bind Json.number?).isSome) := by
  cases v with
  | obj fields =>
    unfold resources
    cases (Json.get "cpus" (.obj fields)).bind Json.number? <;>
      cases (Json.get "memory" (.obj fields)).bind Json.number? <;> rfl
  | _ => rfl

theorem isSome_workerState (v : Json) : (workerState v).isSome =
    match v with
    | .str s => ["idle", "busy", "offline"].contains s
    | _ => false := by
  cases v with
  | str s =>
    unfold workerState
    split
    all_goals simp_all
  | _ => rfl

/-- **The data are there exactly where the schema accepts.** -/
theorem isSome_parseHeartbeat (body : Json) :
    (parseHeartbeat body).isSome = heartbeatSchema body := by
  have hparse : (parseHeartbeat body).isSome =
      (((body.get "hostname").bind Json.string?).isSome &&
        ((body.get "status").bind workerState).isSome &&
        ((body.get "resources").bind resources).isSome &&
        (Routes.optional stringRecord (body.get "labels")).isSome) := by
    unfold parseHeartbeat
    cases (body.get "hostname").bind Json.string? <;>
      cases (body.get "status").bind workerState <;>
      cases (body.get "resources").bind resources <;>
      cases Routes.optional stringRecord (body.get "labels") <;> rfl
  rw [hparse]
  unfold heartbeatSchema
  refine congrArg₂ and (congrArg₂ and (congrArg₂ and rfl ?_) ?_) ?_
  · rcases body.get "status" with _ | v
    · rfl
    · exact (isSome_workerState v).trans (by cases v <;> rfl)
  · rcases body.get "resources" with _ | v
    · rfl
    · exact isSome_resources v
  · rcases body.get "labels" with _ | v
    · rfl
    · have hmap : (Routes.optional stringRecord (some v)).isSome = (stringRecord v).isSome :=
        Option.isSome_map
      rw [hmap]
      cases v with
      | obj fields => exact isSome_stringRecord fields
      | _ => rfl

/-! ### The requests -/

/-- The requests that are about workers and not about jobs. -/
inductive Request where
  /-- `POST /api/workers/:id/heartbeat`. -/
  | heartbeat (id : String) (body : Json)
  /-- `GET /api/workers`. -/
  | workers
  /-- `GET /api/workers/:id`. -/
  | worker (id : String)

inductive Body where
  | plain (b : Messages.Body)
  | workers (infos : List WorkerInfo)
  | worker (info : WorkerInfo)

structure Reply where
  code : ℕ
  body : Body

/-- What a handler sends that has no worker in it. -/
def Reply.ofPlain (r : Messages.Reply) : Reply := ⟨r.code, .plain r.body⟩

/-- `const workers: Map<string, WorkerInfo>`, in the order of insertion. -/
structure Registry where
  workers : List (String × WorkerInfo)

/-- The module is loaded. -/
def Registry.new : Registry := ⟨[]⟩

/-- `workers.get(id)`. -/
def Registry.get (r : Registry) (id : String) : Option WorkerInfo :=
  (r.workers.find? fun w => w.1 == id).map Prod.snd

/-- The reply to a heartbeat. -/
def heartbeatReply (body : Json) : Messages.Reply :=
  if heartbeatSchema body then ⟨200, .ok⟩ else sendError (ValidationError "Invalid heartbeat")

/-- That is what the handler replies. -/
theorem postHeartbeat_eq (body : Json) :
    postHeartbeat body = (return heartbeatReply body : Async Messages.Reply) := by
  unfold postHeartbeat heartbeatReply
  cases heartbeatSchema body <;> rfl

/-- A request is handled. -/
def respond (r : Registry) : Request → Reply × Registry
  | .heartbeat _ body => (.ofPlain (heartbeatReply body), r)
  | .workers => (⟨200, .workers (r.workers.map Prod.snd)⟩, r)
  | .worker id =>
    match r.get id with
    | none => (.ofPlain (sendError (NotFoundError "Worker" id)), r)
    | some info => (⟨200, .worker info⟩, r)

/-- The registry after some requests. -/
def after (requests : List Request) : Registry :=
  requests.foldl (fun r request => (respond r request).2) .new

/-! ### What the registry is for -/

/-- An accepted heartbeat, and the worker it is from. -/
def acceptedBeat : Request → Option (String × Heartbeat)
  | .heartbeat id body =>
    if (heartbeatReply body).code = 200 then (parseHeartbeat body).map fun beat => (id, beat)
    else none
  | _ => none

/-- The heartbeats that were answered 200, in their order. -/
def accepted (requests : List Request) : List (String × Heartbeat) :=
  requests.filterMap acceptedBeat

/-- The latest of the heartbeats from worker `id`. -/
def latest (beats : List (String × Heartbeat)) (id : String) : Option Heartbeat :=
  ((beats.filter fun b => b.1 == id).map Prod.snd).getLast?

/-- The entry of a worker carries what its heartbeat says. -/
def Carries (info : WorkerInfo) (beat : Heartbeat) : Prop :=
  info.hostname = beat.hostname ∧ info.status = beat.status ∧
    info.labels = beat.labels.getD [] ∧ info.resources = beat.resources

/-- A list of workers is the registry of heartbeats. -/
structure IsRegistryOf (infos : List WorkerInfo) (beats : List (String × Heartbeat)) : Prop where
  nodup : (infos.map WorkerInfo.id).Nodup
  complete : ∀ id, id ∈ infos.map WorkerInfo.id ↔ (latest beats id).isSome
  carries : ∀ info ∈ infos, ∀ beat, latest beats info.id = some beat → Carries info beat

/-- **The API has a registry of the heartbeats**: it lists it, finds the workers in it, and keeps it
when it rejects a heartbeat. -/
structure HasRegistry (r : Registry) (beats : List (String × Heartbeat)) : Prop where
  lists : ∃ infos, (respond r .workers).1 = ⟨200, .workers infos⟩ ∧ IsRegistryOf infos beats
  finds : ∀ id, (respond r (.worker id)).1.code = 200 ↔ (latest beats id).isSome
  keeps : ∀ id body, (respond r (.heartbeat id body)).1.code ≠ 200 →
    (respond r (.heartbeat id body)).2 = r

/-! ### What it is -/

theorem respond_snd (r : Registry) (request : Request) : (respond r request).2 = r := by
  cases request with
  | heartbeat id body => rfl
  | workers => rfl
  | worker id =>
    unfold respond
    simp only
    split <;> rfl

/-- **Nothing is ever registered.** -/
theorem after_eq_new (requests : List Request) : after requests = .new := by
  unfold after
  induction requests with
  | nil => rfl
  | cons request requests ih =>
    rw [List.foldl_cons, respond_snd]
    exact ih

/-- A heartbeat that is answered 200 has data. -/
theorem latest_eq_none_iff {beats : List (String × Heartbeat)} :
    (∀ id, latest beats id = none) ↔ beats = [] := by
  constructor
  · intro h
    refine List.eq_nil_iff_forall_not_mem.mpr fun b hb => ?_
    have hnone := List.getLast?_eq_none_iff.mp (h b.1)
    have hmem : b ∈ beats.filter fun c => c.1 == b.1 := List.mem_filter.mpr ⟨hb, by simp⟩
    rw [List.map_eq_nil_iff.mp hnone] at hmem
    cases hmem
  · rintro rfl id
    rfl

/-- **The API has a registry exactly as long as no heartbeat was accepted.** -/
theorem hasRegistry_iff (requests : List Request) :
    HasRegistry (after requests) (accepted requests) ↔ accepted requests = [] := by
  rw [after_eq_new, ← latest_eq_none_iff]
  constructor
  · intro h id
    have hfinds := h.finds id
    have hcode : (respond .new (.worker id)).1.code = 404 := rfl
    rw [hcode] at hfinds
    simpa using hfinds
  · intro h
    have hnone : ∀ id, ¬ (latest (accepted requests) id).isSome := fun id => by simp [h id]
    refine ⟨⟨[], rfl, List.nodup_nil, fun id => ?_, fun info hi => ?_⟩, fun id => ?_, fun _ _ _ => rfl⟩
    · exact iff_of_false List.not_mem_nil (hnone id)
    · cases hi
    · exact iff_of_false (by show (404 : ℕ) ≠ 200; decide) (hnone id)

/-- The heartbeat of an idle worker. -/
def idle : Json :=
  .obj [("hostname", .str "worker-1"), ("status", .str "idle"),
    ("resources", .obj [("cpus", .num 4), ("memory", .num 8192)])]

/-- **A worker whose heartbeat was answered 200 is not listed**, and asked for by its id it is not
found. -/
theorem idle_not_registered :
    (respond .new (.heartbeat "w1" idle)).1.code = 200 ∧
    (respond (after [.heartbeat "w1" idle]) .workers).1.body = .workers [] ∧
    (respond (after [.heartbeat "w1" idle]) (.worker "w1")).1.code = 404 ∧
    ¬ HasRegistry (after [.heartbeat "w1" idle]) (accepted [.heartbeat "w1" idle]) := by
  have hcode : (respond .new (.heartbeat "w1" idle)).1.code = 200 := by decide
  refine ⟨hcode, rfl, rfl, fun h => ?_⟩
  have hfinds := h.finds "w1"
  have hlatest : (latest (accepted [.heartbeat "w1" idle]) "w1").isSome := by decide
  exact absurd (hfinds.mpr hlatest) (by decide)

end CodeHive.Api.Workers
