import CodeHive.Api.Workers
import CodeHive.Orchestrator.WorkerIds
import CodeHive.Orchestrator.WorkerRoutes
import CodeHive.Worker.Heartbeats

/-! # Heartbeats on the wire

What the two servers make of the status that `main.rs` posts. The orchestrator decodes it as a
`Heartbeat`, of which it finds only the id, and records when it came; the API asks for fields that the
status does not have. -/

namespace CodeHive.Worker.HeartbeatWire

set_option autoImplicit false

open CodeHive.Js.Value CodeHive.Go.Json CodeHive.Go.Sync CodeHive.Rust.Serde
open CodeHive.Orchestrator.Types (Time Heartbeat)
open CodeHive.Orchestrator.Runner CodeHive.Orchestrator.WorkerApi
open CodeHive.Orchestrator.WorkerRoutes CodeHive.Orchestrator.WorkerIds
open CodeHive.Orchestrator.Snapshots
open CodeHive.Worker.Heartbeats (WorkerStatus WorkerStatus.serialize)

/-! ### The orchestrator -/

section
variable (time : TimeText)

/-- A status that a worker posts, and when it gets to the orchestrator. -/
abbrev Beat := WorkerStatus × Time

/-- The orchestrator handles the request. -/
def serve (s : State) (beat : Beat) : Response × State :=
  (handleWorkerActions "POST" (heartbeatPath beat.1.worker_id)).run time
    (some beat.1.serialize) beat.2 s

end

section
variable {time : TimeText} {s : State}

end

end CodeHive.Worker.HeartbeatWire
