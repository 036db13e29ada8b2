import CodeHive.Api.Types

/-! # Requests, replies, and the calls of a process

Every call in the pool of a process is a `Task`: a request handler, an inline execution that a
handler started without awaiting it, or a function of `queue.ts` or `executor.ts` called by a client
of its own. -/

namespace CodeHive.Api.Messages

set_option autoImplicit false

open CodeHive.Js.Value CodeHive.Api.Types

/-- A request that the router hands to a handler of the API. -/
inductive Request where
  /-- `POST /api/execute`. -/
  | execute (body : Json)
  /-- `GET /api/status/:id`. -/
  | status (id : String)
  /-- `GET /api/workers/:id/jobs/next`. -/
  | jobsNext (worker : String)
  /-- `POST /api/workers/:id/jobs/:jobId/result`. -/
  | jobResult (worker jobId : String) (body : Json)
  /-- `POST /api/workers/:id/heartbeat`. -/
  | heartbeat (worker : String) (body : Json)
  /-- `GET /api/executions`, with `Number(query.limit)` and `Number(query.offset)`. -/
  | executions (limit offset : Number)
  /-- `GET /api/stats`. -/
  | stats

/-- What a handler sends. -/
inductive Body where
  | none
  /-- `{ id, status: 'queued', language }`. -/
  | queued (id language : String)
  | result (r : ExecutionResult)
  | job (j : Job)
  /-- `{ ok: true }`. -/
  | ok
  /-- `{ error, message }`. -/
  | error (error message : String)
  | executions (items : List Job) (total : ℕ)
  /-- The reply of `GET /api/stats`. -/
  | stats (executions24h executions7d activeWorkers : ℕ) (avgDurationMs successRate : Number)
  deriving DecidableEq

structure Reply where
  code : ℕ
  body : Body
  deriving DecidableEq

/-- `sendError`. -/
def sendError : JsError → Reply
  | .app statusCode code message => ⟨statusCode, .error code message⟩
  | .error _ => ⟨500, .error "InternalError" "Internal server error"⟩

/-- A call of `queue.ts` or `executor.ts`. -/
inductive Call where
  | enqueue (request : ExecutionRequest)
  | dequeue
  | getJob (id : String)
  | updateJob (id : String) (updates : PartialJob)
  | updateResult (id : String) (result : ExecutionResult)
  | executeJob (jobId language code : String) (stdin : Option String) (timeoutSec : Finite)

inductive Task where
  | request (r : Request)
  /-- `executeJob(jobId, …)`, called by the handler of `POST /api/execute`. -/
  | inline (jobId : String)
  | call (c : Call)

/-- What a call ends with. -/
inductive Outcome where
  | reply (r : Reply)
  /-- An inline execution has settled; a rejection is logged. -/
  | settled (r : Except JsError Unit)
  /-- A call of `queue.ts` or `executor.ts` has returned a record (or `null`), or thrown. -/
  | returned (r : Except JsError (Option Job))

end CodeHive.Api.Messages
