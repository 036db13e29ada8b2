import CodeHive.Js.Value

/-! # The records of the API

`types/index.ts` and `lib/errors.ts`. A property marked `?` in the source is an `Option` here, and
so is one whose type allows `null`. -/

namespace CodeHive.Api.Types

set_option autoImplicit false

open CodeHive.Js.Value

/-- `ExecutionResult['status']`. -/
inductive Status where
  | queued
  | running
  | completed
  | failed
  | timeout
  deriving DecidableEq

/-- Nothing is left to do for a job with this status. -/
def Status.terminal : Status → Bool
  | .queued => false
  | .running => false
  | _ => true

/-- Docker-style execution request. -/
structure ExecutionRequest where
  image : String
  cmd : List String
  env : Option (List (String × String))
  timeout : Option Finite
  memory : Option Finite
  cpus : Option Finite
  deriving DecidableEq

/-- Output of a completed or failed execution. -/
structure ExecutionResult where
  id : String
  status : Status
  stdout : String
  stderr : String
  exitCode : Option Finite
  language : Option String
  startedAt : Option String
  finishedAt : Option String
  error : Option String
  durationMs : Option Finite
  deriving DecidableEq

/-- `'execute'`, the only type of job. -/
inductive JobType where
  | execute
  deriving DecidableEq

/-- Job stored in the queue. -/
structure Job where
  id : String
  type : JobType
  payload : ExecutionRequest
  status : Status
  workerId : Option String
  createdAt : String
  updatedAt : String
  result : Option ExecutionResult
  deriving DecidableEq

/-- `Partial<Job>`: the fields an update names. -/
structure PartialJob where
  id : Option String := none
  type : Option JobType := none
  payload : Option ExecutionRequest := none
  status : Option Status := none
  workerId : Option (Option String) := none
  createdAt : Option String := none
  updatedAt : Option String := none
  result : Option (Option ExecutionResult) := none
  deriving DecidableEq

/-- `Object.assign(job, updates)`. -/
def Job.assign (job : Job) (updates : PartialJob) : Job where
  id := updates.id.getD job.id
  type := updates.type.getD job.type
  payload := updates.payload.getD job.payload
  status := updates.status.getD job.status
  workerId := updates.workerId.getD job.workerId
  createdAt := updates.createdAt.getD job.createdAt
  updatedAt := updates.updatedAt.getD job.updatedAt
  result := updates.result.getD job.result

/-- `Object.assign(job, updates, { updatedAt })`. -/
def Job.update (job : Job) (updates : PartialJob) (updatedAt : String) : Job :=
  (job.assign updates).assign { updatedAt := some updatedAt }

/-! ### Errors -/

/-- What a handler may throw. -/
inductive JsError where
  /-- `new Error(message)`. -/
  | error (message : String)
  /-- An `AppError`. -/
  | app (statusCode : ℕ) (code message : String)
  deriving DecidableEq

/-- `err.message`. -/
def JsError.message : JsError → String
  | .error message => message
  | .app _ _ message => message

/-- `new ValidationError(message)`; its `details` come from the schema library. -/
def ValidationError (message : String) : JsError := .app 400 "ValidationError" message

/-- `new NotFoundError(resource, id)`. -/
def NotFoundError (resource id : String) : JsError :=
  .app 404 s!"{resource}NotFound" s!"{resource} {id} not found"

/-- The error of an update of an unknown job. -/
def jobNotFound (id : String) : JsError := .error s!"Job {id} not found"

/-! ### Updates -/

section
variable (job : Job) (u : PartialJob) (now : String)

@[simp] theorem update_id : (job.update u now).id = u.id.getD job.id := rfl
@[simp] theorem update_type : (job.update u now).type = u.type.getD job.type := rfl
@[simp] theorem update_payload : (job.update u now).payload = u.payload.getD job.payload := rfl
@[simp] theorem update_status : (job.update u now).status = u.status.getD job.status := rfl
@[simp] theorem update_workerId : (job.update u now).workerId = u.workerId.getD job.workerId := rfl
@[simp] theorem update_createdAt :
    (job.update u now).createdAt = u.createdAt.getD job.createdAt := rfl
@[simp] theorem update_updatedAt : (job.update u now).updatedAt = now := rfl
@[simp] theorem update_result : (job.update u now).result = u.result.getD job.result := rfl

end

end CodeHive.Api.Types
