import CodeHive.Api.Executor

/-! # The routes

The handlers of `routes/execute.ts`, `routes/worker-api.ts` and `routes/executions.ts`, with the
schemas that check their bodies. -/

namespace CodeHive.Api.Routes

set_option autoImplicit false

open CodeHive.Js.Value CodeHive.Api.Types CodeHive.Api.Stores CodeHive.Api.Messages
open CodeHive.Api.Program CodeHive.Api.Queue CodeHive.Api.Executor CodeHive.Concurrency.Calls

/-! ### The schemas -/

/-- A property that may be left out: `none` if its value is not accepted. -/
def optional {α : Type} (check : Json → Option α) : Option Json → Option (Option α)
  | none => some none
  | some v => (check v).map some

/-- `z.string().min(1)`. -/
def nonEmptyString (v : Json) : Option String := v.string?.filter (· ≠ "")

/-- `z.number().int().positive().max(3600)`. -/
def timeoutSeconds (v : Json) : Option Finite :=
  v.number?.filter fun q => decide (q.den = 1 ∧ 0 < q ∧ q ≤ 3600)

/-- A checked body of `POST /api/execute`. -/
structure CodeSubmit where
  language : String
  code : String
  stdin : Option String
  timeout : Option Finite

/-- `codeSubmitSchema.safeParse`. -/
def codeSubmitSchema (body : Json) : Option CodeSubmit := do
  let language ← (body.get "language").bind nonEmptyString
  let code ← (body.get "code").bind nonEmptyString
  let stdin ← optional Json.string? (body.get "stdin")
  let timeout ← optional timeoutSeconds (body.get "timeout")
  return { language, code, stdin, timeout }

/-- `z.enum(['completed', 'failed', 'timeout'])`. -/
def resultStatus : Json → Option Status
  | .str "completed" => some .completed
  | .str "failed" => some .failed
  | .str "timeout" => some .timeout
  | _ => none

/-- `z.number().nullable()`. -/
def nullableNumber : Json → Option (Option Finite)
  | .null => some none
  | .num q => some (some q)
  | _ => none

/-- A checked body of `POST /api/workers/:id/jobs/:jobId/result`. -/
structure ResultBody where
  stdout : String
  stderr : String
  exitCode : Option Finite
  status : Status
  startedAt : String
  finishedAt : String

/-- `resultSchema.safeParse`. -/
def resultSchema (body : Json) : Option ResultBody := do
  let stdout ← (body.get "stdout").bind Json.string?
  let stderr ← (body.get "stderr").bind Json.string?
  let exitCode ← (body.get "exitCode").bind nullableNumber
  let status ← (body.get "status").bind resultStatus
  let startedAt ← (body.get "startedAt").bind Json.string?
  let finishedAt ← (body.get "finishedAt").bind Json.string?
  return { stdout, stderr, exitCode, status, startedAt, finishedAt }

/-- The result a worker's body stands for. -/
def ResultBody.toResult (r : ResultBody) (jobId : String) : ExecutionResult where
  id := jobId
  status := r.status
  stdout := r.stdout
  stderr := r.stderr
  exitCode := r.exitCode
  language := none
  startedAt := some r.startedAt
  finishedAt := some r.finishedAt
  error := none
  durationMs := none

/-- `heartbeatSchema.safeParse` succeeds. -/
def heartbeatSchema (body : Json) : Bool :=
  ((body.get "hostname").bind Json.string?).isSome &&
  (match body.get "status" with
    | some (.str s) => ["idle", "busy", "offline"].contains s
    | _ => false) &&
  (match body.get "resources" with
    | some r => r.isObject && ((r.get "cpus").bind Json.number?).isSome &&
        ((r.get "memory").bind Json.number?).isSome
    | none => false) &&
  (match body.get "labels" with
    | none => true
    | some (.obj fields) => fields.all fun f => f.2.string?.isSome
    | some _ => false)

/-! ### The handlers -/

/-- `reply.code(code).send(body)`. -/
def send (code : ℕ) (body : Body) : Async Reply := return ⟨code, body⟩

/-- The `try`/`catch` around every handler. -/
def handler (p : Async Reply) : Async Reply := tryCatch p fun err => return sendError err

def SUPPORTED : List String := ["python", "javascript", "typescript", "java", "cpp", "rust", "go"]

/-- `POST /api/execute`. -/
def postExecute (b : Backend) (body : Json) : Async Reply := handler do
  match codeSubmitSchema body with
  | none => throw (ValidationError "Invalid request")
  | some submit =>
    if submit.language ∈ SUPPORTED then
      let job ← await (enqueue b
        { image := "", cmd := [], env := some [("CODEHIVE_LANG", submit.language)]
          timeout := none, memory := none, cpus := none })
      let jobId := (← read job).id
      -- the call is not awaited; a rejection is logged
      detach (.inline jobId)
        (executeJob b jobId submit.language submit.code submit.stdin (submit.timeout.getD 30))
        Outcome.settled
      send 202 (.queued jobId submit.language)
    else throw (ValidationError s!"Unsupported language: {submit.language}")

/-- `job.result ?? { … }`. -/
def statusResult (job : Job) : ExecutionResult :=
  job.result.getD
    { id := job.id, status := job.status, stdout := "", stderr := "", exitCode := none
      language := none, startedAt := none, finishedAt := none, error := none, durationMs := none }

/-- `GET /api/status/:id`. -/
def getStatus (b : Backend) (id : String) : Async Reply := handler do
  if id = "" then throw (ValidationError "Missing job id")
  else
    match ← await (getJob b id) with
    | none => throw (NotFoundError "Job" id)
    | some job => send 200 (.result (statusResult (← read job)))

/-- `GET /api/workers/:id/jobs/next`. -/
def getJobsNext (b : Backend) (worker : String) : Async Reply := handler do
  match ← await (dequeue b) with
  | none => send 204 .none
  | some job =>
    let jobId := (← read job).id
    await (updateJob b jobId { workerId := some (some worker), status := some .running })
    send 200 (.job (← read job))

/-- `POST /api/workers/:id/jobs/:jobId/result`. -/
def postJobResult (b : Backend) (jobId : String) (body : Json) : Async Reply := handler do
  match resultSchema body with
  | none => throw (ValidationError "Invalid result")
  | some r =>
    match ← await (getJob b jobId) with
    | none => send 404 (.error "NotFound" s!"Job {jobId} not found")
    | some _ =>
      await (updateJob b jobId
        { status := some r.status, result := some (some (r.toResult jobId)), workerId := some none })
      send 200 .ok

/-- `POST /api/workers/:id/heartbeat`. -/
def postHeartbeat (body : Json) : Async Reply := handler do
  if heartbeatSchema body then send 200 .ok else throw (ValidationError "Invalid heartbeat")

/-- The fields of several jobs are read. -/
def readAll : List JobObj → Async (List Job)
  | [] => return []
  | obj :: objs => do
    let job ← read obj
    let jobs ← readAll objs
    return job :: jobs

/-- `GET /api/executions`. The two reads of `Promise.all` are made one after the other. -/
def getExecutions (b : Backend) (queryLimit queryOffset : Number) : Async Reply := handler do
  let limit := (queryLimit.or (.fin 50)).min (.fin 200)
  let offset := queryOffset.or (.fin 0)
  let (items, total) ← await do
    let items ← getJobs b limit offset none
    let total ← getJobCount b none
    return (items, total)
  send 200 (.executions (← readAll items) total)

/-- The two timestamps of a job's result, if both are given and not empty. -/
def timesOf (job : Job) : Option (String × String) := do
  let result ← job.result
  let startedAt ← truthy result.startedAt
  let finishedAt ← truthy result.finishedAt
  return (startedAt, finishedAt)

/-- The sum of the durations of jobs, in milliseconds. -/
def sumDurations : Number → List Job → Async Number
  | sum, [] => return sum
  | sum, job :: jobs =>
    match timesOf job with
    | some (startedAt, finishedAt) => do
      let finish ← host (.getTime finishedAt)
      let start ← host (.getTime startedAt)
      sumDurations (sum.add (finish.sub start)) jobs
    | none => sumDurations sum jobs

/-- The average duration of the completed jobs. -/
def avgDuration (completed : List Job) : Async Number :=
  if completed.length > 0 then do
    let sum ← sumDurations (.fin 0) completed
    return sum.divNat completed.length
  else return .fin 0

/-- The share of the completed jobs, in hundredths. -/
def successRate (completed dayResults : List Job) : Number :=
  let successRate := if dayResults.length > 0 then
    (Number.fin completed.length).divNat dayResults.length
  else .fin 1
  (successRate.mulNat 100).round.divNat 100

/-- `GET /api/stats`. -/
def getStats (b : Backend) : Async Reply := handler do
  let now ← host .now
  let dayAgo := toISOString (now - 86400000)
  let weekAgo := toISOString (now - 604800000)
  let (dayCount, weekCount, dayResults) ← await do
    let dayCount ← getJobCount b (some dayAgo)
    let weekCount ← getJobCount b (some weekAgo)
    let dayResults ← getJobs b (.fin 500) (.fin 0) (some dayAgo)
    return (dayCount, weekCount, dayResults)
  let dayResults ← readAll dayResults
  let completed := dayResults.filter fun job => job.status = .completed
  let avg ← avgDuration completed
  send 200 (.stats dayCount weekCount 0 avg.round (successRate completed dayResults))

end CodeHive.Api.Routes
