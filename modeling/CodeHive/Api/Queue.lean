import CodeHive.Api.Program

/-! # The queue service

`services/queue.ts`. Which store is used is fixed when the process starts (`useRedis`), so it is a
parameter here. -/

namespace CodeHive.Api.Queue

set_option autoImplicit false

open CodeHive.Js.Value CodeHive.Api.Types CodeHive.Api.Stores CodeHive.Api.Messages
open CodeHive.Api.Program CodeHive.Concurrency.Calls

/-- `useRedis()`: whether `REDIS_HOST` is configured. -/
inductive Backend where
  | memory
  | redis
  deriving DecidableEq

/-- The record `enqueue` makes. -/
def newJob (id : String) (request : ExecutionRequest) (now : String) : Job where
  id := id
  type := .execute
  payload := request
  status := .queued
  workerId := none
  createdAt := now
  updatedAt := now
  result := none

def enqueue (b : Backend) (request : ExecutionRequest) : Async JobObj := do
  let id ← host .randomUUID
  let now ← isoNow
  let job := newJob id request now
  match b with
  | .redis =>
    await (redis (.multiSetLpush (jobKey id) job QUEUE_KEY id))
    return .parsed job
  | .memory =>
    mem (.enqueue job)
    return .stored job.id

def getJob (b : Backend) (id : String) : Async (Option JobObj) :=
  match b with
  | .redis => do
    let data ← await (redis (.get (jobKey id)))
    return data.map .parsed
  | .memory => mem (.getJob id)

def dequeue (b : Backend) : Async (Option JobObj) :=
  match b with
  | .redis => do
    match ← await (redis (.rpop QUEUE_KEY)) with
    | none => return none
    | some id =>
      if id = "" then return none
      else
        let data ← await (redis (.get (jobKey id)))
        return data.map .parsed
  | .memory => mem .dequeue

def updateJob (b : Backend) (id : String) (updates : PartialJob) : Async Unit :=
  match b with
  | .redis => do
    match ← await (getJob .redis id) with
    | none => throw (jobNotFound id)
    | some job =>
      let now ← isoNow
      let job ← assign job updates
      let job ← assign job { updatedAt := some now }
      await (redis (.set (jobKey id) (← read job)))
  | .memory => do settle (← mem (.updateJob id updates))

def updateResult (b : Backend) (id : String) (result : ExecutionResult) : Async Unit := do
  match ← await (getJob b id) with
  | none => throw (jobNotFound id)
  | some job =>
    let now ← isoNow
    let job ← assign job
      { result := some (some result), status := some result.status, updatedAt := some now }
    match b with
    | .redis => await (redis (.set (jobKey id) (← read job)))
    | .memory => return ()

/-- The records of a list of ids, one `GET` after the other; the missing ones are left out. -/
def getAll : List String → Async (List Job)
  | [] => return []
  | id :: ids => do
    let data ← await (redis (.get (jobKey id)))
    let jobs ← getAll ids
    return data.toList ++ jobs

/-- The records from `since` on. -/
def sinceFilter (since : Option String) (jobs : List Job) : List Job :=
  match truthy since with
  | some s => jobs.filter fun job => decide (s ≤ job.createdAt)
  | none => jobs

def getJobs (b : Backend) (limit offset : Number) (since : Option String) : Async (List JobObj) :=
  match b with
  | .redis => do
    let ids ← await (redis (.lrange QUEUE_KEY offset ((offset.add limit).sub (.fin 1))))
    let jobs ← getAll ids
    return (slice (sinceFilter since jobs) (.fin 0) limit).map .parsed
  | .memory => mem (.getJobs limit offset since)

def getJobCount (b : Backend) (since : Option String) : Async ℕ :=
  match b with
  | .redis =>
    match truthy since with
    | some s => do
      let ids ← await (redis (.lrange QUEUE_KEY (.fin 0) (.fin (-1))))
      let jobs ← getAll ids
      return (sinceFilter (some s) jobs).length
    | none => await (redis (.llen QUEUE_KEY))
  | .memory => mem (.getJobCount since)

end CodeHive.Api.Queue
