import CodeHive.Api.Routes

/-! # The processes

`apiSystem b` is a process of the API on the backend `b`: requests arrive in any order, and their
handlers and the inline executions they start interleave at the awaits. `clients b allowed` makes
the functions of the queue service themselves the calls that arrive. -/

namespace CodeHive.Api.System

set_option autoImplicit false

open CodeHive.Api.Types CodeHive.Api.Stores CodeHive.Api.Messages CodeHive.Api.Program
open CodeHive.Api.Queue CodeHive.Api.Executor CodeHive.Api.Routes
open CodeHive.Concurrency CodeHive.Concurrency.Calls CodeHive.Concurrency.Pool

/-- The handler of a request. -/
def handle (b : Backend) : Request → Async Reply
  | .execute body => postExecute b body
  | .status id => getStatus b id
  | .jobsNext worker => getJobsNext b worker
  | .jobResult _ jobId body => postJobResult b jobId body
  | .heartbeat _ body => postHeartbeat body
  | .executions limit offset => getExecutions b limit offset
  | .stats => getStats b

/-- What a request ends with. -/
def replied : Except JsError Reply → Outcome
  | .ok r => .reply r
  | .error err => .reply (sendError err)

/-- A record that a call returns, as its caller reads it. -/
def readOption : Option JobObj → Async (Option Job)
  | none => return none
  | some obj => do return some (← read obj)

/-- A call of the queue service. -/
def perform (b : Backend) : Call → Async (Option Job)
  | .enqueue request => do readOption (some (← enqueue b request))
  | .dequeue => do readOption (← dequeue b)
  | .getJob id => do readOption (← getJob b id)
  | .updateJob id updates => do
    updateJob b id updates
    return none
  | .updateResult id result => do
    updateResult b id result
    return none
  | .executeJob jobId language code stdin timeoutSec => do
    executeJob b jobId language code stdin timeoutSec
    return none

/-- The process whose calls from outside are given by `entry`. -/
abbrev process (entry : Task → Option Thread) : System api Task Outcome :=
  { machine with entry := entry }

/-- What a process has done so far. -/
abbrev World := Concurrency.Pool.World machine Task

def apiEntry (b : Backend) : Task → Option Thread
  | .request r => some ((handle b r).toThread replied)
  | _ => none

/-- **The API on backend `b`.** -/
abbrev apiSystem (b : Backend) : System api Task Outcome := process (apiEntry b)

def clientEntry (b : Backend) (allowed : Call → Bool) : Task → Option Thread
  | .call c => if allowed c then some ((perform b c).toThread .returned) else none
  | _ => none

/-- **Clients of the queue service**, each making one of the allowed calls. -/
abbrev clients (b : Backend) (allowed : Call → Bool) : System api Task Outcome :=
  process (clientEntry b allowed)

/-- A piece of a schedule: call `t` is resumed and makes `n` steps. -/
def turn (t n : ℕ) (inp : Input) : List (Label Task Input) := .resume t :: .replicate n (.next inp)

end CodeHive.Api.System
