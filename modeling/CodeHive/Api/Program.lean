import CodeHive.Api.Stores
import CodeHive.Api.Messages
import CodeHive.Concurrency.Pool

/-! # The primitives of the API

What the code of the API performs without giving up the event loop: calls of the clock, of
`randomUUID` and of the file system, the methods of the in-memory queue, reads and mutations of the
objects in it, and single Redis commands. `Async` is the type of its `async` functions. -/

namespace CodeHive.Api.Program

set_option autoImplicit false

open CodeHive.Js.Value CodeHive.Api.Types CodeHive.Api.Stores CodeHive.Api.Messages
open CodeHive.Concurrency CodeHive.Concurrency.Calls CodeHive.Concurrency.Pool

/-- `LangCfg`. -/
structure LangCfg where
  cmd : String
  ext : String
  args : Option (List String) := none

/-- `ProcResult`: what `runProcess` resolves to. -/
structure ProcResult where
  stdout : String
  stderr : String
  exitCode : Finite
  error : Option String
  deriving DecidableEq

/-- The environment of the process. -/
inductive HostOp where
  /-- `Date.now()`, also inside `new Date()`. -/
  | now
  | randomUUID
  | mkdtempSync
  | writeFileSync (file code : String)
  | execSync (command : String)
  | runProcess (cfg : LangCfg) (file : String) (stdin : Option String) (timeout : Finite)
  | rmSync (dir : String)
  /-- `new Date(text).getTime()`. -/
  | getTime (text : String)

@[reducible] def HostOp.Answer : HostOp → Type
  | .now => ℤ
  | .randomUUID => String
  | .mkdtempSync => Except JsError String
  | .writeFileSync _ _ => Except JsError Unit
  | .execSync _ => Except JsError Unit
  | .runProcess _ _ _ _ => Except JsError ProcResult
  | .rmSync _ => Unit
  | .getTime _ => Number

/-- The methods of the in-memory queue, and what its callers do with the objects in it. -/
inductive MemCall where
  | enqueue (job : Job)
  | dequeue
  | getJob (id : String)
  | updateJob (id : String) (updates : PartialJob)
  | getJobs (limit offset : Number) (since : Option String)
  | getJobCount (since : Option String)
  /-- The fields of an object are read. -/
  | load (key : String)
  /-- Fields of an object are assigned. -/
  | assign (key : String) (updates : PartialJob)

@[reducible] def MemCall.Answer : MemCall → Type
  | .enqueue _ => Unit
  | .dequeue => Option JobObj
  | .getJob _ => Option JobObj
  | .updateJob _ _ => Except JsError Unit
  | .getJobs _ _ _ => List JobObj
  | .getJobCount _ => ℕ
  | .load _ => Job
  | .assign _ _ => Unit

inductive Op where
  | host (o : HostOp)
  | mem (c : MemCall)
  | redis (c : RedisCmd)

@[reducible] def Op.Answer : Op → Type
  | .host o => o.Answer
  | .mem c => c.Answer
  | .redis c => Except JsError c.Reply

/-- The signature of the API. -/
@[reducible] def api : Sig := ⟨Op, Op.Answer⟩

/-! ### What the primitives do -/

/-- The two stores, and the ids that `randomUUID` has given out. -/
structure Store where
  mem : MemoryQueue
  redis : Redis
  issued : List String

/-- Nothing is stored. -/
def Store.empty : Store := ⟨.empty, .empty, []⟩

/-- What the environment decides. -/
structure Input where
  /-- The clock. -/
  ms : ℤ := 0
  uuid : String := "id"
  dir : Except JsError String := .ok "/tmp/ch-"
  write : Except JsError Unit := .ok ()
  compile : Except JsError Unit := .ok ()
  proc : Except JsError ProcResult := .ok ⟨"", "", 0, none⟩
  /-- How a timestamp is read. -/
  time : Option TimeValue := none

instance : Inhabited Input := ⟨{}⟩

/-- The environment answers; ids are not empty and never given out twice. -/
def HostOp.exec (o : HostOp) (i : Input) (s : Store) : Option (o.Answer × Store) :=
  match o with
  | .now => some (i.ms, s)
  | .randomUUID =>
    if i.uuid ≠ "" ∧ i.uuid ∉ s.issued then some (i.uuid, { s with issued := i.uuid :: s.issued })
    else none
  | .mkdtempSync => some (i.dir, s)
  | .writeFileSync _ _ => some (i.write, s)
  | .execSync _ => some (i.compile, s)
  | .runProcess _ _ _ _ => some (i.proc, s)
  | .rmSync _ => some ((), s)
  | .getTime _ => some (Js.Value.getTime i.time, s)

/-- The in-memory queue answers; reading an object needs the object. -/
def MemCall.exec (c : MemCall) (i : Input) (s : Store) : Option (c.Answer × Store) :=
  match c with
  | .enqueue job => some ((), { s with mem := s.mem.enqueue job })
  | .dequeue => some (s.mem.dequeue.1, { s with mem := s.mem.dequeue.2 })
  | .getJob id => some (s.mem.getJob id, s)
  | .updateJob id updates =>
    let x := s.mem.updateJob id updates (toISOString i.ms)
    some (x.1, { s with mem := x.2 })
  | .getJobs limit offset since => some (s.mem.getJobs limit offset since, s)
  | .getJobCount since => some (s.mem.getJobCount since, s)
  | .load key => (s.mem.jobs key).map fun job => (job, s)
  | .assign key updates =>
    (s.mem.jobs key).map fun _ => ((), { s with mem := s.mem.assign key updates })

/-- Redis answers. -/
def redisExec (c : RedisCmd) (s : Store) : Option (Except JsError c.Reply × Store) :=
  some ((s.redis.exec c).1, { s with redis := (s.redis.exec c).2 })

/-- What a primitive does, all Redis commands being atomic and successful. -/
def exec (o : Op) (i : Input) (s : Store) : Option (o.Answer × Store) :=
  match o with
  | .host o => o.exec i s
  | .mem c => c.exec i s
  | .redis c => redisExec c s

@[reducible] def machine : Machine api := ⟨Store, Input, exec⟩

/-! ### Asynchronous functions -/

/-- A call of the API. -/
abbrev Thread := Calls.Thread api Task Outcome

/-- The body of an `async` function. -/
abbrev Async (α : Type) := Calls.Async api Task Outcome JsError α

/-- A primitive that is answered. -/
def host (o : HostOp) : Async o.Answer := call (S := api) (.host o)

/-- `new Date().toISOString()`. -/
def isoNow : Async String := do return toISOString (← host .now)

/-- A call of the in-memory queue. -/
def mem (c : MemCall) : Async c.Answer := call (S := api) (.mem c)

/-- A command on its way to the Redis server. -/
def redis (c : RedisCmd) : Async c.Reply :=
  later do settle (← call (S := api) (.redis c))

/-- The fields of a job are read. -/
def read : JobObj → Async Job
  | .stored key => mem (.load key)
  | .parsed job => pure job

/-- Fields of a job are assigned. -/
def assign (obj : JobObj) (updates : PartialJob) : Async JobObj :=
  match obj with
  | .stored key => do
    mem (.assign key updates)
    return .stored key
  | .parsed job => return .parsed (job.assign updates)

end CodeHive.Api.Program
