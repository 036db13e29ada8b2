import CodeHive.Go.Json
import CodeHive.Orchestrator.Runner

/-! # The worker API of the orchestrator

`internal/workerapi`: a worker takes a job with `handleDequeue`, posts its result to `handleResult`
and tells `handleHeartbeat` that it is alive. How `time.Time` is spelled in JSON depends on the time
zone, and is left open. -/

namespace CodeHive.Orchestrator.WorkerApi

set_option autoImplicit false

open CodeHive.Js.Value CodeHive.Go.Json
open CodeHive.Orchestrator.Types CodeHive.Orchestrator.Runner

/-- The methods `MarshalJSON` and `UnmarshalJSON` of `time.Time`. -/
structure TimeText where
  MarshalJSON : Time → Option String
  UnmarshalJSON : String → Option Time

/-- What a handler writes: the status line, and a body unless there is none. -/
structure Response where
  code : ℕ
  body : Option Json

/-- `writeJSON`: the status line is written first, then the body unless `data` is `nil`; an error of
the encoder is dropped. -/
def writeJSON (status : ℕ) (data : Option Encoding) : Response := ⟨status, data.join⟩

/-- `writeError`. -/
def writeError (status : ℕ) (msg : String) : Response :=
  writeJSON status (some (ofStruct [("error", ofString msg)]))

/-- Where no time is read or written. -/
def noTime : TimeText := ⟨fun _ => none, fun _ => none⟩

section
variable (time : TimeText)

/-! ### The records as JSON -/

def ofTime (t : Time) : Encoding := (time.MarshalJSON t).map .str

def readTime (v : Json) : Option Time := v.string?.bind time.UnmarshalJSON

def encodeRequest (r : ExecutionRequest) : Encoding :=
  ofStruct ([("id", ofString r.ID), ("language", ofString r.Language), ("code", ofString r.Code)] ++
    omitempty "stdin" r.Stdin ++
    [("timeout", ofInt r.Timeout), ("memory_limit", ofInt r.MemoryLimit),
      ("created_at", ofTime time r.CreatedAt)])

/-- The fields of a `Job` have no tags. -/
def encodeJob (job : Job) : Encoding :=
  ofStruct [("Request", encodeRequest time job.Request), ("ResultCh", ofChan job.ResultCh),
    ("CreatedAt", ofTime time job.CreatedAt), ("Priority", ofInt job.Priority)]

/-- The zero `time.Time`: midnight of 1 January of the year 1. -/
def zeroTime : Time := -62135596800000000000

/-- `var result types.ExecutionResult`. -/
def zeroResult : ExecutionResult where
  ID := ""
  Stdout := ""
  Stderr := ""
  ExitCode := 0
  Duration := 0
  Error := ""
  Status := ""
  CreatedAt := zeroTime
  UpdatedAt := zeroTime

/-- The fields of an `ExecutionResult`, under their tags. -/
def resultFields : List (String × Setter ExecutionResult) :=
  [("id", field string fun x r => { r with ID := x }),
    ("stdout", field string fun x r => { r with Stdout := x }),
    ("stderr", field string fun x r => { r with Stderr := x }),
    ("exit_code", field int64 fun x r => { r with ExitCode := x }),
    ("duration", field int64 fun x r => { r with Duration := x }),
    ("error", field string fun x r => { r with Error := x }),
    ("status", field string fun x r => { r with Status := x }),
    ("created_at", field (readTime time) fun x r => { r with CreatedAt := x }),
    ("updated_at", field (readTime time) fun x r => { r with UpdatedAt := x })]

def decodeResult (body : Json) : Option ExecutionResult :=
  decodeStruct (resultFields time) zeroResult body

/-- `var hb types.Heartbeat`. -/
def zeroHeartbeat : Heartbeat := ⟨"", zeroTime, ""⟩

/-- The fields of a `Heartbeat`, under their tags. -/
def heartbeatFields : List (String × Setter Heartbeat) :=
  [("worker_id", field string fun x hb => { hb with WorkerID := x }),
    ("timestamp", field (readTime time) fun x hb => { hb with Timestamp := x }),
    ("status", field string fun x hb => { hb with Status := x })]

def decodeHeartbeat (body : Json) : Option Heartbeat :=
  decodeStruct (heartbeatFields time) zeroHeartbeat body

/-! ### The handlers -/

/-- `handleDequeue`. -/
def handleDequeue (s : State) : Response × State :=
  match s.d.Dequeue.1 with
  | none => (writeJSON 204 none, s.dequeue.1)
  | some job => (writeJSON 200 (some (s.jobs[job]?.bind (encodeJob time))), s.dequeue.1)

/-- `handleResult`; `body` is `none` where the request holds no JSON text. -/
def handleResult (jobID : String) (body : Option Json) (now : Time) (d : Dispatcher) :
    Response × Dispatcher :=
  match body.bind (decodeResult time) with
  | none => (writeError 400 "invalid request body", d)
  | some result =>
    (writeJSON 200 (some (ofStruct [("status", ofString "ok")])),
      d.StoreResult jobID { result with ID := jobID, UpdatedAt := now })

/-- `handleHeartbeat`: what the body says is decoded and dropped; the worker is the one of the
path. -/
def handleHeartbeat (workerID : String) (body : Option Json) (now : Time) (d : Dispatcher) :
    Response × Dispatcher :=
  match body.bind (decodeHeartbeat time) with
  | none => (writeError 400 "invalid heartbeat", d)
  | some _ =>
    (writeJSON 200 (some (ofStruct [("status", ofString "ok")])), d.RecordHeartbeat workerID now)

end

end CodeHive.Orchestrator.WorkerApi
