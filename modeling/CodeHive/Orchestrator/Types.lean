import Mathlib.Data.Int.Basic
import Mathlib.Data.Rat.Defs

/-! # The records of the orchestrator

`internal/types`. An `int` is an integer here where nothing depends on its width, a `float64` is
exact, and a `time.Time` counts nanoseconds from the Unix epoch. -/

namespace CodeHive.Orchestrator.Types

set_option autoImplicit false

abbrev Time := ℤ

/-- `time.Duration`, in nanoseconds. -/
abbrev Duration := ℤ

abbrev Language := String

abbrev JobStatus := String

def JobStatusQueued : JobStatus := "queued"
def JobStatusRunning : JobStatus := "running"
def JobStatusCompleted : JobStatus := "completed"
def JobStatusFailed : JobStatus := "failed"

/-- `ExecutionRequest` describes code execution parameters. -/
structure ExecutionRequest where
  ID : String
  Language : Language
  Code : String
  Stdin : String
  Timeout : ℤ
  MemoryLimit : ℤ
  CreatedAt : Time
  deriving DecidableEq

/-- `ExecutionResult` holds output and metadata from code execution. -/
structure ExecutionResult where
  ID : String
  Stdout : String
  Stderr : String
  ExitCode : ℤ
  Duration : Duration
  Error : String
  Status : JobStatus
  CreatedAt : Time
  UpdatedAt : Time
  deriving DecidableEq

/-- `Job` wraps an execution request with dispatch metadata; `ResultCh` is the address of a
channel. -/
structure Job where
  Request : ExecutionRequest
  ResultCh : ℕ
  CreatedAt : Time
  Priority : ℤ
  deriving DecidableEq

/-- `WorkerStatus` reports the health of a worker and its load. -/
structure WorkerStatus where
  ID : String
  Load : ℚ
  RunningJobs : ℤ
  MaxJobs : ℤ
  Uptime : String
  LastSeen : Time
  Status : String
  deriving DecidableEq

/-- `Heartbeat` represents a worker's liveness signal. -/
structure Heartbeat where
  WorkerID : String
  Timestamp : Time
  Status : String

end CodeHive.Orchestrator.Types
