import CodeHive.Orchestrator.ApiServer
import CodeHive.Orchestrator.Executors
import CodeHive.Orchestrator.WorkerApi
import Mathlib.Algebra.Group.Nat.Defs

/-! # The timeout of an execution

The number of seconds in the body of `POST /api/execute`, on its way through `handleExecute` and the
executor of its language to `executeCommand`, which makes a duration of it. An `int` has 64 bits,
and so has a `time.Duration`. -/

namespace CodeHive.Orchestrator.Timeouts

set_option autoImplicit false

open CodeHive.Js.Value CodeHive.Go.Json CodeHive.Orchestrator.Types
open CodeHive.Orchestrator.WorkerApi CodeHive.Orchestrator.ApiServer
open CodeHive.Orchestrator.Executors

/-! ### The request -/

/-- `var req types.ExecutionRequest`. -/
def zeroRequest : ExecutionRequest where
  ID := ""
  Language := ""
  Code := ""
  Stdin := ""
  Timeout := 0
  MemoryLimit := 0
  CreatedAt := zeroTime

/-- The fields of an `ExecutionRequest`, under their tags. -/
def requestFields (time : TimeText) : List (String × Setter ExecutionRequest) :=
  [("id", field string fun x r => { r with ID := x }),
    ("language", field string fun x r => { r with Language := x }),
    ("code", field string fun x r => { r with Code := x }),
    ("stdin", field string fun x r => { r with Stdin := x }),
    ("timeout", field int64 fun x r => { r with Timeout := x }),
    ("memory_limit", field int64 fun x r => { r with MemoryLimit := x }),
    ("created_at", field (readTime time) fun x r => { r with CreatedAt := x })]

/-- The request that `handleExecute` submits for a body, if it accepts the body. -/
def acceptedRequest (time : TimeText) (body : Json) (now₁ now₂ : Time) : Option ExecutionRequest :=
  (decodeStruct (requestFields time) zeroRequest body).map fun req => withDefaults req now₁ now₂

section
variable {time : TimeText} {body : Json} {now₁ now₂ : Time} {req : ExecutionRequest}

/-- A timeout that is not positive has been replaced. -/
theorem timeout_pos (h : acceptedRequest time body now₁ now₂ = some req) : 0 < req.Timeout := by
  obtain ⟨r, -, rfl⟩ := Option.map_eq_some_iff.mp h
  unfold withDefaults
  show 0 < if r.Timeout ≤ 0 then 30 else r.Timeout
  split
  · decide
  · omega

end

/-! ### The duration -/

/-- `time.Second`. -/
def Second : Int64 := 1000000000

/-- `time.Duration(timeoutSec)*time.Second`, with which `executeCommand` calls
`context.WithTimeout`. -/
def timeoutDuration (timeoutSec : ℤ) : Int64 := Int64.ofInt timeoutSec * Second

theorem toInt_timeoutDuration (t : ℤ) :
    (timeoutDuration t).toInt = (t * 1000000000).bmod (2 ^ 64) := by
  unfold timeoutDuration
  have hsecond : Second.toInt = 1000000000 := by decide
  rw [Int64.toInt_mul, Int64.toInt_ofInt, hsecond]
  exact Int.bmod_mul_bmod

/-- The most seconds whose nanoseconds fit into 63 bits. -/
def maxSeconds : ℤ := 9223372036

theorem timeoutDuration_exact_iff {t : ℤ} (ht : 0 < t) :
    (timeoutDuration t).toInt = t * 1000000000 ↔ t ≤ maxSeconds := by
  unfold maxSeconds
  constructor
  · intro h
    have hlt := (timeoutDuration t).toInt_lt
    omega
  · intro h
    rw [toInt_timeoutDuration]
    exact Int.bmod_eq_of_le (by omega) (by omega)

/-- Within these bounds a longer timeout is a longer duration. -/
theorem timeoutDuration_lt {t t' : ℤ} (ht : 0 < t) (h : t < t') (ht' : t' ≤ maxSeconds) :
    (timeoutDuration t).toInt < (timeoutDuration t').toInt := by
  rw [(timeoutDuration_exact_iff ht).mpr (by omega),
    (timeoutDuration_exact_iff (by omega)).mpr ht']
  omega

/-! ### What is enforced -/

/-- **The timeout that is enforced is the one that was asked for**, whichever executor runs the
request, exactly when it is at most `9223372036` seconds. -/
theorem enforced_iff {time : TimeText} {body : Json} {now₁ now₂ : Time} {req : ExecutionRequest}
    (h : acceptedRequest time body now₁ now₂ = some req) (e : Executor) (tmpPath : String) :
    ((timeoutDuration (e.Execute req tmpPath).timeoutSec).toInt = req.Timeout * 1000000000 ∧
        0 < (timeoutDuration (e.Execute req tmpPath).timeoutSec).toInt) ↔
      req.Timeout ≤ 9223372036 := by
  have hpos := timeout_pos h
  have hsec : (e.Execute req tmpPath).timeoutSec = req.Timeout := by
    cases e <;> rfl
  rw [hsec, timeoutDuration_exact_iff hpos]
  refine ⟨fun h => h.1, fun h => ⟨h, ?_⟩⟩
  rw [(timeoutDuration_exact_iff hpos).mpr h]
  omega

/-- A body that asks for `seconds`, and the request it becomes. -/
def bodyOf (seconds : ℤ) : Json := .obj [("id", .str "job"), ("timeout", .num seconds)]

def requestOf (seconds : ℤ) : ExecutionRequest :=
  { zeroRequest with ID := "job", Timeout := seconds, CreatedAt := 0 }

theorem enforced_hour : acceptedRequest noTime (bodyOf 3600) 0 0 = some (requestOf 3600) ∧
    (timeoutDuration (Executor.goExecutor.Execute (requestOf 3600) "").timeoutSec).toInt =
      3600000000000 := by
  have h : acceptedRequest noTime (bodyOf 3600) 0 0 = some (requestOf 3600) := by decide +kernel
  exact ⟨h, ((enforced_iff h .goExecutor "").mpr (by decide)).1⟩

/-- **One second more than fits**: the deadline is in the past. -/
theorem deadline_in_the_past : ¬ ∀ (time : TimeText) (body : Json) (now₁ now₂ : Time)
    (req : ExecutionRequest), acceptedRequest time body now₁ now₂ = some req →
    ∀ (e : Executor) (tmpPath : String),
      (timeoutDuration (e.Execute req tmpPath).timeoutSec).toInt = req.Timeout * 1000000000 ∧
        0 < (timeoutDuration (e.Execute req tmpPath).timeoutSec).toInt := by
  intro h
  have haccepted : acceptedRequest noTime (bodyOf 9223372037) 0 0 = some (requestOf 9223372037) := by
    decide +kernel
  obtain ⟨-, hpos⟩ := h _ _ _ _ _ haccepted .pythonExecutor ""
  exact absurd hpos (by decide +kernel)

end CodeHive.Orchestrator.Timeouts
