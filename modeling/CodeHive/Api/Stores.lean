import CodeHive.Api.Types
import Mathlib.Algebra.Group.Int.Defs
import Mathlib.Algebra.Group.Nat.Defs
import Mathlib.Logic.Function.Basic

/-! # The two stores

`MemoryQueue` of `services/queue.ts`, and the Redis commands it uses in its place.

The map of the in-memory queue holds objects that its callers hold too. Ids are fresh, so an object
is put under its key once and is named here by that key (`JobObj.stored`): a mutation through any
reference is a mutation of the record under the key. On Redis a caller holds a parsed copy of its
own (`JobObj.parsed`). The text of a record is kept as the record it spells: a `Job` of strings,
finite numbers, `null` and absent fields survives `JSON.parse(JSON.stringify(job))`. -/

namespace CodeHive.Api.Stores

set_option autoImplicit false

open CodeHive.Js.Value CodeHive.Api.Types

/-- A reference to a job record, as a caller holds it. -/
inductive JobObj where
  /-- The object in the map of the in-memory queue. -/
  | stored (key : String)
  /-- An object of the caller's own. -/
  | parsed (job : Job)

/-- A string that is given and not empty; any other is falsy. -/
def truthy (s : Option String) : Option String := s.filter (· ≠ "")

/-! ### In memory -/

/-- `class MemoryQueue`. -/
structure MemoryQueue where
  jobs : String → Option Job
  order : List String

namespace MemoryQueue

/-- `new MemoryQueue()`, and the queue after `clear()`. -/
def empty : MemoryQueue := ⟨fun _ => none, []⟩

/-- `enqueue`: the record goes into the map, its id to the end of the order. -/
def enqueue (q : MemoryQueue) (job : Job) : MemoryQueue where
  jobs := Function.update q.jobs job.id (some job)
  order := q.order ++ [job.id]

/-- `getJob`. -/
def getJob (q : MemoryQueue) (id : String) : Option JobObj := (q.jobs id).map fun _ => .stored id

/-- `dequeue`: the first id leaves the order, the record stays. An empty id counts as none. -/
def dequeue (q : MemoryQueue) : Option JobObj × MemoryQueue :=
  match q.order with
  | [] => (none, q)
  | id :: rest =>
    let q' := { q with order := rest }
    if id = "" then (none, q') else (q'.getJob id, q')

/-- The object under `key` is mutated. -/
def assign (q : MemoryQueue) (key : String) (updates : PartialJob) : MemoryQueue :=
  { q with jobs := Function.update q.jobs key ((q.jobs key).map (·.assign updates)) }

/-- `updateJob`. -/
def updateJob (q : MemoryQueue) (id : String) (updates : PartialJob) (now : String) :
    Except JsError Unit × MemoryQueue :=
  match q.jobs id with
  | none => (.error (jobNotFound id), q)
  | some job =>
    (.ok (), { q with jobs := Function.update q.jobs id (some (job.update updates now)) })

/-- The ids of the order whose record is from `since` on, as `getJobs` and `getJobCount` take
them. -/
def filtered (q : MemoryQueue) (since : Option String) : List String :=
  match truthy since with
  | some s => q.order.filter fun id => decide (s ≤ ((q.jobs id).map (·.createdAt)).getD "")
  | none => q.order

/-- `getJobs`: a page of the filtered order. -/
def getJobs (q : MemoryQueue) (limit offset : Number) (since : Option String) : List JobObj :=
  (slice (q.filtered since) offset (offset.add limit)).filterMap q.getJob

/-- `getJobCount`. -/
def getJobCount (q : MemoryQueue) (since : Option String) : ℕ := (q.filtered since).length

end MemoryQueue

/-! ### Redis -/

def QUEUE_KEY : String := "codehive:queue"

def JOB_PREFIX : String := "codehive:job:"

/-- The key of a record. -/
def jobKey (id : String) : String := JOB_PREFIX ++ id

@[simp] theorem jobKey_inj {i j : String} : jobKey i = jobKey j ↔ i = j := by simp [jobKey]

/-- The keys of strings and the keys of lists; no key is used for both. -/
structure Redis where
  strings : String → Option Job
  lists : String → List String

/-- The commands that `queue.ts` sends. -/
inductive RedisCmd where
  | get (key : String)
  | set (key : String) (val : Job)
  /-- `MULTI`, `SET key val`, `LPUSH list id`, `EXEC`. -/
  | multiSetLpush (key : String) (val : Job) (list id : String)
  | rpop (list : String)
  | lrange (list : String) (start stop : Number)
  | llen (list : String)

/-- The reply to a command. -/
@[reducible] def RedisCmd.Reply : RedisCmd → Type
  | .get _ => Option Job
  | .set _ _ => Unit
  | .multiSetLpush _ _ _ _ => Unit
  | .rpop _ => Option String
  | .lrange _ _ _ => List String
  | .llen _ => ℕ

namespace Redis

/-- No key is set. -/
def empty : Redis := ⟨fun _ => none, fun _ => []⟩

/-- An index argument that the server accepts, once it is printed: an integer of 64 bits. `-2 ^ 63`
is printed as -9223372036854776000, which is out of range. Beyond `2 ^ 53` the digits printed may
stand for a neighbour of the number; no list is as long. -/
def index? : Number → Option ℤ
  | .fin q => if q.den = 1 ∧ -2 ^ 63 < q.num ∧ q.num < 2 ^ 63 then some q.num else none
  | _ => none

/-- `LRANGE`: both ends are included, negative ones count from the end. -/
def range (xs : List String) (start stop : ℤ) : List String :=
  let n : ℤ := xs.length
  let start := max (if start < 0 then n + start else start) 0
  let stop := min (if stop < 0 then n + stop else stop) (n - 1)
  (xs.drop start.toNat).take (stop - start + 1).toNat

/-- `LRANGE key 0 -1` is the whole list. -/
theorem range_zero_neg_one (xs : List String) : range xs 0 (-1) = xs := by
  have hstart : max (if (0 : ℤ) < 0 then (xs.length : ℤ) + 0 else 0) 0 = 0 := by omega
  have hlen : (min (if (-1 : ℤ) < 0 then (xs.length : ℤ) + -1 else -1) ((xs.length : ℤ) - 1)
      - 0 + 1).toNat = xs.length := by omega
  simp only [range, hstart, hlen, Int.toNat_zero, List.drop_zero, List.take_length]

/-- A command, performed atomically. -/
def exec (r : Redis) : (c : RedisCmd) → Except JsError c.Reply × Redis
  | .get key => (.ok (r.strings key), r)
  | .set key val => (.ok (), { r with strings := Function.update r.strings key (some val) })
  | .multiSetLpush key val list id =>
    (.ok (), ⟨Function.update r.strings key (some val),
      Function.update r.lists list (id :: r.lists list)⟩)
  | .rpop list =>
    (.ok (r.lists list).getLast?, { r with
      lists := Function.update r.lists list (r.lists list).dropLast })
  | .lrange list start stop =>
    match index? start, index? stop with
    | some a, some b => (.ok (range (r.lists list) a b), r)
    | _, _ => (.error (.error "ERR value is not an integer or out of range"), r)
  | .llen list => (.ok (r.lists list).length, r)

end Redis

end CodeHive.Api.Stores
