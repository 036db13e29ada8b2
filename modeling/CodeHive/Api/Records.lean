import CodeHive.Api.History

/-! # What the primitives do to the records and the queue

One function says for every primitive which record it leaves under an id, another what it leaves on
the queue, whatever the store holds; the statements about single records are drawn from them. -/

namespace CodeHive.Api.Records

set_option autoImplicit false

open CodeHive.Js.Value CodeHive.Api.Types CodeHive.Api.Stores CodeHive.Api.Messages
open CodeHive.Api.Program CodeHive.Api.Queue CodeHive.Api.System CodeHive.Api.History
open CodeHive.Concurrency.Pool

/-- The record under `i` after the primitive `o`, `old` being the one before; `now` is the time. -/
def written (b : Backend) (o : Op) (now i : String) (old : Option Job) : Option Job :=
  match b, o with
  | .memory, .mem (.enqueue job) => if i = job.id then some job else old
  | .memory, .mem (.updateJob j u) => if i = j then old.map (·.update u now) else old
  | .memory, .mem (.assign j u) => if i = j then old.map (·.assign u) else old
  | .redis, .redis (.set key rec) => if jobKey i = key then some rec else old
  | .redis, .redis (.multiSetLpush key rec _ _) => if jobKey i = key then some rec else old
  | _, _ => old

/-- A record is replaced that is there. -/
theorem map_at {f : String → Option Job} {i : String} {job : Job} (h : f i = some job)
    (g : Job → Job) (j : String) :
    (if j = i then (f j).map g else f j) = if j = i then some (g job) else f j := by
  split_ifs with hji
  · rw [hji, h]; rfl
  · rfl

/-- The queue after the primitive `o`, `old` being the one before. -/
def waiting (b : Backend) (o : Op) (old : List String) : List String :=
  match b, o with
  | .memory, .mem (.enqueue job) => old ++ [job.id]
  | .memory, .mem .dequeue => old.tail
  | .redis, .redis (.multiSetLpush _ _ list id) => if list = QUEUE_KEY then old ++ [id] else old
  | .redis, .redis (.rpop list) => if list = QUEUE_KEY then old.tail else old
  | _, _ => old

section
variable {inp : Input} {s s' : Store}

/-- The environment has no part in the stores. -/
theorem exec_host {o : HostOp} {r : o.Answer} (h : o.exec inp s = some (r, s')) :
    s'.mem = s.mem ∧ s'.redis = s.redis := by
  cases o with
  | randomUUID =>
    simp only [HostOp.exec] at h
    split_ifs at h
    cases h
    exact ⟨rfl, rfl⟩
  | _ => cases h; exact ⟨rfl, rfl⟩

/-- The in-memory queue is all that its methods change. -/
theorem exec_mem {c : MemCall} {r : c.Answer} (h : c.exec inp s = some (r, s')) :
    s'.redis = s.redis ∧ s'.issued = s.issued := by
  cases c with
  | load key => obtain ⟨job, -, he⟩ := Option.map_eq_some_iff.mp h; cases he; exact ⟨rfl, rfl⟩
  | assign key u => obtain ⟨job, -, he⟩ := Option.map_eq_some_iff.mp h; cases he; exact ⟨rfl, rfl⟩
  | _ => cases h; exact ⟨rfl, rfl⟩

theorem dequeue_snd (q : MemoryQueue) : q.dequeue.2 = { q with order := q.order.tail } := by
  unfold MemoryQueue.dequeue
  split
  · next h => rw [h]; exact congrArg (MemoryQueue.mk q.jobs) h
  · next id rest h =>
    rw [h]
    dsimp only
    split_ifs <;> rfl

theorem updateJob_none {q : MemoryQueue} {i now : String} {u : PartialJob} (h : q.jobs i = none) :
    q.updateJob i u now = (.error (jobNotFound i), q) := by
  unfold MemoryQueue.updateJob
  rw [h]

theorem updateJob_order {q : MemoryQueue} {i now : String} {u : PartialJob} :
    (q.updateJob i u now).2.order = q.order := by
  unfold MemoryQueue.updateJob
  split <;> rfl

theorem jobs_exec {c : MemCall} {r : c.Answer} (h : c.exec inp s = some (r, s')) (i : String) :
    s'.mem.jobs i = written .memory (.mem c) (toISOString inp.ms) i (s.mem.jobs i) := by
  cases c with
  | enqueue job => cases h; simp [written, MemoryQueue.enqueue, Function.update_apply]
  | dequeue => cases h; rw [dequeue_snd]; rfl
  | updateJob j u =>
    cases h
    simp only [written, MemoryQueue.updateJob]
    split
    · next hn => split_ifs with hi <;> simp [hi, hn]
    · next job hj => split_ifs with hi <;> simp [hi, hj]
  | load key => obtain ⟨job, -, he⟩ := Option.map_eq_some_iff.mp h; cases he; rfl
  | assign key u =>
    obtain ⟨job, hj, he⟩ := Option.map_eq_some_iff.mp h
    cases he
    simp only [written, MemoryQueue.assign, Function.update_apply]
    split_ifs with hi
    · rw [hi]
    · rfl
  | _ => cases h; rfl

theorem order_exec {c : MemCall} {r : c.Answer} (h : c.exec inp s = some (r, s')) :
    s'.mem.order = waiting .memory (.mem c) s.mem.order := by
  cases c with
  | dequeue => cases h; rw [dequeue_snd]; rfl
  | updateJob j u => cases h; exact updateJob_order
  | load key => obtain ⟨job, -, he⟩ := Option.map_eq_some_iff.mp h; cases he; rfl
  | assign key u => obtain ⟨job, -, he⟩ := Option.map_eq_some_iff.mp h; cases he; rfl
  | _ => cases h; rfl

theorem exec_lrange (q : Redis) (list : String) (start stop : Number) :
    (q.exec (.lrange list start stop)).2 = q := by
  simp only [Redis.exec]
  split <;> rfl

/-- The answer of `RPOP` is the last element of the list. -/
theorem rpop_fst (q : Redis) (list : String) :
    (q.exec (.rpop list)).1 = .ok (q.lists list).reverse.head? := by
  simp [Redis.exec, List.head?_reverse]

theorem strings_exec (q : Redis) (c : RedisCmd) (now i : String) :
    (q.exec c).2.strings (jobKey i) = written .redis (.redis c) now i (q.strings (jobKey i)) := by
  cases c with
  | set key rec => simp [written, Redis.exec, Function.update_apply]
  | multiSetLpush key rec list id => simp [written, Redis.exec, Function.update_apply]
  | lrange list start stop => rw [exec_lrange]; rfl
  | _ => rfl

theorem lists_exec (q : Redis) (c : RedisCmd) :
    ((q.exec c).2.lists QUEUE_KEY).reverse =
      waiting .redis (.redis c) (q.lists QUEUE_KEY).reverse := by
  cases c with
  | multiSetLpush key rec list id =>
    simp only [Redis.exec, waiting, Function.update_apply, eq_comm (a := QUEUE_KEY)]
    split_ifs with hl <;> simp [hl]
  | rpop list =>
    simp only [Redis.exec, waiting, Function.update_apply, eq_comm (a := QUEUE_KEY)]
    split_ifs with hl
    · rw [hl, List.tail_reverse]
    · rfl
  | lrange list start stop => rw [exec_lrange]; rfl
  | _ => rfl

variable {o : Op} {r : o.Answer}

/-- **The records after a primitive.** -/
theorem lookup_exec (h : exec o inp s = some (r, s')) (b : Backend) (i : String) :
    lookup b s' i = written b o (toISOString inp.ms) i (lookup b s i) := by
  cases o with
  | host o =>
    obtain ⟨hm, hr⟩ := exec_host h
    cases b with
    | memory => exact congrArg (fun q => q.jobs i) hm
    | redis => exact congrArg (fun q => q.strings (jobKey i)) hr
  | mem c =>
    cases b with
    | memory => exact jobs_exec h i
    | redis => exact congrArg (fun q => q.strings (jobKey i)) (exec_mem h).1
  | redis c =>
    cases h
    cases b with
    | memory => rfl
    | redis => exact strings_exec _ _ _ _

/-- **The queue after a primitive.** -/
theorem pending_exec (h : exec o inp s = some (r, s')) (b : Backend) :
    pending b s' = waiting b o (pending b s) := by
  cases o with
  | host o =>
    obtain ⟨hm, hr⟩ := exec_host h
    cases b with
    | memory => exact congrArg (fun q => q.order) hm
    | redis => exact congrArg (fun q => (q.lists QUEUE_KEY).reverse) hr
  | mem c =>
    cases b with
    | memory => exact order_exec h
    | redis => exact congrArg (fun q => (q.lists QUEUE_KEY).reverse) (exec_mem h).1
  | redis c =>
    cases h
    cases b with
    | memory => rfl
    | redis => exact lists_exec _ _

/-- What the methods of the in-memory queue and the commands leave as they were. -/
theorem issued_exec (h : exec o inp s = some (r, s')) (ho : ∀ o', o ≠ .host o') :
    s'.issued = s.issued := by
  cases o with
  | host o => exact absurd rfl (ho o)
  | mem c => exact (exec_mem h).2
  | redis c => cases h; rfl

end

/-- A record that is there stays there. -/
theorem written_isSome {b : Backend} {o : Op} {now i : String} {old : Option Job}
    (h : old.isSome) : (written b o now i old).isSome := by
  unfold written
  split <;> first | assumption | (split_ifs <;> simp [h])

/-- The primitive may change the record under `i`. -/
def Touches (b : Backend) (i : String) (o : Op) : Prop :=
  match b, o with
  | .memory, .mem (.enqueue job) => i = job.id
  | .memory, .mem (.updateJob j _) => i = j
  | .memory, .mem (.assign j _) => i = j
  | .redis, .redis (.set key _) => jobKey i = key
  | .redis, .redis (.multiSetLpush key _ _ _) => jobKey i = key
  | _, _ => False

theorem written_of_not_touches {b : Backend} {o : Op} {now i : String} {old : Option Job}
    (h : ¬ Touches b i o) : written b o now i old = old := by
  unfold Touches at h
  unfold written
  split <;> first | rfl | exact if_neg h

end CodeHive.Api.Records
