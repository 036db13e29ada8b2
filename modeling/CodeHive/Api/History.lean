import CodeHive.Api.System
import CodeHive.Lists.Slots

/-! # What the log says about the queue

The ids that were given out, the jobs that were enqueued, the ids that were taken off the queue and
the records that were read are read off the log, for either backend. -/

namespace CodeHive.Api.History

set_option autoImplicit false

open CodeHive.Api.Types CodeHive.Api.Stores CodeHive.Api.Messages CodeHive.Api.Program
open CodeHive.Api.Queue CodeHive.Api.System CodeHive.Concurrency.Pool

/-- An event of a process, and the call it belongs to. -/
abbrev Event := Concurrency.Pool.Event api Task
abbrev Actor := Concurrency.Pool.Actor Task

/-- The id that `randomUUID` gave out. -/
def issueOf : Event → Option (Actor × String)
  | .ran a (.host .randomUUID) id => some (a, id)
  | _ => none

/-- The job that was enqueued. -/
def enqueueOf : Event → Option (Actor × Job)
  | .ran a (.mem (.enqueue job)) _ => some (a, job)
  | .ran a (.redis (.multiSetLpush _ job _ _)) _ => some (a, job)
  | _ => none

/-- The id that was taken off the queue. -/
def popOf : Event → Option (Actor × String)
  | .ran a (.mem .dequeue) (some (.stored id)) => some (a, id)
  | .ran a (.redis (.rpop _)) (.ok (some id)) => some (a, id)
  | _ => none

/-- The key under which a record is stored. -/
def recordKey : Backend → String → String
  | .memory, id => id
  | .redis, id => jobKey id

/-- The record that was read, with its key. -/
def readOf : Event → Option (Actor × String × Job)
  | .ran a (.mem (.load key)) job => some (a, key, job)
  | .ran a (.redis (.get key)) (.ok (some job)) => some (a, key, job)
  | _ => none

section
variable (log : List Event)

def issues : List (Actor × String) := log.filterMap issueOf
def enqueues : List (Actor × Job) := log.filterMap enqueueOf
def pops : List (Actor × String) := log.filterMap popOf
def reads : List (Actor × String × Job) := log.filterMap readOf

/-- The ids of the jobs enqueued so far, in order. -/
def ids : List String := (enqueues log).map (·.2.id)

/-- The jobs that call `t` enqueued, and the ids that it took off the queue. -/
def ownEnqueues (t : ℕ) : List Job := ((enqueues log).filter (·.1.tid = t)).map (·.2)
def ownPops (t : ℕ) : List String := ((pops log).filter (·.1.tid = t)).map (·.2)

end

/-- The event is about none of ids, enqueued jobs and the queue. -/
structure Quiet (e : Event) : Prop where
  issue : issueOf e = none
  enqueue : enqueueOf e = none
  pop : popOf e = none

section
variable (log : List Event) (e : Event)

@[simp] theorem issues_concat : issues (log ++ [e]) = issues log ++ (issueOf e).toList :=
  Lists.Slots.filterMap_concat _ _ _

@[simp] theorem enqueues_concat : enqueues (log ++ [e]) = enqueues log ++ (enqueueOf e).toList :=
  Lists.Slots.filterMap_concat _ _ _

@[simp] theorem pops_concat : pops (log ++ [e]) = pops log ++ (popOf e).toList :=
  Lists.Slots.filterMap_concat _ _ _

@[simp] theorem reads_concat : reads (log ++ [e]) = reads log ++ (readOf e).toList :=
  Lists.Slots.filterMap_concat _ _ _

variable {e}

theorem issues_of_none (he : issueOf e = none) : issues (log ++ [e]) = issues log := by simp [he]

theorem enqueues_of_none (he : enqueueOf e = none) : enqueues (log ++ [e]) = enqueues log := by
  simp [he]

theorem pops_of_none (he : popOf e = none) : pops (log ++ [e]) = pops log := by simp [he]

theorem ids_of_none (he : enqueueOf e = none) : ids (log ++ [e]) = ids log := by
  rw [ids, enqueues_of_none log he, ids]

end

section
variable {log : List Event} {e : Event} {a : Actor} {i : String} {issued : List String}

/-- Every id in the log has been given out, after one more. -/
theorem issued_concat (he : issueOf e = some (a, i)) (hne : i ≠ "")
    (h : ∀ x ∈ issues log, x.2 ∈ issued ∧ x.2 ≠ "") :
    ∀ x ∈ issues (log ++ [e]), x.2 ∈ i :: issued ∧ x.2 ≠ "" := by
  intro x hx
  rw [issues_concat, he] at hx
  rcases List.mem_append.mp hx with hx | hx
  · exact ⟨List.mem_cons_of_mem _ (h x hx).1, (h x hx).2⟩
  · rw [List.mem_singleton.mp hx]
    exact ⟨List.mem_cons_self, hne⟩

/-- An id that is given out is in the log once. -/
theorem nodup_issues_concat (he : issueOf e = some (a, i))
    (h : ∀ x ∈ issues log, x.2 ∈ issued ∧ x.2 ≠ "") (hnodup : ((issues log).map (·.2)).Nodup)
    (hi : i ∉ issued) : ((issues (log ++ [e])).map (·.2)).Nodup := by
  rw [issues_concat, he, List.map_append]
  refine List.nodup_append.mpr ⟨hnodup, List.nodup_singleton _, fun j hj k hk heq => hi ?_⟩
  obtain ⟨x, hx, rfl⟩ := List.mem_map.mp hj
  have hx2 : i = x.2 := (List.mem_singleton.mp hk).symm.trans heq.symm
  rw [hx2]
  exact (h x hx).1

end

section
variable {log : List Event} {t : ℕ}

theorem mem_ids {i : String} : i ∈ ids log ↔ ∃ x ∈ enqueues log, x.2.id = i := by simp [ids]

theorem mem_ownEnqueues {job : Job} :
    job ∈ ownEnqueues log t ↔ ∃ a : Actor, a.tid = t ∧ (a, job) ∈ enqueues log := by
  simp [ownEnqueues, and_comm]

theorem mem_ownPops {i : String} :
    i ∈ ownPops log t ↔ ∃ a : Actor, a.tid = t ∧ (a, i) ∈ pops log := by
  simp [ownPops, and_comm]

end

/-! ### The stores of the two backends -/

/-- The record of a job. -/
def lookup : Backend → Store → String → Option Job
  | .memory, s, id => s.mem.jobs id
  | .redis, s, id => s.redis.strings (jobKey id)

/-- The queue, the oldest id first. -/
def pending : Backend → Store → List String
  | .memory, s => s.mem.order
  | .redis, s => (s.redis.lists QUEUE_KEY).reverse

end CodeHive.Api.History
