import CodeHive.Go.Fmt
import CodeHive.Orchestrator.Snapshots
import CodeHive.Orchestrator.WorkerApi

/-! # The ids in a listing

`GetWorkers` lists the workers of the dispatcher, and after them every id that has sent a heartbeat.
The ids of the first are made from a number, those of the others come from the path of a request,
and nothing keeps the two apart. -/

namespace CodeHive.Orchestrator.WorkerIds

set_option autoImplicit false

open CodeHive.Concurrency.Interleaving CodeHive.Go.Sync CodeHive.Js.Value
open CodeHive.Orchestrator.Types CodeHive.Orchestrator.Runner CodeHive.Orchestrator.WorkerApi
open CodeHive.Orchestrator.WorkerCounts CodeHive.Orchestrator.Snapshots

/-! ### A call by itself -/

/-- `GetWorkers` without anything in between; `clock i` is what the clock makes of worker `i`. -/
def GetWorkers (d : Dispatcher) (clock : ℕ → String × Time)
    (visited : List ((String × Time) × String)) : List WorkerStatus :=
  (d.workers.mapIdx fun i w => entryOf w (clock i).1 (clock i).2) ++ heartbeatEntries visited

section
variable {d : Dispatcher} {clock : ℕ → String × Time} {visited : List ((String × Time) × String)}

/-- The entries of the first `m` workers. -/
def entries (d : Dispatcher) (clock : ℕ → String × Time) (m : ℕ) : List WorkerStatus :=
  (d.workers.take m).mapIdx fun i w => entryOf w (clock i).1 (clock i).2

theorem length_entries {m : ℕ} (hm : m ≤ d.workers.length) : (entries d clock m).length = m := by
  unfold entries
  rw [List.length_mapIdx, List.length_take, Nat.min_eq_left hm]

theorem entries_succ {m : ℕ} {w : Worker} (hw : d.workers[m]? = some w) :
    entries d clock (m + 1) =
      entries d clock m ++ [entryOf w (clock m).1 (clock m).2] := by
  have hm := (List.getElem?_eq_some_iff.mp hw).1
  unfold entries
  rw [List.take_add_one, hw, Option.toList_some, List.mapIdx_concat, List.length_take,
    Nat.min_eq_left (by omega)]

theorem set_concat_length {α : Type} (l : List α) (x y : α) :
    (l ++ [x]).set l.length y = l ++ [y] := by
  rw [List.set_append_right _ _ (Nat.le_refl _), Nat.sub_self, List.set_cons_zero]

/-- A call reads the first `m` workers. -/
theorem reads_alone (s : Observed) (clock : ℕ → String × Time) {m : ℕ}
    (hm : m ≤ s.runner.d.workers.length) :
    Reaches observer s []
      { s with readers := s.readers ++ [.reading (entries s.runner.d clock m)] } := by
  induction m with
  | zero => exact Reaches.refl.step (l := .call) rfl
  | succ m ih =>
    have hw := List.getElem?_eq_getElem (l := s.runner.d.workers) (i := m) (by omega)
    rw [entries_succ hw, ← set_concat_length s.readers (.reading (entries s.runner.d clock m))]
    exact (ih (by omega)).step (step_read List.getElem?_concat_length
      (by rw [length_entries (by omega)]; exact hw) _ _)

/-- **A call that nothing comes between returns `GetWorkers`.** -/
theorem call_alone (s : Observed) (clock : ℕ → String × Time)
    (h : s.runner.d.heartbeats.Visits (visited.map Prod.fst)) :
    ∃ s', Reaches observer s [.listed s.readers.length (GetWorkers s.runner.d clock visited)] s' := by
  have hall : GetWorkers s.runner.d clock visited =
      entries s.runner.d clock s.runner.d.workers.length ++ heartbeatEntries visited := by
    unfold GetWorkers entries
    rw [List.take_length]
  rw [hall]
  exact ⟨_, (reads_alone s clock (Nat.le_refl _)).step
    (step_range List.getElem?_concat_length (length_entries (Nat.le_refl _)) h)⟩

theorem map_ID_GetWorkers : (GetWorkers d clock visited).map WorkerStatus.ID =
    d.workers.map Worker.ID ++ visited.map fun x => x.1.1 := by
  unfold GetWorkers heartbeatEntries
  rw [List.map_append, List.map_map]
  congr 1
  refine List.ext_getElem (by simp) fun i hi hi' => ?_
  simp [entryOf]

end

/-! ### Heartbeats -/

/-- A request of the heartbeat route. -/
structure HeartbeatRequest where
  workerID : String
  body : Option Json
  now : Time

section
variable (time : TimeText)

/-- `handleHeartbeat` does not refuse it. -/
def HeartbeatRequest.Accepted (r : HeartbeatRequest) : Prop :=
  (r.body.bind (decodeHeartbeat time)).isSome

/-- The dispatcher after these requests. -/
def afterHeartbeats (d : Dispatcher) (rs : List HeartbeatRequest) : Dispatcher :=
  rs.foldl (fun d r => (handleHeartbeat time r.workerID r.body r.now d).2) d

/-- A worker of this id has sent a heartbeat. -/
def SentHeartbeat (rs : List HeartbeatRequest) (id : String) : Prop :=
  ∃ r ∈ rs, r.Accepted time ∧ r.workerID = id

end

section
variable {time : TimeText} {d : Dispatcher} {rs : List HeartbeatRequest}

/-- A heartbeat that is not refused is recorded, and nothing else changes. -/
theorem handleHeartbeat_cases (time : TimeText) (r : HeartbeatRequest) (d : Dispatcher) :
    (r.Accepted time ∧
        (handleHeartbeat time r.workerID r.body r.now d).2 = d.RecordHeartbeat r.workerID r.now) ∨
      (¬ r.Accepted time ∧ (handleHeartbeat time r.workerID r.body r.now d).2 = d) := by
  unfold HeartbeatRequest.Accepted handleHeartbeat
  cases r.body.bind (decodeHeartbeat time) with
  | none => exact Or.inr ⟨by simp, rfl⟩
  | some hb => exact Or.inl ⟨rfl, rfl⟩

theorem workers_afterHeartbeats : (afterHeartbeats time d rs).workers = d.workers := by
  unfold afterHeartbeats
  induction rs generalizing d with
  | nil => rfl
  | cons r rs ih =>
    rw [List.foldl_cons, ih]
    rcases handleHeartbeat_cases time r d with ⟨-, h⟩ | ⟨-, h⟩
    all_goals rw [h]
    rfl

/-- **The ids that are recorded** are those of the heartbeats that were not refused. -/
theorem mem_keys_afterHeartbeats (id : String) :
    id ∈ (afterHeartbeats time d rs).heartbeats.keys ↔
      id ∈ d.heartbeats.keys ∨ SentHeartbeat time rs id := by
  unfold afterHeartbeats
  induction rs generalizing d with
  | nil => simp [SentHeartbeat]
  | cons r rs ih =>
    have hcons : SentHeartbeat time (r :: rs) id ↔
        (r.Accepted time ∧ r.workerID = id) ∨ SentHeartbeat time rs id := by
      unfold SentHeartbeat
      rw [List.exists_mem_cons_iff]
    rw [List.foldl_cons, ih, hcons]
    rcases handleHeartbeat_cases time r d with ⟨hacc, h⟩ | ⟨hacc, h⟩
    · have hkeys : id ∈ (d.RecordHeartbeat r.workerID r.now).heartbeats.keys ↔
          id = r.workerID ∨ id ∈ d.heartbeats.keys := by
        rw [← AList.mem_keys, ← AList.mem_keys]
        exact AList.mem_insert _
      rw [h, hkeys, and_iff_right hacc, eq_comm]
      tauto
    · rw [h]
      tauto

end

/-! ### The ids -/

theorem workerID_inj {i j : ℕ} (h : workerID i = workerID j) : i = j := by
  have hrepr : (i + 1).repr = (j + 1).repr := (String.append_right_inj "worker-").mp h
  exact Nat.succ.inj (Go.Fmt.repr_inj hrepr)

/-- The dispatcher-owned ids. -/
theorem map_ID_workers (n : ℕ) :
    (NewDispatcher n).workers.map Worker.ID = (List.range n).map workerID := by
  unfold NewDispatcher
  rw [List.map_map]
  rfl

theorem nodup_workerIDs (n : ℕ) : ((List.range n).map workerID).Nodup :=
  List.nodup_range.map fun _ _ => workerID_inj

section
variable {time : TimeText} {n : ℕ} {rs : List HeartbeatRequest}
  {visited : List ((String × Time) × String)}

theorem nodup_visited {m : Map Time} (h : m.Visits (visited.map Prod.fst)) :
    (visited.map fun x => x.1.1).Nodup := by
  have hperm := Map.perm_keys h
  rw [List.map_map] at hperm
  exact hperm.nodup_iff.mpr m.keys_nodup

theorem mem_visited
    (h : (afterHeartbeats time (NewDispatcher n) rs).heartbeats.Visits (visited.map Prod.fst))
    (id : String) : id ∈ visited.map (fun x => x.1.1) ↔ SentHeartbeat time rs id := by
  have hperm := Map.perm_keys h
  rw [List.map_map] at hperm
  have hnone : id ∉ (NewDispatcher n).heartbeats.keys := List.not_mem_nil
  exact (hperm.mem_iff.trans (mem_keys_afterHeartbeats id)).trans (or_iff_right hnone)

/-- **The ids in a listing are unique**, and one is listed for every worker of the dispatcher and
everyone who has sent a heartbeat, exactly when none of these has sent one under the id of a worker
of the dispatcher. -/
theorem ids_unique_iff
    (h : (afterHeartbeats time (NewDispatcher n) rs).heartbeats.Visits (visited.map Prod.fst))
    (clock : ℕ → String × Time) :
    (((GetWorkers (afterHeartbeats time (NewDispatcher n) rs) clock visited).map
          WorkerStatus.ID).Nodup ∧
        ∀ id, id ∈ (GetWorkers (afterHeartbeats time (NewDispatcher n) rs) clock visited).map
            WorkerStatus.ID ↔
          (∃ i < n, workerID i = id) ∨ SentHeartbeat time rs id) ↔
      ∀ i < n, ¬ SentHeartbeat time rs (workerID i) := by
  have hlocal : ∀ id, id ∈ (List.range n).map workerID ↔ ∃ i < n, workerID i = id := by
    intro id
    simp
  rw [map_ID_GetWorkers, workers_afterHeartbeats, map_ID_workers, List.nodup_append']
  constructor
  · rintro ⟨⟨-, -, hdisjoint⟩, -⟩ i hi hsent
    exact hdisjoint ((hlocal _).mpr ⟨i, hi, rfl⟩) ((mem_visited h _).mpr hsent)
  · intro hnone
    refine ⟨⟨nodup_workerIDs n, nodup_visited h, ?_⟩, fun id => ?_⟩
    · intro id hid hid'
      obtain ⟨i, hi, rfl⟩ := (hlocal id).mp hid
      exact hnone i hi ((mem_visited h _).mp hid')
    · rw [List.mem_append, hlocal, mem_visited h]

end

/-- A heartbeat, and the time that is recorded for it. -/
def heartbeatOf (id : String) : HeartbeatRequest := ⟨id, some (.obj []), 7⟩

/-- A worker with an id of its own. -/
theorem ids_unique_remote : ((GetWorkers
    (afterHeartbeats noTime (NewDispatcher 1) [heartbeatOf "remote"]) (fun _ => ("1s", 8))
      [(("remote", 7), "1s")]).map WorkerStatus.ID).Nodup := by
  refine ((ids_unique_iff (by decide) (fun _ => ("1s", 8))).mpr ?_).1
  rintro i hi ⟨r, hr, -, hid⟩
  obtain rfl : i = 0 := by omega
  cases List.mem_singleton.mp hr
  exact absurd hid (by decide)

/-- **A worker that calls itself `worker-1`** is listed beside the one of the dispatcher. -/
theorem ids_not_unique : ¬ ∀ (time : TimeText) (n : ℕ) (rs : List HeartbeatRequest)
    (visited : List ((String × Time) × String)) (clock : ℕ → String × Time),
    (afterHeartbeats time (NewDispatcher n) rs).heartbeats.Visits (visited.map Prod.fst) →
    ((GetWorkers (afterHeartbeats time (NewDispatcher n) rs) clock visited).map
        WorkerStatus.ID).Nodup ∧
      ∀ id, id ∈ (GetWorkers (afterHeartbeats time (NewDispatcher n) rs) clock visited).map
          WorkerStatus.ID ↔
        (∃ i < n, workerID i = id) ∨ SentHeartbeat time rs id := by
  intro h
  have hnodup := (h noTime 1 [heartbeatOf "worker-1"] [(("worker-1", 7), "1s")] (fun _ => ("1s", 8))
    (by decide)).1
  exact absurd hnodup (by decide)

end CodeHive.Orchestrator.WorkerIds
