import CodeHive.Orchestrator.JobFlow
import Mathlib.Algebra.Ring.Int.Defs

/-! # What a worker says of itself

`workerLoop` counts its job in one locked block before `executeJob`, and takes it off the count in
another one after. Between the two the worker shows one job and is `running`, and otherwise none
and is `idle`. -/

namespace CodeHive.Orchestrator.WorkerCounts

set_option autoImplicit false

open CodeHive.Concurrency.Interleaving CodeHive.Lists.Slots
open CodeHive.Orchestrator.Types CodeHive.Orchestrator.Runner CodeHive.Orchestrator.JobFlow

/-- The loop is between its two locked blocks. -/
def counting : Loop → Bool
  | .executing _ => true
  | .sending _ _ => true
  | .sent _ => true
  | _ => false

/-- The id of worker `i`. -/
def workerID (i : ℕ) : String := s!"worker-{i + 1}"

/-- What worker `i` shows while its loop is at `l`. -/
structure Shows (i : ℕ) (l : Loop) (w : Worker) : Prop where
  id : w.ID = workerID i
  maxJobs : w.MaxJobs = 5
  jobs : w.RunningJobs = if counting l then 1 else 0
  status : w.Status = if counting l then "running" else "idle"

/-- **Every worker shows where its loop is.** -/
structure Counted (n : ℕ) (s : State) : Prop where
  loops : s.loops.length = n
  workers : s.d.workers.length = n
  shows : ∀ i l w, s.loops[i]? = some l → s.d.workers[i]? = some w → Shows i l w

section
variable {n i : ℕ} {s s' : State} {l l' : Loop} {w : Worker}

theorem Shows.begin (h : Shows i l w) (hl : counting l = false) (hl' : counting l' = true) :
    Shows i l' w.begin where
  id := h.id
  maxJobs := h.maxJobs
  jobs := by
    have hjobs := h.jobs
    rw [hl, if_neg Bool.false_ne_true] at hjobs
    show w.RunningJobs + 1 = _
    rw [hjobs, hl']
    rfl
  status := by rw [hl']; rfl

theorem Shows.finish (h : Shows i l w) (hl : counting l = true) (hl' : counting l' = false) :
    Shows i l' w.finish where
  id := h.id
  maxJobs := h.maxJobs
  jobs := by
    have hjobs := h.jobs
    rw [hl, if_pos rfl] at hjobs
    show w.RunningJobs - 1 = _
    rw [hjobs, hl']
    rfl
  status := by
    have hjobs := h.jobs
    rw [hl, if_pos rfl] at hjobs
    show (if w.RunningJobs - 1 = 0 then "idle" else w.Status) = _
    rw [hjobs, hl', if_pos (by decide)]
    rfl

/-! ### The moves -/

theorem Counted.start (n : ℕ) : Counted n (start n) where
  loops := List.length_replicate
  workers := by simp [Runner.start, Dispatcher.Start, NewDispatcher]
  shows i l w hl hw := by
    have hloop : l = .select := List.eq_of_mem_replicate (List.mem_of_getElem? hl)
    change ((List.range n).map _)[i]? = some w at hw
    rw [List.getElem?_map] at hw
    obtain ⟨j, hj, rfl⟩ := Option.map_eq_some_iff.mp hw
    obtain ⟨hi, rfl⟩ := List.getElem?_eq_some_iff.mp hj
    rw [hloop, List.getElem_range]
    exact ⟨rfl, rfl, rfl, rfl⟩

/-- A move that touches neither loops nor workers. -/
theorem Counted.keep (h : Counted n s) (hloops : s'.loops = s.loops)
    (hworkers : s'.d.workers = s.d.workers) : Counted n s' where
  loops := by rw [hloops]; exact h.loops
  workers := by rw [hworkers]; exact h.workers
  shows := by rw [hloops, hworkers]; exact h.shows

/-- A loop goes on, and its worker with it. -/
theorem Counted.goto (h : Counted n s) (hi : s.loops[i]? = some l) (f : Worker → Worker)
    (hf : ∀ w, Shows i l w → Shows i l' (f w)) : Counted n ((s.withWorker i f).goto i l') where
  loops := by
    show (s.loops.set i l').length = n
    rw [List.length_set, h.loops]
  workers := by
    show (s.d.workers.modify i f).length = n
    rw [List.length_modify, h.workers]
  shows k l₁ w hl hw := by
    change (s.loops.set i l')[k]? = some l₁ at hl
    change (s.d.workers.modify i f)[k]? = some w at hw
    rw [List.getElem?_modify] at hw
    obtain ⟨w₀, hw₀, rfl⟩ := Option.map_eq_some_iff.mp hw
    rcases getElem?_set_cases hl with ⟨hk, hl⟩ | ⟨rfl, rfl⟩
    · rw [if_neg (Ne.symm hk)]
      exact h.shows k l₁ w₀ hl hw₀
    · rw [if_pos rfl]
      exact hf w₀ (h.shows k l w₀ hi hw₀)

/-- A loop goes on without a locked block. -/
theorem Counted.pass (h : Counted n s) (hi : s.loops[i]? = some l)
    (hloops : s'.loops = s.loops.set i l') (hworkers : s'.d.workers = s.d.workers)
    (hl : counting l' = counting l) : Counted n s' where
  loops := by rw [hloops, List.length_set, h.loops]
  workers := by rw [hworkers, h.workers]
  shows k l₁ w hl₁ hw := by
    rw [hloops] at hl₁
    rw [hworkers] at hw
    rcases getElem?_set_cases hl₁ with ⟨-, hl₁⟩ | ⟨rfl, rfl⟩
    · exact h.shows k l₁ w hl₁ hw
    · obtain ⟨hid, hmax, hjobs, hstatus⟩ := h.shows k l w hi hw
      exact ⟨hid, hmax, by rw [hl]; exact hjobs, by rw [hl]; exact hstatus⟩

theorem Counted.move (h : Counted n s) {new : List Event} (hm : Move s s' new) :
    Counted n s' := by
  cases hm with
  | send hjob hq => exact h.keep rfl rfl
  | receive hc hr => exact h.keep rfl rfl
  | dequeue hq => exact h.keep rfl rfl
  | take hi hq => exact h.pass hi rfl rfl rfl
  | execute hi => exact h.goto hi _ fun w hw => hw.begin rfl rfl
  | executed out elapsed now hi hj => exact h.pass hi rfl rfl rfl
  | result hi hj hc hs => exact h.pass hi rfl rfl rfl
  | finish hi => exact h.goto hi _ fun w hw => hw.finish rfl rfl
  | seeStop hi hstop => exact h.pass hi rfl rfl rfl
  | exit hi => exact h.pass hi rfl rfl rfl
  | callStop => exact h.keep rfl rfl
  | close hk honce => exact h.keep rfl rfl
  | returned hk honce => exact h.keep rfl rfl
  | waited hk hwg => exact h.keep rfl rfl
  | record results heartbeats => exact h.keep rfl rfl

end

/-- In every run, every worker shows where its loop is. -/
theorem counted {n : ℕ} {es : List Event} {s : State} (h : Reaches runner (start n) es s) :
    Counted n s :=
  keeps_of_moves (I := fun _ s => Counted n s) (.start n)
    (fun _ _ _ _ _ h => h.keep rfl rfl) (fun _ _ _ _ h hm => h.move hm) h

/-! ### The sum -/

/-- The loops inside `executeJob`. -/
def inside (s : State) : List ℕ := s.loops.filterMap startedOf

theorem length_inside_le (loops : List Loop) :
    ((loops.filterMap startedOf).length : ℤ) ≤
      (loops.map fun l => if counting l then (1 : ℤ) else 0).sum := by
  induction loops with
  | nil => exact Int.le_refl 0
  | cons l loops ih =>
    have hone : ((startedOf l).toList.length : ℤ) ≤ if counting l then 1 else 0 := by
      cases l <;> simp [startedOf, counting]
    have hlen : ((l :: loops).filterMap startedOf).length =
        (startedOf l).toList.length + (loops.filterMap startedOf).length := by
      rw [List.filterMap_cons]
      cases startedOf l <;> simp [Nat.add_comm]
    rw [List.map_cons, List.sum_cons, hlen]
    omega

theorem Counted.jobs {n : ℕ} {s : State} (h : Counted n s) :
    s.d.workers.map Worker.RunningJobs = s.loops.map fun l => if counting l then 1 else 0 := by
  refine List.ext_getElem (by simp [h.loops, h.workers]) fun i hi hi' => ?_
  rw [List.getElem_map, List.getElem_map]
  exact (h.shows i _ _ (List.getElem?_eq_getElem _) (List.getElem?_eq_getElem _)).jobs

/-- **No more jobs are executed than the workers count.** -/
theorem Counted.inside_le {n : ℕ} {s : State} (h : Counted n s) :
    ((inside s).length : ℤ) ≤ (s.d.workers.map Worker.RunningJobs).sum := by
  rw [h.jobs]
  exact length_inside_le s.loops

end CodeHive.Orchestrator.WorkerCounts
