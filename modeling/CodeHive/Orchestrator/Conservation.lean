import CodeHive.Orchestrator.Outcomes
import CodeHive.Orchestrator.Stopping

/-! # No job is lost, none is executed twice

Every job that `Submit` has sent is in the queue, with one worker loop, executed, or taken by one
`Dequeue`; jobs leave the queue in the order in which they were sent; and once `Stop` has returned
nothing is executed any more. -/

namespace CodeHive.Orchestrator.Conservation

set_option autoImplicit false

open CodeHive.Concurrency.Interleaving CodeHive.Go.Sync CodeHive.Lists.Slots
open CodeHive.Orchestrator.Types CodeHive.Orchestrator.Runner CodeHive.Orchestrator.JobFlow
open CodeHive.Orchestrator.Outcomes CodeHive.Orchestrator.Stopping

/-- **Where the jobs are whose `Submit` has completed.** -/
structure Conserved (es : List Event) (s : State) : Prop where
  /-- `Submit` of a job completes once. -/
  once : (sends es).Nodup
  /-- They are those in the queue, those being executed, those executed, and those dequeued; none
  is in two of these lists, or twice in one. -/
  accounted : (sends es).Perm (s.d.jobQueue.buf ++ executing s ++ finished es ++ dequeues es)
  /-- No two worker loops execute the same job. -/
  alone : ∀ (i k job : ℕ) (l m : Loop), s.loops[i]? = some l → s.loops[k]? = some m →
    jobOf l = some job → jobOf m = some job → i = k
  /-- An executed job was executed once, and one result was sent for it, with its id. -/
  executed : ∀ job ∈ finished es, (executions es).count job = 1 ∧
    ∃ r j, resultsFor job es = [r] ∧ s.jobs[job]? = some j ∧ r.ID = j.Request.ID
  /-- A dequeued job was dequeued once, and no worker loop executes it. -/
  dequeued : ∀ job ∈ dequeues es, (dequeues es).count job = 1 ∧ job ∉ executions es
  /-- Jobs leave the queue in the order in which they were sent. -/
  fifo : takes es <+: sends es

/-- Some call of `Stop` has returned. -/
def Stopped (s : State) : Prop := ∃ k : ℕ, s.stops[k]? = some .returned

section
variable {es : List Event} {s : State}

theorem nodup_sends (h : Flow es s) : (sends es).Nodup :=
  (List.nodup_append.mp (h.calls.nodup_iff.mpr List.nodup_range)).2.1

theorem accounted (h : Flow es s) :
    (sends es).Perm (s.d.jobQueue.buf ++ executing s ++ finished es ++ dequeues es) := by
  calc sends es
      _ |>.Perm (takes es ++ s.d.jobQueue.buf) := .of_eq h.fifo.symm
      _ |>.Perm (s.d.jobQueue.buf ++ takes es) := List.perm_append_comm
      _ |>.Perm (s.d.jobQueue.buf ++ (executing s ++ (finished es ++ dequeues es))) :=
        h.parted.append_left _
      _ |>.Perm (s.d.jobQueue.buf ++ executing s ++ finished es ++ dequeues es) :=
        .of_eq (by simp only [List.append_assoc])

theorem length_resultsFor (job : ℕ) (es : List Event) :
    (resultsFor job es).length = (finished es).count job := by
  induction es with
  | nil => rfl
  | cons e es ih =>
    cases e with
    | result k r =>
      rw [resultsFor] at ih
      rw [resultsFor, List.filterMap_cons, resultFor]
      change _ = (k :: finished es).count job
      by_cases hk : k = job
      · simp [hk, ih]
      · simp [hk, ih]
    | _ => exact ih

/-- No job is in two of the lists, or twice in one. -/
theorem count_le_one (h : Flow es s) (job : ℕ) :
    s.d.jobQueue.buf.count job + (executing s).count job + (finished es).count job +
      (dequeues es).count job ≤ 1 := by
  have hnodup := (accounted h).nodup_iff.mp (nodup_sends h)
  have hle := List.nodup_iff_count_le_one.mp hnodup job
  simpa only [List.count_append] using hle

/-- The jobs for which `Execute` was called are with a worker loop or executed. -/
theorem count_executions (h : Flow es s) (job : ℕ) :
    (finished es).count job ≤ (executions es).count job ∧
      (executions es).count job ≤ (executing s).count job + (finished es).count job := by
  have hcount := h.started.count_eq job
  have hle : (s.loops.filterMap startedOf).count job ≤ (executing s).count job := by
    rw [executing, List.count_filterMap, List.count_filterMap]
    refine List.countP_mono_left fun l _ hl => ?_
    cases l <;> first | exact hl | cases hl
  rw [List.count_append] at hcount
  omega

theorem conserved (h : Flow es s) (hr : Settled es s) : Conserved es s where
  once := nodup_sends h
  accounted := accounted h
  alone i k job l m hi hk hl hm := by
    refine eq_of_nodup_filterMap jobOf (List.nodup_iff_count_le_one.mpr fun job => ?_) hi hk hl hm
    have hle := count_le_one h job
    change (executing s).count job ≤ 1
    omega
  executed job hjob := by
    have hpos := List.count_pos_iff.mpr hjob
    have hle := count_le_one h job
    have hexec := count_executions h job
    refine ⟨by omega, ?_⟩
    have hlen : (resultsFor job es).length = 1 := by
      rw [length_resultsFor]
      omega
    obtain ⟨r, hrs⟩ := List.length_eq_one_iff.mp hlen
    have hmem : r ∈ resultsFor job es := by rw [hrs]; exact List.mem_singleton_self r
    obtain ⟨j, i, out, elapsed, now, hj, -, rfl⟩ := hr.sent job r (mem_resultsFor.mp hmem)
    exact ⟨_, j, hrs, hj, rfl⟩
  dequeued job hjob := by
    have hpos := List.count_pos_iff.mpr hjob
    have hle := count_le_one h job
    have hexec := count_executions h job
    refine ⟨by omega, List.count_eq_zero.mp (by omega)⟩
  fifo := ⟨_, h.fifo⟩

end

/-- **Dispatcher job conservation**: in every reachable state the jobs are accounted for, and once
`Stop` has returned no job is being executed and none is executed in any continuation. -/
theorem jobs_conserved {n : ℕ} {es : List Event} {s : State} (h : Reaches runner (start n) es s) :
    Conserved es s ∧ (Stopped s → executing s = [] ∧
      ∀ es' s', Reaches runner s es' s' → executing s' = [] ∧ executions es' = []) := by
  refine ⟨conserved (flow h) (settled h), fun ⟨k, hk⟩ => ?_⟩
  have hhalt := halting h
  have hended := hhalt.done (hhalt.returned k hk)
  refine ⟨executing_of_ended hended, fun es' s' h' => ?_⟩
  obtain ⟨hended', hnone⟩ := ended_reaches hended h'
  exact ⟨executing_of_ended hended', hnone⟩

/-- Two jobs are submitted; the first is dequeued and the second executed; then the dispatcher is
stopped. -/
def schedule : List Label :=
  [.submit (request "a") 0 0, .send 0, .submit (request "b") 0 0, .send 1, .dequeue] ++
    execution 0 "1" ++
    [.loop 0 .next, .callStop, .stop 0, .loop 0 .stopCh, .loop 0 .next, .stop 0]

theorem jobs_conserved_run : ∃ es s, runner.run (start 1) schedule = some (s, es) ∧
    sends es = [0, 1] ∧ finished es = [1] ∧ dequeues es = [0] ∧ Stopped s ∧ Conserved es s ∧
    ∀ es' s', Reaches runner s es' s' → executing s' = [] ∧ executions es' = [] := by
  have hrun : ∃ es s, runner.run (start 1) schedule = some (s, es) ∧ sends es = [0, 1] ∧
      finished es = [1] ∧ dequeues es = [0] ∧ Stopped s :=
    ⟨_, _, rfl, rfl, rfl, rfl, 0, rfl⟩
  obtain ⟨es, s, hs, hsends, hfinished, hdequeues, hstopped⟩ := hrun
  obtain ⟨hc, hstop⟩ := jobs_conserved (reaches_of_run hs)
  exact ⟨es, s, hs, hsends, hfinished, hdequeues, hstopped, hc, (hstop hstopped).2⟩

end CodeHive.Orchestrator.Conservation
