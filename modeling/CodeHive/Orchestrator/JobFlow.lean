import CodeHive.Lists.Slots
import CodeHive.Orchestrator.Runner

/-! # Where the jobs are

What a history of the dispatcher says of its jobs, and how it accounts for each of them: `Flow` holds
at the start and every move keeps it. -/

namespace CodeHive.Orchestrator.JobFlow

set_option autoImplicit false

open CodeHive.Concurrency.Interleaving CodeHive.Go.Sync CodeHive.Lists.Slots
open CodeHive.Orchestrator.Types CodeHive.Orchestrator.Runner

/-! ### What a history says of the jobs -/

def sentOf : Event → Option ℕ
  | .sent job => some job
  | _ => none

def takenOf : Event → Option ℕ
  | .received _ job => some job
  | .dequeued job => some job
  | _ => none

def dequeuedOf : Event → Option ℕ
  | .dequeued job => some job
  | _ => none

def executeOf : Event → Option ℕ
  | .execute _ job => some job
  | _ => none

def resultOfEvent : Event → Option (ℕ × ExecutionResult)
  | .result job r => some (job, r)
  | _ => none

/-- The jobs whose `Submit` has completed, in that order. -/
def sends (es : List Event) : List ℕ := es.filterMap sentOf

/-- The jobs that have left the queue, in that order. -/
def takes (es : List Event) : List ℕ := es.filterMap takenOf

/-- The jobs that `Dequeue` has returned. -/
def dequeues (es : List Event) : List ℕ := es.filterMap dequeuedOf

/-- The jobs for which a worker loop has called `Execute`. -/
def executions (es : List Event) : List ℕ := es.filterMap executeOf

/-- The results sent, each with its job. -/
def results (es : List Event) : List (ℕ × ExecutionResult) := es.filterMap resultOfEvent

/-- The jobs of the results sent. -/
def finished (es : List Event) : List ℕ := (results es).map Prod.fst

section
variable (es : List Event) (e : Event)

@[simp] theorem sends_concat : sends (es ++ [e]) = sends es ++ (sentOf e).toList :=
  filterMap_concat _ _ _

@[simp] theorem takes_concat : takes (es ++ [e]) = takes es ++ (takenOf e).toList :=
  filterMap_concat _ _ _

@[simp] theorem dequeues_concat : dequeues (es ++ [e]) = dequeues es ++ (dequeuedOf e).toList :=
  filterMap_concat _ _ _

@[simp] theorem executions_concat :
    executions (es ++ [e]) = executions es ++ (executeOf e).toList :=
  filterMap_concat _ _ _

@[simp] theorem results_concat : results (es ++ [e]) = results es ++ (resultOfEvent e).toList :=
  filterMap_concat _ _ _

@[simp] theorem finished_concat :
    finished (es ++ [e]) = finished es ++ ((resultOfEvent e).map Prod.fst).toList := by
  rw [finished, results_concat, List.map_append]
  cases resultOfEvent e <;> rfl

end

/-- The job a worker loop is at, until its result is sent. -/
def jobOf : Loop → Option ℕ
  | .received job => some job
  | .executing job => some job
  | .sending job _ => some job
  | _ => none

/-- The job a worker loop has called `Execute` for, until its result is sent. -/
def startedOf : Loop → Option ℕ
  | .executing job => some job
  | .sending job _ => some job
  | _ => none

/-- The jobs being executed. -/
def executing (s : State) : List ℕ := s.loops.filterMap jobOf

/-! ### The flow of the jobs -/

/-- **Where the jobs are.** -/
structure Flow (es : List Event) (s : State) : Prop where
  /-- `Submit` sends every job once. -/
  calls : (s.submitting ++ sends es).Perm (List.range s.jobs.length)
  fifo : takes es ++ s.d.jobQueue.buf = sends es
  parted : (takes es).Perm (executing s ++ (finished es ++ dequeues es))
  started : (executions es).Perm (s.loops.filterMap startedOf ++ finished es)

section
variable {es : List Event} {s : State}

/-- A move that neither sends, takes, executes nor finishes a job. -/
theorem Flow.keep (h : Flow es s) {s' : State} (hjobs : s'.jobs = s.jobs)
    (hsub : s'.submitting = s.submitting) (hbuf : s'.d.jobQueue = s.d.jobQueue)
    (hloops : executing s' = executing s)
    (hstarted : s'.loops.filterMap startedOf = s.loops.filterMap startedOf) : Flow es s' where
  calls := by rw [hjobs, hsub]; exact h.calls
  fifo := by rw [hbuf]; exact h.fifo
  parted := by rw [hloops]; exact h.parted
  started := by rw [hstarted]; exact h.started

/-- A worker loop goes on, at the same job as before. -/
theorem Flow.goto (h : Flow es s) {i : ℕ} {l : Loop} (l' : Loop) (hi : s.loops[i]? = some l)
    (hjob : jobOf l' = jobOf l) (hstarted : startedOf l' = startedOf l) : Flow es (s.goto i l') :=
  h.keep rfl rfl rfl (filterMap_set_of_eq _ hi hjob) (filterMap_set_of_eq _ hi hstarted)

/-- An event that is none of these. -/
theorem Flow.skip (h : Flow es s) {e : Event} (hsent : sentOf e = none) (htaken : takenOf e = none)
    (hdequeued : dequeuedOf e = none) (hexecute : executeOf e = none)
    (hresult : resultOfEvent e = none) : Flow (es ++ [e]) s where
  calls := by simpa [hsent] using h.calls
  fifo := by simpa [hsent, htaken] using h.fifo
  parted := by simpa [htaken, hdequeued, hresult] using h.parted
  started := by simpa [hexecute, hresult] using h.started

theorem Flow.start (n : ℕ) : Flow [] (start n) where
  calls := .refl _
  fifo := rfl
  parted := by simp [executing, Runner.start, Dispatcher.Start, jobOf, takes, finished, results,
    dequeues]
  started := by simp [Runner.start, Dispatcher.Start, startedOf, executions, finished, results]

theorem Flow.submit (h : Flow es s) (request : ExecutionRequest) (createdAt : Time)
    (priority : ℤ) : Flow es (s.submit request createdAt priority) where
  calls := by
    calc (s.submitting ++ [s.jobs.length]) ++ sends es
        _ |>.Perm ((s.submitting ++ sends es) ++ [s.jobs.length]) := by
          rw [List.append_assoc, List.append_assoc]
          exact List.perm_append_comm.append_left _
        _ |>.Perm (List.range s.jobs.length ++ [s.jobs.length]) := h.calls.append_right _
        _ |>.Perm (List.range (s.submit request createdAt priority).jobs.length) := by
          rw [State.submit, List.length_append, List.length_singleton, List.range_succ]
  fifo := h.fifo
  parted := h.parted
  started := h.started

theorem Flow.send (h : Flow es s) {job : ℕ} {q : Chan ℕ} (hjob : job ∈ s.submitting)
    (hq : q.buf = s.d.jobQueue.buf ++ [job]) :
    Flow (es ++ [.sent job]) { s.withQueue q with submitting := s.submitting.erase job } where
  calls := by
    calc s.submitting.erase job ++ sends (es ++ [.sent job])
        _ |>.Perm ((job :: s.submitting.erase job) ++ sends es) := by
          rw [sends_concat, ← List.append_assoc]
          exact List.perm_append_singleton _ _
        _ |>.Perm (s.submitting ++ sends es) := (List.perm_cons_erase hjob).symm.append_right _
        _ |>.Perm (List.range s.jobs.length) := h.calls
  fifo := by
    calc takes (es ++ [.sent job]) ++ q.buf
        _ = (takes es ++ s.d.jobQueue.buf) ++ [job] := by
          rw [hq, takes_concat, List.append_assoc, List.append_assoc]
          rfl
        _ = sends es ++ [job] := by rw [h.fifo]
        _ = sends (es ++ [Event.sent job]) := (sends_concat es (.sent job)).symm
  parted := by simpa [executing, takenOf, dequeuedOf, resultOfEvent] using h.parted
  started := by simpa [executeOf, resultOfEvent] using h.started

/-- The job at the head of the queue is taken. -/
theorem fifo_of_take (h : Flow es s) {job : ℕ} {q : Chan ℕ} (hq : s.d.jobQueue.buf = job :: q.buf)
    {e : Event} (htake : takenOf e = some job) (hsend : sentOf e = none) :
    takes (es ++ [e]) ++ q.buf = sends (es ++ [e]) := by
  calc takes (es ++ [e]) ++ q.buf
      _ = takes es ++ s.d.jobQueue.buf := by
        rw [takes_concat, htake, hq, List.append_assoc]
        rfl
      _ = sends es := h.fifo
      _ = sends (es ++ [e]) := by
        rw [sends_concat, hsend]
        exact (List.append_nil _).symm

theorem Flow.dequeue (h : Flow es s) {job : ℕ} {q : Chan ℕ}
    (hq : s.d.jobQueue.buf = job :: q.buf) : Flow (es ++ [.dequeued job]) (s.withQueue q) where
  calls := by simpa [sentOf] using h.calls
  fifo := fifo_of_take h hq rfl rfl
  parted := by
    simpa [executing, takenOf, dequeuedOf, resultOfEvent] using h.parted.append_right [job]
  started := by simpa [executeOf, resultOfEvent] using h.started

theorem Flow.take (h : Flow es s) {i job : ℕ} {q : Chan ℕ} (hi : s.loops[i]? = some .select)
    (hq : s.d.jobQueue.buf = job :: q.buf) :
    Flow (es ++ [.received i job]) ((s.withQueue q).goto i (.received job)) where
  calls := by simpa [sentOf] using h.calls
  fifo := fifo_of_take h hq rfl rfl
  parted := by
    have hjob : (executing ((s.withQueue q).goto i (.received job))).Perm (job :: executing s) :=
      perm_filterMap_set jobOf hi (.received job)
    simp only [takes_concat, finished_concat, dequeues_concat, takenOf, dequeuedOf, resultOfEvent,
      Option.map_none, Option.toList_none, Option.toList_some, List.append_nil]
    exact perm_grow h.parted hjob
  started := by
    have hstarted := filterMap_set_of_eq startedOf hi (y := .received job) rfl
    simpa [executeOf, resultOfEvent, hstarted] using h.started

theorem Flow.execute (h : Flow es s) {i job : ℕ} (hi : s.loops[i]? = some (.received job)) :
    Flow (es ++ [.execute i job]) ((s.withWorker i Worker.begin).goto i (.executing job)) where
  calls := by simpa [sentOf] using h.calls
  fifo := by simpa [sentOf, takenOf] using h.fifo
  parted := by
    have hjob := filterMap_set_of_eq jobOf hi (y := .executing job) rfl
    simpa [executing, takenOf, dequeuedOf, resultOfEvent, hjob] using h.parted
  started := by
    have hstarted : ((s.loops.set i (.executing job)).filterMap startedOf).Perm
        (job :: s.loops.filterMap startedOf) := perm_filterMap_set startedOf hi (.executing job)
    simp only [executions_concat, finished_concat, executeOf, resultOfEvent, Option.map_none,
      Option.toList_none, Option.toList_some, List.append_nil]
    exact perm_grow h.started hstarted

theorem Flow.result (h : Flow es s) {i job : ℕ} {r : ExecutionResult}
    (hi : s.loops[i]? = some (.sending job r)) (chans : List (Chan ExecutionResult)) :
    Flow (es ++ [.result job r]) ({ s with chans := chans }.goto i (.sent job)) where
  calls := by simpa [sentOf] using h.calls
  fifo := by simpa [sentOf, takenOf] using h.fifo
  parted := by
    have hjob : (job :: (s.loops.set i (.sent job)).filterMap jobOf).Perm (executing s) :=
      perm_filterMap_set jobOf hi (.sent job)
    have hmove := perm_move h.parted hjob
    simp only [takes_concat, finished_concat, dequeues_concat, takenOf, dequeuedOf, resultOfEvent,
      Option.map_some, Option.toList_none, Option.toList_some, List.append_nil]
    refine hmove.trans (.append_left _ ?_)
    rw [List.append_assoc, List.append_assoc]
    exact List.perm_append_comm.append_left _
  started := by
    have hstarted := perm_move h.started (perm_filterMap_set startedOf hi (.sent job))
    simpa [executeOf, resultOfEvent] using hstarted

/-- Every move keeps the jobs accounted for. -/
theorem Flow.move (h : Flow es s) {s' : State} {new : List Event} (hm : Move s s' new) :
    Flow (es ++ new) s' := by
  have silent : Flow es s' → Flow (es ++ []) s' := fun h' => (List.append_nil es).symm ▸ h'
  cases hm with
  | send hjob hq => exact h.send hjob (Chan.buf_of_send hq)
  | receive hc hr => exact (h.skip rfl rfl rfl rfl rfl).keep rfl rfl rfl rfl rfl
  | dequeue hq => exact h.dequeue (Chan.buf_of_recv hq)
  | take hi hq => exact h.take hi (Chan.buf_of_recv hq)
  | execute hi => exact h.execute hi
  | executed out elapsed now hi hj => exact (h.skip rfl rfl rfl rfl rfl).goto _ hi rfl rfl
  | result hi hj hc hs => exact h.result hi _
  | finish hi => exact silent ((h.goto .select hi rfl rfl).keep rfl rfl rfl rfl rfl)
  | seeStop hi hstop => exact silent (h.goto _ hi rfl rfl)
  | exit hi => exact silent ((h.goto .exited hi rfl rfl).keep rfl rfl rfl rfl rfl)
  | callStop => exact silent (h.keep rfl rfl rfl rfl rfl)
  | close hk honce => exact silent (h.keep rfl rfl rfl rfl rfl)
  | returned hk honce => exact silent (h.keep rfl rfl rfl rfl rfl)
  | waited hk hwg => exact silent (h.keep rfl rfl rfl rfl rfl)
  | record results heartbeats => exact silent (h.keep rfl rfl rfl rfl rfl)

end

/-- **In every run the jobs are accounted for.** -/
theorem flow {n : ℕ} {es : List Event} {s : State} (h : Reaches runner (start n) es s) :
    Flow es s :=
  keeps_of_moves (.start n) (fun _ _ _ _ _ h => h.submit _ _ _) (fun _ _ _ _ h hm => h.move hm) h

end CodeHive.Orchestrator.JobFlow
