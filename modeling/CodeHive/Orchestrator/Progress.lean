import CodeHive.Concurrency.Settling
import CodeHive.Orchestrator.Conservation

/-! # The dispatcher comes to rest

With no new calls, each step of the worker loops, of the calls of `Submit` and `Stop` that are under
way, and of the holders of result channels uses up some work. Where none of these steps is left, the
queue is empty and every loop at its `select`; or, after a `Stop`, every loop and every `Stop` has
ended, and only calls of `Submit` that find the queue full are blocked. All this provided that every
call of `Execute` returns: `executeCommand` sets no `WaitDelay`, so `c.Run()` waits as long as any
descendant of the program holds its output.

Main results: `never_deadlocks` and `none_half_done`. -/

namespace CodeHive.Orchestrator.Progress

set_option autoImplicit false

open CodeHive.Concurrency.Interleaving CodeHive.Concurrency.Settling CodeHive.Go.Sync
open CodeHive.Lists.Slots
open CodeHive.Orchestrator.Types CodeHive.Orchestrator.Runner CodeHive.Orchestrator.JobFlow
open CodeHive.Orchestrator.Outcomes CodeHive.Orchestrator.Stopping CodeHive.Orchestrator.Conservation

/-! ### The work that is left -/

/-- The steps of goroutines that have been started. The return of `Execute` is one of them, by
assumption. -/
def own : Label → Prop
  | .send _ | .receive _ | .loop _ _ | .stop _ => True
  | _ => False

/-- How many steps a worker loop makes at most before it takes a job, and one for its result. -/
def loopWork : Loop → ℕ
  | .received _ => 7
  | .executing _ => 6
  | .sending _ _ => 5
  | .sent _ => 3
  | .select => 2
  | .stopping => 1
  | .exited => 0

def stopWork : Stopper → ℕ
  | .calling => 2
  | .waiting => 1
  | .returned => 0

/-- **The work that is left**: a job is sent, taken, and its result received. -/
def work (s : State) : ℕ :=
  7 * s.submitting.length + 6 * s.d.jobQueue.buf.length + (s.loops.map loopWork).sum +
    (s.chans.map fun c => c.buf.length).sum + (s.stops.map stopWork).sum

section
variable {s s' : State} {new : List Event}

theorem work_send {job : ℕ} (h : s.send job = some s') : work s' < work s := by
  unfold State.send at h
  split at h
  · next hjob =>
    obtain ⟨q, hq, h⟩ := Option.bind_eq_some_iff.mp h
    cases h
    have hlen := List.length_erase_of_mem hjob
    have hpos := List.length_pos_of_mem hjob
    have hbuf := congrArg List.length (Chan.buf_of_send hq)
    simp only [List.length_append, List.length_singleton] at hbuf
    simp only [work, State.withQueue_d_jobQueue, State.withQueue_chans, State.withQueue_loops,
      State.withQueue_stops, hlen, hbuf]
    omega
  · cases h

theorem work_receive {chan : ℕ} {r : ExecutionResult} (h : s.receive chan = some (r, s')) :
    work s' < work s := by
  obtain ⟨c, hc, h⟩ := Option.bind_eq_some_iff.mp h
  obtain ⟨⟨r', c'⟩, hr, h⟩ := Option.bind_eq_some_iff.mp h
  cases h
  have hbuf := congrArg List.length (Chan.buf_of_recv hr)
  have hsum := sum_map_set (fun c : Chan ExecutionResult => c.buf.length) hc c'
  simp only [List.length_cons] at hbuf
  simp only [work]
  omega

/-- A worker loop goes on; the queue and the channels may have changed. -/
theorem work_goto {i : ℕ} {l l' : Loop} (hi : s.loops[i]? = some l) (s₁ : State)
    (hsub : s₁.submitting = s.submitting) (hloops : s₁.loops = s.loops) (hstops : s₁.stops = s.stops)
    (hless : 6 * s₁.d.jobQueue.buf.length + (s₁.chans.map fun c => c.buf.length).sum + loopWork l' <
      6 * s.d.jobQueue.buf.length + (s.chans.map fun c => c.buf.length).sum + loopWork l) :
    work (s₁.goto i l') < work s := by
  have hsum := sum_map_set loopWork hi l'
  simp only [work, State.goto_d, State.goto_chans, State.goto_stops, State.goto_submitting,
    State.goto_loops, hsub, hloops, hstops]
  omega

theorem work_loop {i : ℕ} {step : LoopStep} (h : s.workerLoop i step = some (s', new)) :
    work s' < work s := by
  obtain ⟨l, hi, h⟩ := Option.bind_eq_some_iff.mp h
  split at h
  case h_1 =>
    split at h
    · cases h
      exact work_goto hi s rfl rfl rfl (by simp [loopWork])
    · cases h
  case h_2 =>
    obtain ⟨⟨job, q⟩, hq, h⟩ := Option.bind_eq_some_iff.mp h
    cases h
    have hbuf := congrArg List.length (Chan.buf_of_recv hq)
    simp only [List.length_cons] at hbuf
    refine work_goto hi (s.withQueue q) rfl rfl rfl ?_
    simp only [State.withQueue_d_jobQueue, State.withQueue_chans, loopWork, hbuf]
    omega
  case h_3 =>
    cases h
    exact work_goto hi (s.withWorker i Worker.begin) rfl rfl rfl (by simp [loopWork])
  case h_4 =>
    obtain ⟨j, hj, h⟩ := Option.bind_eq_some_iff.mp h
    cases h
    exact work_goto hi s rfl rfl rfl (by simp [loopWork])
  case h_5 job r _ =>
    obtain ⟨⟨s₁, es₁⟩, h₁, h⟩ := Option.bind_eq_some_iff.mp h
    obtain ⟨j, hj, h₁⟩ := Option.bind_eq_some_iff.mp h₁
    obtain ⟨c, hc, h₁⟩ := Option.bind_eq_some_iff.mp h₁
    obtain ⟨c', hs, h₁⟩ := Option.bind_eq_some_iff.mp h₁
    cases h₁
    cases h
    -- the result in the channel is one more step, of its receiver
    have hbuf := congrArg List.length (Chan.buf_of_send hs)
    have hsum := sum_map_set (fun c : Chan ExecutionResult => c.buf.length) hc c'
    simp only [List.length_append, List.length_singleton] at hbuf
    refine work_goto hi { s with chans := s.chans.set j.ResultCh c' } rfl rfl rfl ?_
    simp only [loopWork]
    omega
  case h_6 =>
    cases h
    exact work_goto hi (s.withWorker i Worker.finish) rfl rfl rfl (by simp [loopWork])
  case h_7 =>
    cases h
    exact work_goto hi { s with d := { s.d with wg := s.d.wg - 1 } } rfl rfl rfl
      (by simp [loopWork])
  case h_8 => cases h

theorem work_stop {k : ℕ} (h : s.stop k = some s') : work s' < work s := by
  obtain ⟨x, hk, h⟩ := Option.bind_eq_some_iff.mp h
  split at h
  · cases h
    have hsum := sum_map_set stopWork hk .waiting
    simp only [stopWork] at hsum
    simp only [work]
    omega
  · cases h
    have hsum := sum_map_set stopWork hk .returned
    simp only [stopWork] at hsum
    simp only [work]
    omega
  · split at h
    · cases h
      have hsum := sum_map_set stopWork hk .returned
      simp only [stopWork] at hsum
      simp only [work]
      omega
    · cases h
  · cases h

/-- **Every own step uses up work.** -/
theorem work_step {l : Label} (hl : own l) (h : runner.step s l = some (s', new)) :
    work s' < work s := by
  cases l with
  | send job =>
    obtain ⟨s₁, h₁, h⟩ := Option.map_eq_some_iff.mp h
    cases h
    exact work_send h₁
  | receive chan =>
    obtain ⟨⟨r, s₁⟩, h₁, h⟩ := Option.map_eq_some_iff.mp h
    cases h
    exact work_receive h₁
  | loop i step => exact work_loop h
  | stop k =>
    obtain ⟨s₁, h₁, h⟩ := Option.map_eq_some_iff.mp h
    cases h
    exact work_stop h₁
  | _ => cases hl

/-- What a worker loop leaves to the others. -/
structure Private (s s' : State) (new : List Event) : Prop where
  submitting : s'.submitting = s.submitting
  stops : s'.stops = s.stops
  stopCh : s'.d.stopCh = s.d.stopCh
  delivered : ∀ c r, .delivered c r ∉ new
  dequeued : ∀ job, .dequeued job ∉ new

theorem loop_private {i : ℕ} {step : LoopStep} (h : s.workerLoop i step = some (s', new)) :
    Private s s' new := by
  obtain ⟨l, hi, h⟩ := Option.bind_eq_some_iff.mp h
  split at h
  case h_1 =>
    split at h
    · cases h
      exact ⟨rfl, rfl, rfl, by simp, by simp⟩
    · cases h
  case h_2 =>
    obtain ⟨⟨job, q⟩, hq, h⟩ := Option.bind_eq_some_iff.mp h
    cases h
    exact ⟨rfl, rfl, rfl, by simp, by simp⟩
  case h_4 =>
    obtain ⟨j, hj, h⟩ := Option.bind_eq_some_iff.mp h
    cases h
    exact ⟨rfl, rfl, rfl, by simp, by simp⟩
  case h_5 =>
    obtain ⟨⟨s₁, es₁⟩, h₁, h⟩ := Option.bind_eq_some_iff.mp h
    obtain ⟨j, hj, h₁⟩ := Option.bind_eq_some_iff.mp h₁
    obtain ⟨c, hc, h₁⟩ := Option.bind_eq_some_iff.mp h₁
    obtain ⟨c', hs, h₁⟩ := Option.bind_eq_some_iff.mp h₁
    cases h₁
    cases h
    exact ⟨rfl, rfl, rfl, by simp, by simp⟩
  case h_8 => cases h
  all_goals
    cases h
    exact ⟨rfl, rfl, rfl, by simp, by simp⟩

/-- `Stop` leaves the calls of `Submit` alone. -/
theorem stop_private {k : ℕ} (h : s.stop k = some s') :
    s'.submitting = s.submitting ∧ s'.stops.length = s.stops.length := by
  obtain ⟨x, hk, h⟩ := Option.bind_eq_some_iff.mp h
  split at h
  · cases h; exact ⟨rfl, List.length_set⟩
  · cases h; exact ⟨rfl, List.length_set⟩
  · split at h
    · cases h; exact ⟨rfl, List.length_set⟩
    · cases h
  · cases h

end

/-! ### What the goroutines know of each other -/

/-- **How `stopCh`, `stopOnce`, the calls of `Stop` and the loops agree, and how much the channels
hold.** -/
structure Wired (s : State) : Prop where
  stopCh : s.d.stopOnce ≠ .fresh ↔ s.d.stopCh = true
  waiting : ∀ k : ℕ, s.stops[k]? = some .waiting → s.d.stopOnce ≠ .fresh
  running : s.d.stopOnce = .running → ∃ k : ℕ, s.stops[k]? = some .waiting
  /-- A loop leaves its `select` for good only where `stopCh` is closed. -/
  leaving : ∀ (i : ℕ) (l : Loop), s.loops[i]? = some l → l = .stopping ∨ l = .exited →
    s.d.stopCh = true
  queue : s.d.jobQueue.cap = 1000
  chans : ∀ (k : ℕ) (c : Chan ExecutionResult), s.chans[k]? = some c → c.cap = 1

section
variable {s s' : State} {new : List Event}

theorem Wired.start (n : ℕ) : Wired (start n) where
  stopCh := iff_of_false (fun h => h rfl) (by simp [Runner.start, Dispatcher.Start, NewDispatcher])
  waiting _ h := by cases h
  running h := by cases h
  leaving i l hi hl := by
    have hmem := List.mem_of_getElem? hi
    rw [Runner.start, Dispatcher.Start, List.mem_replicate] at hmem
    rcases hl with rfl | rfl <;> cases hmem.2
  queue := rfl
  chans _ _ h := by cases h

/-- A move that is none of `Stop`, and ends no loop. -/
theorem Wired.keep (h : Wired s) (hstop : s'.d.stopCh = s.d.stopCh)
    (honce : s'.d.stopOnce = s.d.stopOnce) (hstops : s'.stops = s.stops)
    (hqueue : s'.d.jobQueue.cap = s.d.jobQueue.cap)
    (hloops : ∀ (i : ℕ) (l : Loop), s'.loops[i]? = some l → l = .stopping ∨ l = .exited →
      s.d.stopCh = true)
    (hchans : ∀ (k : ℕ) (c : Chan ExecutionResult), s'.chans[k]? = some c → c.cap = 1) :
    Wired s' where
  stopCh := by rw [hstop, honce]; exact h.stopCh
  waiting := by rw [hstops, honce]; exact h.waiting
  running := by rw [hstops, honce]; exact h.running
  leaving i l hi hl := by rw [hstop]; exact hloops i l hi hl
  queue := by rw [hqueue]; exact h.queue
  chans := hchans

/-- A worker loop goes on, to a place where it has not seen `stopCh` closed. -/
theorem Wired.goto (h : Wired s) {i : ℕ} {l' : Loop} (hl' : l' ≠ .stopping ∧ l' ≠ .exited) (k : ℕ)
    (l : Loop) (hk : (s.loops.set i l')[k]? = some l) (hl : l = .stopping ∨ l = .exited) :
    s.d.stopCh = true := by
  rcases getElem?_set_cases hk with ⟨-, hk⟩ | ⟨-, rfl⟩
  · exact h.leaving k l hk hl
  · rcases hl with rfl | rfl
    · exact absurd rfl hl'.1
    · exact absurd rfl hl'.2

/-- A channel is replaced by one that holds as much. -/
theorem Wired.set_chans (h : Wired s) {k : ℕ} {c c' : Chan ExecutionResult}
    (hc : s.chans[k]? = some c) (hcap : c'.cap = c.cap) (j : ℕ) (x : Chan ExecutionResult)
    (hx : (s.chans.set k c')[j]? = some x) : x.cap = 1 := by
  rcases getElem?_set_cases hx with ⟨-, hx⟩ | ⟨-, rfl⟩
  · exact h.chans j x hx
  · exact hcap.trans (h.chans k c hc)

theorem Wired.submit (h : Wired s) (request : ExecutionRequest) (createdAt : Time)
    (priority : ℤ) : Wired (s.submit request createdAt priority) := by
  refine h.keep rfl rfl rfl rfl h.leaving fun k c hc => ?_
  rcases getElem?_concat_cases hc with hc | ⟨-, rfl⟩
  · exact h.chans k c hc
  · rfl

theorem Wired.move (h : Wired s) (hm : Move s s' new) : Wired s' := by
  cases hm with
  | send hjob hq => exact h.keep rfl rfl rfl (Chan.cap_of_send hq) h.leaving h.chans
  | receive hc hr =>
    exact h.keep rfl rfl rfl rfl h.leaving (h.set_chans hc (Chan.cap_of_recv hr))
  | dequeue hq => exact h.keep rfl rfl rfl (Chan.cap_of_recv hq) h.leaving h.chans
  | take hi hq =>
    exact h.keep rfl rfl rfl (Chan.cap_of_recv hq) (h.goto (by simp)) h.chans
  | execute hi => exact h.keep rfl rfl rfl rfl (h.goto (by simp)) h.chans
  | executed out elapsed now hi hj => exact h.keep rfl rfl rfl rfl (h.goto (by simp)) h.chans
  | result hi hj hc hs =>
    exact h.keep rfl rfl rfl rfl (h.goto (by simp)) (h.set_chans hc (Chan.cap_of_send hs))
  | finish hi => exact h.keep rfl rfl rfl rfl (h.goto (by simp)) h.chans
  | seeStop hi hstop => exact h.keep rfl rfl rfl rfl (fun _ _ _ _ => hstop) h.chans
  | exit hi =>
    have hstop := h.leaving _ _ hi (Or.inl rfl)
    exact h.keep rfl rfl rfl rfl (fun _ _ _ _ => hstop) h.chans
  | callStop =>
    refine ⟨h.stopCh, fun k hk => ?_, fun honce => ?_, h.leaving, h.queue, h.chans⟩
    · rcases getElem?_concat_cases hk with hk | ⟨-, hk⟩
      · exact h.waiting k hk
      · cases hk
    · obtain ⟨k, hk⟩ := h.running honce
      exact ⟨k, (List.getElem?_append_left (List.getElem?_eq_some_iff.mp hk).1).trans hk⟩
  | @close k hk honce =>
    refine ⟨iff_of_true (by simp) rfl, fun _ _ => by simp, fun _ => ⟨k, ?_⟩, fun _ _ _ _ => rfl,
      h.queue, h.chans⟩
    exact List.getElem?_set_self (List.getElem?_eq_some_iff.mp hk).1
  | returned hk honce =>
    have hne : s.d.stopOnce ≠ .fresh := by rw [honce]; simp
    refine ⟨h.stopCh, fun _ _ => hne, fun hrun => ?_, h.leaving, h.queue, h.chans⟩
    rw [honce] at hrun
    cases hrun
  | waited hk hwg =>
    have hstop := h.stopCh.mp (h.waiting _ hk)
    exact ⟨iff_of_true (by simp) hstop, fun _ _ => by simp, fun hrun => (by cases hrun), h.leaving,
      h.queue, h.chans⟩
  | record results heartbeats => exact h.keep rfl rfl rfl rfl h.leaving h.chans

end

theorem wired {n : ℕ} {es : List Event} {s : State} (h : Reaches runner (start n) es s) : Wired s :=
  keeps_of_moves (I := fun _ s => Wired s) (.start n) (fun _ _ _ _ _ h => h.submit _ _ _)
    (fun _ _ _ _ h hm => h.move hm) h

/-- There are as many loops as were started. -/
theorem length_loops {n : ℕ} {es : List Event} {s : State} (h : Reaches runner (start n) es s) :
    s.loops.length = n := by
  refine keeps_of_moves (I := fun _ s => s.loops.length = n) ?_ (fun _ _ _ _ _ h => h)
    (fun _ s s' new h hm => ?_) h
  · simp [Runner.start, Dispatcher.Start, NewDispatcher]
  · rw [← h]
    cases hm <;> simp

/-! ### Where nothing is left to do -/

section
variable {n : ℕ} {es : List Event} {s : State}

/-- The jobs with worker loops are jobs, and no result was sent for them. -/
theorem pending (hflow : Flow es s) (hset : Settled es s) {job : ℕ} (hjob : job ∈ executing s) :
    (∃ j, s.jobs[job]? = some j) ∧ content s.chans job = [] := by
  have htaken : job ∈ takes es := hflow.parted.mem_iff.mpr (List.mem_append_left _ hjob)
  have hsent : job ∈ sends es := by
    rw [← hflow.fifo]
    exact List.mem_append_left _ htaken
  have hlt : job < s.jobs.length :=
    List.mem_range.mp (hflow.calls.mem_iff.mp (List.mem_append_right _ hsent))
  refine ⟨⟨_, List.getElem?_eq_getElem hlt⟩, ?_⟩
  have hone := count_le_one hflow job
  have hpos := List.count_pos_iff.mpr hjob
  have hnone : resultsFor job es = [] := by
    refine List.eq_nil_of_length_eq_zero ?_
    rw [length_resultsFor]
    omega
  have hbuf := hset.buffered job
  rw [hnone] at hbuf
  exact (List.append_eq_nil_iff.mp hbuf.symm).2

/-- The result channel of a job that is executed has room. -/
theorem sendResult_enabled (hr : Reaches runner (start n) es s) {i job : ℕ} {r : ExecutionResult}
    (hi : s.loops[i]? = some (.sending job r)) : (s.sendResult job r).isSome := by
  have hset := settled hr
  have hjob : job ∈ executing s := mem_filterMap_of_getElem? jobOf hi rfl
  obtain ⟨⟨j, hj⟩, hcontent⟩ := pending (flow hr) hset hjob
  have hlt : job < s.chans.length := by
    rw [hset.chans]
    exact (List.getElem?_eq_some_iff.mp hj).1
  have hc := List.getElem?_eq_getElem hlt
  have hbuf : s.chans[job].buf = [] := by simpa [content, hc] using hcontent
  have hroom : s.chans[job].send r ≠ none := fun hfull => by
    have hlen := Chan.send_eq_none.mp hfull
    rw [hbuf, (wired hr).chans job _ hc] at hlen
    cases hlen
  obtain ⟨c', hc'⟩ := Option.ne_none_iff_exists'.mp hroom
  unfold State.sendResult
  rw [hj, Option.bind_eq_bind, Option.bind_some, hset.own job j hj, hc]
  simp [hc']

/-- **A loop rests at its `select`, with nothing to choose from, or has ended.** -/
theorem loop_at_rest (hr : Reaches runner (start n) es s) (hrest : Rests runner own s) {i : ℕ}
    {l : Loop} (hi : s.loops[i]? = some l) :
    (l = .select ∧ s.d.stopCh = false ∧ s.d.jobQueue.buf = []) ∨ l = .exited := by
  have hstuck : ∀ step, s.workerLoop i step = none := fun step => hrest (.loop i step) trivial
  unfold State.workerLoop at hstuck
  rw [hi] at hstuck
  cases l with
  | select =>
    refine Or.inl ⟨rfl, ?_, ?_⟩
    · have hstop := hstuck .stopCh
      by_contra hne
      simp [hne] at hstop
    · have hqueue := hstuck .jobQueue
      refine Chan.recv_eq_none.mp ?_
      cases hq : s.d.jobQueue.recv with
      | none => rfl
      | some x => simp [hq] at hqueue
  | received job => cases hstuck .next
  | executing job =>
    have hjob : job ∈ executing s := mem_filterMap_of_getElem? jobOf hi rfl
    obtain ⟨⟨j, hj⟩, -⟩ := pending (flow hr) (settled hr) hjob
    have hreturn := hstuck (.returned (output "") 0 0)
    simp [hj] at hreturn
  | sending job r =>
    obtain ⟨x, hx⟩ := Option.isSome_iff_exists.mp (sendResult_enabled hr hi)
    have hnext := hstuck .next
    simp [hx] at hnext
  | sent job => cases hstuck .next
  | stopping => cases hstuck .next
  | exited => exact Or.inr rfl

/-- Where `stopCh` is closed, all loops have ended. -/
theorem alive_at_rest (hr : Reaches runner (start n) es s) (hrest : Rests runner own s)
    (hstop : s.d.stopCh = true) : alive s = [] := by
  refine List.filterMap_eq_nil_iff.mpr fun l hl => ?_
  obtain ⟨i, hi⟩ := List.mem_iff_getElem?.mp hl
  rcases loop_at_rest hr hrest hi with ⟨-, hopen, -⟩ | rfl
  · rw [hstop] at hopen
    cases hopen
  · rfl

/-- **Every call of `Stop` has returned.** -/
theorem stop_at_rest (hr : Reaches runner (start n) es s) (hrest : Rests runner own s) {k : ℕ}
    {x : Stopper} (hk : s.stops[k]? = some x) : x = .returned := by
  have hwired := wired hr
  have hstuck : ∀ k, s.stop k = none := fun k => Option.map_eq_none_iff.mp (hrest (.stop k) trivial)
  have hnone : ∀ k : ℕ, s.stops[k]? ≠ some .waiting := by
    intro k hk
    have hwg : s.d.wg = 0 := by
      rw [(halting hr).wg, alive_at_rest hr hrest (hwired.stopCh.mp (hwired.waiting k hk))]
      rfl
    have hstep := hstuck k
    unfold State.stop at hstep
    simp [hk, hwg] at hstep
  cases x with
  | waiting => exact absurd hk (hnone k)
  | returned => rfl
  | calling =>
    have hstep := hstuck k
    unfold State.stop at hstep
    rw [hk] at hstep
    cases honce : s.d.stopOnce with
    | fresh => simp [honce] at hstep
    | running =>
      obtain ⟨k', hk'⟩ := hwired.running honce
      exact absurd hk' (hnone k')
    | done => simp [honce] at hstep

/-- No result is left in a channel. -/
theorem content_at_rest (hrest : Rests runner own s) (chan : ℕ) : content s.chans chan = [] := by
  have hstep : s.receive chan = none := Option.map_eq_none_iff.mp (hrest (.receive chan) trivial)
  unfold content
  cases hc : s.chans[chan]? with
  | none => rfl
  | some c =>
    show c.buf = []
    refine Chan.recv_eq_none.mp ?_
    unfold State.receive at hstep
    cases hrecv : c.recv with
    | none => rfl
    | some x => simp [hc, hrecv] at hstep

/-- A call of `Submit` is blocked by a full queue only. -/
theorem submit_at_rest (hr : Reaches runner (start n) es s) (hrest : Rests runner own s) :
    s.submitting = [] ∨ s.d.jobQueue.buf.length = 1000 := by
  cases hsub : s.submitting with
  | nil => exact Or.inl rfl
  | cons job rest =>
    refine Or.inr ?_
    have hstep : s.send job = none := Option.map_eq_none_iff.mp (hrest (.send job) trivial)
    unfold State.send at hstep
    rw [if_pos (by rw [hsub]; exact List.mem_cons_self)] at hstep
    rw [← (wired hr).queue]
    refine (Chan.send_eq_none (x := job)).mp ?_
    cases hq : s.d.jobQueue.send job with
    | none => rfl
    | some q => simp [hq] at hstep

/-- **Where the dispatcher rests.** -/
structure Quiet (es : List Event) (s : State) : Prop where
  stops : ∀ (k : ℕ) (x : Stopper), s.stops[k]? = some x → x = .returned
  loops : ∀ (i : ℕ) (l : Loop), s.loops[i]? = some l →
    l = if s.d.stopCh then .exited else .select
  /-- Every result has been received. -/
  delivered : ∀ job r, .result job r ∈ es → .delivered job r ∈ es
  /-- With `stopCh` open, nothing waits to be sent or executed. -/
  idle : s.d.stopCh = false → s.submitting = [] ∧ s.d.jobQueue.buf = []
  /-- After a `Stop`, calls of `Submit` are blocked by a full queue only. -/
  blocked : s.submitting = [] ∨ s.d.jobQueue.buf.length = 1000

theorem quiet (hn : 1 ≤ n) (hr : Reaches runner (start n) es s) (hrest : Rests runner own s) :
    Quiet es s where
  stops _ _ := stop_at_rest hr hrest
  loops i l hi := by
    rcases loop_at_rest hr hrest hi with ⟨rfl, hopen, -⟩ | rfl
    · rw [hopen]
      rfl
    · rw [(wired hr).leaving i _ hi (Or.inr rfl)]
      rfl
  delivered job r hres := by
    have hset := settled hr
    have hbuf := hset.buffered job
    rw [content_at_rest hrest, List.append_nil] at hbuf
    exact mem_deliveries.mp (hbuf ▸ mem_resultsFor.mpr hres)
  idle hopen := by
    have hlt : 0 < s.loops.length := by
      rw [length_loops hr]
      exact hn
    have hbuf : s.d.jobQueue.buf = [] := by
      rcases loop_at_rest hr hrest (List.getElem?_eq_getElem hlt) with ⟨-, -, hbuf⟩ | hexit
      · exact hbuf
      · have hi := List.getElem?_eq_getElem hlt
        rw [hexit] at hi
        have hstop := (wired hr).leaving 0 _ hi (Or.inr rfl)
        rw [hopen] at hstop
        cases hstop
    rcases submit_at_rest hr hrest with hsub | hfull
    · exact ⟨hsub, hbuf⟩
    · rw [hbuf] at hfull
      cases hfull
  blocked := submit_at_rest hr hrest

end

/-- **The dispatcher never deadlocks** where every call of `Execute` returns: from every reachable
state, whatever the scheduler and the `select`s choose, the goroutines make at most `work s` steps
and then rest, with every `Stop` returned and nobody blocked but calls of `Submit` on the full queue
of a stopped dispatcher. -/
theorem never_deadlocks {n : ℕ} (hn : 1 ≤ n) {es : List Event} {s : State}
    (hr : Reaches runner (start n) es s) :
    Settles runner own s (work s) fun new s' => Quiet (es ++ new) s' :=
  settles (I := fun _ => True) (fun _ _ _ _ _ hl hs => ⟨trivial, work_step hl hs⟩) trivial
    fun _ _ _ hd hrest => quiet hn (hr.trans hd.reaches) hrest

/-- The dispatcher has executed one job and been stopped; a second job waits for ever. -/
def stopped : List Label :=
  [.submit (request "a") 0 0, .send 0] ++ execution 0 "1" ++
    [.loop 0 .next, .callStop, .stop 0, .submit (request "b") 0 0]

theorem never_deadlocks_stopped : ∃ es s, runner.run (start 1) stopped = some (s, es) ∧
    s.submitting = [1] ∧ Settles runner own s (work s) fun new s' => Quiet (es ++ new) s' := by
  have hrun : ∃ es s, runner.run (start 1) stopped = some (s, es) ∧ s.submitting = [1] :=
    ⟨_, _, rfl, rfl⟩
  obtain ⟨es, s, hs, hsub⟩ := hrun
  exact ⟨es, s, hs, hsub, never_deadlocks (Nat.le_refl 1) (reaches_of_run hs)⟩

/-! ### What has become of the jobs -/

/-- **Where the jobs have come to rest**: they are blocked at a full queue, left in it, executed with
their own result received once, or dequeued. -/
structure Parted (es : List Event) (s : State) : Prop where
  parted : (s.submitting ++ s.d.jobQueue.buf ++ finished es ++ dequeues es).Perm
    (List.range s.jobs.length)
  executed : ∀ job ∈ finished es, (executions es).count job = 1 ∧
    ∃ r, deliveries job es = [r] ∧ Outcome es s job r
  /-- With `stopCh` open, all that were not dequeued are executed. -/
  all : s.d.stopCh = false → (finished es ++ dequeues es).Perm (List.range s.jobs.length)

section
variable {n : ℕ} {es : List Event} {s : State}

/-- No loop that rests has a job. -/
theorem executing_at_rest (hr : Reaches runner (start n) es s) (hrest : Rests runner own s) :
    executing s = [] := by
  refine List.filterMap_eq_nil_iff.mpr fun l hl => ?_
  obtain ⟨i, hi⟩ := List.mem_iff_getElem?.mp hl
  rcases loop_at_rest hr hrest hi with ⟨rfl, -⟩ | rfl <;> rfl

theorem parted_at_rest (hn : 1 ≤ n) (hr : Reaches runner (start n) es s)
    (hrest : Rests runner own s) : Parted es s := by
  have hflow := flow hr
  have hset := settled hr
  have hnone := executing_at_rest hr hrest
  have hsent : (sends es).Perm (s.d.jobQueue.buf ++ finished es ++ dequeues es) := by
    have hall := accounted hflow
    rwa [hnone, List.append_nil] at hall
  have hparted : (s.submitting ++ s.d.jobQueue.buf ++ finished es ++ dequeues es).Perm
      (List.range s.jobs.length) := by
    calc s.submitting ++ s.d.jobQueue.buf ++ finished es ++ dequeues es
        _ |>.Perm (s.submitting ++ (s.d.jobQueue.buf ++ finished es ++ dequeues es)) :=
          .of_eq (by simp only [List.append_assoc])
        _ |>.Perm (s.submitting ++ sends es) := hsent.symm.append_left _
        _ |>.Perm (List.range s.jobs.length) := hflow.calls
  refine ⟨hparted, fun job hjob => ?_, fun hopen => ?_⟩
  · have hpos := List.count_pos_iff.mpr hjob
    have hone := count_le_one hflow job
    have hexec := count_executions hflow job
    have hzero : (executing s).count job = 0 := by rw [hnone]; rfl
    have hlen : (deliveries job es).length = 1 := by
      have hbuf := hset.buffered job
      rw [content_at_rest hrest, List.append_nil] at hbuf
      rw [← hbuf, length_resultsFor]
      omega
    obtain ⟨r, hr₁⟩ := List.length_eq_one_iff.mp hlen
    refine ⟨by omega, r, hr₁, hset.sent job r (mem_resultsFor.mp ?_)⟩
    rw [hset.buffered job, hr₁]
    exact List.mem_append_left _ (List.mem_singleton_self r)
  · obtain ⟨hsub, hbuf⟩ := (quiet hn hr hrest).idle hopen
    rwa [hsub, hbuf] at hparted

end

/-- **No job is left half done** where every call of `Execute` returns: from every reachable state the
goroutines come to rest where each job that was submitted is executed and its own result received, or
dequeued, or was never begun; and with `stopCh` open none is left that was never begun. -/
theorem none_half_done {n : ℕ} (hn : 1 ≤ n) {es : List Event} {s : State}
    (hr : Reaches runner (start n) es s) :
    Settles runner own s (work s) fun new s' => Parted (es ++ new) s' :=
  settles (I := fun _ => True) (fun _ _ _ _ _ hl hs => ⟨trivial, work_step hl hs⟩) trivial
    fun _ _ _ hd hrest => parted_at_rest hn (hr.trans hd.reaches) hrest

/-- Two jobs for one worker. -/
def waiting : List Label := [.submit (request "a") 0 0, .send 0, .submit (request "b") 0 0]

theorem none_half_done_waiting : ∃ es s, runner.run (start 1) waiting = some (s, es) ∧
    s.d.stopCh = false ∧ Settles runner own s (work s) fun new s' => Parted (es ++ new) s' := by
  have hrun : ∃ es s, runner.run (start 1) waiting = some (s, es) ∧ s.d.stopCh = false :=
    ⟨_, _, rfl, rfl⟩
  obtain ⟨es, s, hs, hopen⟩ := hrun
  exact ⟨es, s, hs, hopen, none_half_done (Nat.le_refl 1) (reaches_of_run hs)⟩

end CodeHive.Orchestrator.Progress
