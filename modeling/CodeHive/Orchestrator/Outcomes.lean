import CodeHive.Orchestrator.JobFlow

/-! # Results and their channels

A result that is sent is the outcome of executing the job it is sent for, and it goes to that job's
own channel; what is received from a channel was sent to it. -/

namespace CodeHive.Orchestrator.Outcomes

set_option autoImplicit false

open CodeHive.Concurrency.Interleaving CodeHive.Go.Sync CodeHive.Lists.Slots
open CodeHive.Orchestrator.Types CodeHive.Orchestrator.Runner CodeHive.Orchestrator.JobFlow

/-- `r` is what `executeJob` makes of an execution of job `job`. -/
def Outcome (es : List Event) (s : State) (job : ℕ) (r : ExecutionResult) : Prop :=
  ∃ j i out elapsed now, s.jobs[job]? = some j ∧ .executed i job out ∈ es ∧
    r = resultOf j.Request out elapsed now

def resultFor (job : ℕ) : Event → Option ExecutionResult
  | .result k r => if k = job then some r else none
  | _ => none

def deliveredFrom (chan : ℕ) : Event → Option ExecutionResult
  | .delivered k r => if k = chan then some r else none
  | _ => none

/-- The results sent for a job, and those received from a channel. -/
def resultsFor (job : ℕ) (es : List Event) : List ExecutionResult := es.filterMap (resultFor job)
def deliveries (chan : ℕ) (es : List Event) : List ExecutionResult :=
  es.filterMap (deliveredFrom chan)

/-- What is in the channel at an address. -/
def content (chans : List (Chan ExecutionResult)) (chan : ℕ) : List ExecutionResult :=
  ((chans[chan]?).map Chan.buf).getD []

/-- **Where the results are.** -/
structure Settled (es : List Event) (s : State) : Prop where
  chans : s.chans.length = s.jobs.length
  /-- The result channel of a job is its own. -/
  own : ∀ (job : ℕ) (j : Job), s.jobs[job]? = some j → j.ResultCh = job
  sending : ∀ (i job : ℕ) r, s.loops[i]? = some (.sending job r) → Outcome es s job r
  sent : ∀ job r, .result job r ∈ es → Outcome es s job r
  buffered : ∀ job, resultsFor job es = deliveries job es ++ content s.chans job

section
variable {es : List Event} {s s' : State}

theorem mem_deliveries {chan : ℕ} {r : ExecutionResult} :
    r ∈ deliveries chan es ↔ .delivered chan r ∈ es :=
  mem_filterMap_iff fun e r => by cases e <;> simp [deliveredFrom]

theorem mem_resultsFor {job : ℕ} {r : ExecutionResult} :
    r ∈ resultsFor job es ↔ .result job r ∈ es :=
  mem_filterMap_iff fun e r => by cases e <;> simp [resultFor]

theorem Outcome.mono {job : ℕ} {r : ExecutionResult} (h : Outcome es s job r) {new : List Event}
    (hjobs : s.jobs <+: s'.jobs) : Outcome (es ++ new) s' job r := by
  obtain ⟨j, i, out, elapsed, now, hj, he, rfl⟩ := h
  obtain ⟨l, hl⟩ := hjobs
  refine ⟨j, i, out, elapsed, now, ?_, List.mem_append_left _ he, rfl⟩
  rw [← hl, List.getElem?_append_left (List.getElem?_eq_some_iff.mp hj).1]
  exact hj

theorem content_set {chans : List (Chan ExecutionResult)} {k : ℕ} {c c' : Chan ExecutionResult}
    (hc : chans[k]? = some c) (job : ℕ) :
    content (chans.set k c') job = if k = job then c'.buf else content chans job := by
  unfold content
  rw [List.getElem?_set]
  split
  · next h => subst h; rw [if_pos (List.getElem?_eq_some_iff.mp hc).1]; rfl
  · rfl

theorem content_concat_make (chans : List (Chan ExecutionResult)) (cap job : ℕ) :
    content (chans ++ [.make cap]) job = content chans job := by
  unfold content
  rcases Nat.lt_trichotomy job chans.length with h | h | h
  · rw [List.getElem?_append_left h]
  · rw [h, List.getElem?_concat_length, List.getElem?_eq_none (Nat.le_refl _)]
    rfl
  · rw [List.getElem?_eq_none (by simp; omega), List.getElem?_eq_none (Nat.le_of_lt h)]

theorem Settled.start (n : ℕ) : Settled [] (start n) where
  chans := rfl
  own _ _ h := by cases h
  sending i job r h := by
    have hl := List.mem_of_getElem? h
    rw [Runner.start, Dispatcher.Start, List.mem_replicate] at hl
    cases hl.2
  sent _ _ h := by cases h
  buffered _ := rfl

/-- A move that touches neither jobs nor channels, and puts no worker loop before sending. -/
theorem Settled.keep (h : Settled es s) (hjobs : s'.jobs = s.jobs) (hchans : s'.chans = s.chans)
    (hloops : ∀ (i job : ℕ) r, s'.loops[i]? = some (.sending job r) →
      s.loops[i]? = some (.sending job r)) : Settled es s' where
  chans := by rw [hjobs, hchans]; exact h.chans
  own := by rw [hjobs]; exact h.own
  sending i job r hi := by
    obtain ⟨j, w, out, elapsed, now, hj, he⟩ := h.sending i job r (hloops i job r hi)
    exact ⟨j, w, out, elapsed, now, hjobs ▸ hj, he⟩
  sent job r hr := by
    obtain ⟨j, w, out, elapsed, now, hj, he⟩ := h.sent job r hr
    exact ⟨j, w, out, elapsed, now, hjobs ▸ hj, he⟩
  buffered := by rw [hchans]; exact h.buffered

/-- A worker loop goes on, to a place before no send. -/
theorem Settled.goto (h : Settled es s) (i : ℕ) {l : Loop} (hl : ∀ job r, l ≠ .sending job r) :
    Settled es (s.goto i l) := by
  refine h.keep rfl rfl fun k job r hk => ?_
  rcases getElem?_set_cases hk with ⟨-, hk⟩ | ⟨-, hk⟩
  · exact hk
  · exact absurd hk.symm (hl job r)

/-- What is seen is no result. -/
theorem Settled.skip (h : Settled es s) {e : Event} (hresult : ∀ job, resultFor job e = none)
    (hdelivered : ∀ chan, deliveredFrom chan e = none) : Settled (es ++ [e]) s where
  chans := h.chans
  own := h.own
  sending i job r hi := (h.sending i job r hi).mono List.prefix_rfl
  sent job r hr := by
    rcases List.mem_append.mp hr with hr | hr
    · exact (h.sent job r hr).mono List.prefix_rfl
    · obtain rfl := List.mem_singleton.mp hr
      exact absurd (hresult job) (by simp [resultFor])
  buffered job := by
    rw [resultsFor, deliveries, filterMap_concat, filterMap_concat, hresult, hdelivered]
    simpa [resultsFor, deliveries] using h.buffered job

theorem Settled.submit (h : Settled es s) (request : ExecutionRequest) (createdAt : Time)
    (priority : ℤ) : Settled es (s.submit request createdAt priority) where
  chans := by simp [State.submit, h.chans]
  own job j hj := by
    rcases getElem?_concat_cases hj with hj | ⟨rfl, rfl⟩
    · exact h.own job j hj
    · exact h.chans
  sending i job r hi := by
    rw [← List.append_nil es]
    exact (h.sending i job r hi).mono (List.prefix_append _ _)
  sent job r hr := by
    rw [← List.append_nil es]
    exact (h.sent job r hr).mono (List.prefix_append _ _)
  buffered job := by
    rw [State.submit, content_concat_make]
    exact h.buffered job

theorem Settled.receive (h : Settled es s) {chan : ℕ} {c c' : Chan ExecutionResult}
    {r : ExecutionResult} (hc : s.chans[chan]? = some c) (hr : c.buf = r :: c'.buf) :
    Settled (es ++ [.delivered chan r]) { s with chans := s.chans.set chan c' } where
  chans := by rw [List.length_set]; exact h.chans
  own := h.own
  sending i job r' hi := (h.sending i job r' hi).mono List.prefix_rfl
  sent job r' hr' := by
    rcases List.mem_append.mp hr' with hr' | hr'
    · exact (h.sent job r' hr').mono List.prefix_rfl
    · cases List.mem_singleton.mp hr'
  buffered job := by
    have hcontent : content s.chans chan = r :: c'.buf := by simp [content, hc, hr]
    have hb := h.buffered job
    rw [resultsFor, deliveries, filterMap_concat, filterMap_concat, content_set hc]
    by_cases hjob : chan = job
    · subst hjob
      rw [hcontent] at hb
      simpa [resultFor, deliveredFrom, resultsFor, deliveries] using hb
    · simpa [resultFor, deliveredFrom, hjob, resultsFor, deliveries] using hb

theorem Settled.executed (h : Settled es s) {i job : ℕ} {j : Job} (out : Output)
    (elapsed : Duration) (now : Time) (hj : s.jobs[job]? = some j) :
    Settled (es ++ [.executed i job out])
      (s.goto i (.sending job (resultOf j.Request out elapsed now))) := by
  have hskip := h.skip (e := .executed i job out) (fun _ => rfl) fun _ => rfl
  refine ⟨h.chans, h.own, fun k job' r hk => ?_, hskip.sent, hskip.buffered⟩
  rcases getElem?_set_cases hk with ⟨-, hk⟩ | ⟨-, hk⟩
  · exact hskip.sending k job' r hk
  · cases hk
    exact ⟨j, i, out, elapsed, now, hj, List.mem_append_right _ List.mem_cons_self, rfl⟩

theorem Settled.result (h : Settled es s) {i job : ℕ} {r : ExecutionResult} {j : Job}
    {c c' : Chan ExecutionResult} (hi : s.loops[i]? = some (.sending job r))
    (hj : s.jobs[job]? = some j) (hc : s.chans[j.ResultCh]? = some c)
    (hs : c'.buf = c.buf ++ [r]) :
    Settled (es ++ [.result job r])
      ({ s with chans := s.chans.set j.ResultCh c' }.goto i (.sent job)) where
  chans := by
    rw [State.goto_chans, List.length_set]
    exact h.chans
  own := h.own
  sending k job' r' hk := by
    rcases getElem?_set_cases hk with ⟨-, hk⟩ | ⟨-, hk⟩
    · exact (h.sending k job' r' hk).mono List.prefix_rfl
    · cases hk
  sent job' r' hr := by
    rcases List.mem_append.mp hr with hr | hr
    · exact (h.sent job' r' hr).mono List.prefix_rfl
    · cases List.mem_singleton.mp hr
      exact (h.sending i job r hi).mono List.prefix_rfl
  buffered job' := by
    have hb := h.buffered job'
    have hown := h.own job j hj
    have hcontent : content s.chans job = c.buf := by simp [content, ← hown, hc]
    rw [resultsFor, deliveries, filterMap_concat, filterMap_concat, State.goto_chans,
      content_set hc, hown]
    by_cases hjob : job = job'
    · subst hjob
      rw [hcontent] at hb
      simp only [resultFor, deliveredFrom, if_true, Option.toList_some, Option.toList_none,
        List.append_nil, hs]
      rw [← List.append_assoc]
      exact congrArg (· ++ [r]) hb
    · simpa [resultFor, deliveredFrom, hjob, resultsFor, deliveries] using hb

/-- Every move keeps the results where they belong. -/
theorem Settled.move (h : Settled es s) {new : List Event} (hm : Move s s' new) :
    Settled (es ++ new) s' := by
  have silent : Settled es s' → Settled (es ++ []) s' := fun h' => (List.append_nil es).symm ▸ h'
  cases hm with
  | send hjob hq => exact (h.skip (fun _ => rfl) fun _ => rfl).keep rfl rfl fun _ _ _ hi => hi
  | receive hc hr => exact h.receive hc (Chan.buf_of_recv hr)
  | dequeue hq => exact (h.skip (fun _ => rfl) fun _ => rfl).keep rfl rfl fun _ _ _ hi => hi
  | take hi hq =>
    exact ((h.skip (fun _ => rfl) fun _ => rfl).goto _ (by simp)).keep rfl rfl fun _ _ _ hi => hi
  | execute hi =>
    exact ((h.skip (fun _ => rfl) fun _ => rfl).goto _ (by simp)).keep rfl rfl fun _ _ _ hi => hi
  | executed out elapsed now hi hj => exact h.executed out elapsed now hj
  | result hi hj hc hs => exact h.result hi hj hc (Chan.buf_of_send hs)
  | finish hi => exact silent ((h.goto _ (by simp)).keep rfl rfl fun _ _ _ hi => hi)
  | seeStop hi hstop => exact silent (h.goto _ (by simp))
  | exit hi => exact silent ((h.goto _ (by simp)).keep rfl rfl fun _ _ _ hi => hi)
  | callStop => exact silent (h.keep rfl rfl fun _ _ _ hi => hi)
  | close hk honce => exact silent (h.keep rfl rfl fun _ _ _ hi => hi)
  | returned hk honce => exact silent (h.keep rfl rfl fun _ _ _ hi => hi)
  | waited hk hwg => exact silent (h.keep rfl rfl fun _ _ _ hi => hi)
  | record results heartbeats => exact silent (h.keep rfl rfl fun _ _ _ hi => hi)

end

/-- **In every run, results are outcomes and go where they belong.** -/
theorem settled {n : ℕ} {es : List Event} {s : State} (h : Reaches runner (start n) es s) :
    Settled es s :=
  keeps_of_moves (.start n) (fun _ _ _ _ _ h => h.submit _ _ _) (fun _ _ _ _ h hm => h.move hm) h

end CodeHive.Orchestrator.Outcomes
