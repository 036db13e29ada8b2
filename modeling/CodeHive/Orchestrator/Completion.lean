import CodeHive.Orchestrator.FinalResults
import CodeHive.Orchestrator.Progress

/-! # Accepted jobs are finished

The API server on its dispatcher, left alone, where every call of `Execute` returns: its handlers
answer, its collectors store what they wait for, and every accepted job that no worker has taken with
`Dequeue` has its outcome in the results map when nothing is left to be done (`accepted_finish`). -/

namespace CodeHive.Orchestrator.Completion

set_option autoImplicit false

open CodeHive.Concurrency.Interleaving CodeHive.Concurrency.Settling CodeHive.Go.Sync
open CodeHive.Lists.Slots
open CodeHive.Orchestrator.Types CodeHive.Orchestrator.Runner CodeHive.Orchestrator.JobFlow
open CodeHive.Orchestrator.Outcomes CodeHive.Orchestrator.Conservation
open CodeHive.Orchestrator.ApiServer CodeHive.Orchestrator.Submissions
open CodeHive.Orchestrator.StatusAnswers CodeHive.Orchestrator.FinalResults

/-! ### The work that is left -/

/-- The steps of goroutines that have been started; by assumption, `Execute` returns. -/
def own : ApiServer.Label → Prop
  | .handler _ | .collector _ _ | .query _ _ => True
  | .runner l => Progress.own l
  | _ => False

/-- What is left to a handler, its collector included that it has still to start. -/
def handlerWork : Handler → ℕ
  | .submitting => 7
  | .submitted => 6
  | .started => 1
  | .answered => 0

def collectorWork : Collector → ℕ
  | .none => 0
  | .waiting => 4
  | .storing _ => 2
  | .saving _ => 1
  | .done => 0

def submissionWork (x : Submission) : ℕ := handlerWork x.handler + collectorWork x.collector

def queryWork : Query → ℕ
  | .querying _ => 1
  | .answered => 0

/-- **The work that is left** to the server and its dispatcher. -/
def work (s : Server) : ℕ :=
  Progress.work s.runner + (s.submissions.map submissionWork).sum + (s.queries.map queryWork).sum

section
variable {s s' : Server} {new : History}

/-- A submission goes on; the dispatcher may have gone on as well. -/
theorem work_goto {h : ℕ} {x x' : Submission} (hx : s.submissions[h]? = some x) (s₁ : Server)
    (hsub : s₁.submissions = s.submissions) (hq : s₁.queries = s.queries)
    (hrunner : Progress.work s₁.runner ≤ Progress.work s.runner)
    (hless : submissionWork x' < submissionWork x) : work (s₁.goto h x') < work s := by
  have hsum := sum_map_set submissionWork hx x'
  simp only [work, Server.goto_runner, Server.goto_submissions, Server.goto_queries, hsub, hq]
  omega

theorem work_handler {h : ℕ} (hs : s.handler h = some (s', new)) : work s' < work s := by
  obtain ⟨x, hx, hs⟩ := Option.bind_eq_some_iff.mp hs
  split at hs
  · next hp =>
    obtain ⟨r, hr, hs⟩ := Option.bind_eq_some_iff.mp hs
    cases hs
    exact work_goto hx (s.withRunner r) rfl rfl (Nat.le_of_lt (Progress.work_send hr))
      (by simp [submissionWork, handlerWork, hp])
  · next hp =>
    cases hs
    refine work_goto hx s rfl rfl (Nat.le_refl _) ?_
    simp only [submissionWork, handlerWork, collectorWork, hp]
    omega
  · next hp =>
    cases hs
    exact work_goto hx s rfl rfl (Nat.le_refl _) (by simp [submissionWork, handlerWork, hp])
  · cases hs

theorem work_collector {h : ℕ} {fails : Bool} (hs : s.collector h fails = some (s', new)) :
    work s' < work s := by
  obtain ⟨x, hx, hs⟩ := Option.bind_eq_some_iff.mp hs
  split at hs
  · next hp =>
    obtain ⟨⟨result, r⟩, hr, hs⟩ := Option.bind_eq_some_iff.mp hs
    cases hs
    exact work_goto hx (s.withRunner r) rfl rfl (Nat.le_of_lt (Progress.work_receive hr))
      (by simp [submissionWork, collectorWork, hp])
  · next result hp =>
    cases hs
    refine work_goto hx { s with results := s.results.Store x.req.ID result } rfl rfl
      (Nat.le_refl _) ?_
    cases s.db <;> simp [submissionWork, collectorWork, hp]
  · next result hp =>
    split at hs
    · cases hs
      exact work_goto hx s rfl rfl (Nat.le_refl _) (by simp [submissionWork, collectorWork, hp])
    · cases hs
      exact work_goto hx { s with db := s.db.map fun rows => Rows.SaveResult rows result } rfl rfl
        (Nat.le_refl _) (by simp [submissionWork, collectorWork, hp])
  · cases hs

theorem work_query {k : ℕ} {fails : Bool} (hs : s.query k fails = some (s', new)) :
    work s' < work s := by
  obtain ⟨q, hk, hs⟩ := Option.bind_eq_some_iff.mp hs
  split at hs
  · cases hs
    have hsum := sum_map_set queryWork hk .answered
    simp only [queryWork] at hsum
    simp only [work]
    omega
  · cases hs

/-- **Every own step uses up work.** -/
theorem work_step {l : ApiServer.Label} (hl : own l) (hs : server.step s l = some (s', new)) :
    work s' < work s := by
  cases l with
  | handler h => exact work_handler hs
  | collector h fails => exact work_collector hs
  | query k fails => exact work_query hs
  | runner l =>
    unfold server at hs
    simp only at hs
    split at hs
    · obtain ⟨⟨r, es⟩, hr, hs⟩ := Option.map_eq_some_iff.mp hs
      cases hs
      have hless : Progress.work r < Progress.work s.runner := Progress.work_step hl hr
      simp only [work, Server.withRunner_runner, Server.withRunner_submissions,
        Server.withRunner_queries]
      omega
    · cases hs
  | _ => cases hl

end

/-! ### What a submission and the dispatcher know of each other -/

section
variable {s s' : State} {res : List Runner.Event}

/-- Only handlers send jobs, and only collectors receive results. -/
theorem outside_private {l : Runner.Label} (hl : outside l = true)
    (h : runner.step s l = some (s', res)) :
    s'.submitting = s.submitting ∧ ∀ c r, Runner.Event.delivered c r ∉ res := by
  cases l with
  | submit request createdAt priority => cases hl
  | send job => cases hl
  | receive chan => cases hl
  | dequeue =>
    cases h
    refine ⟨rfl, fun c r hmem => ?_⟩
    obtain ⟨job, -, hjob⟩ := Option.map_eq_some_iff.mp (Option.mem_toList.mp hmem)
    cases hjob
  | loop i step =>
    have hprivate := Progress.loop_private h
    exact ⟨hprivate.submitting, hprivate.delivered⟩
  | callStop => cases h; exact ⟨rfl, by simp⟩
  | stop k =>
    obtain ⟨s₁, h₁, h⟩ := Option.map_eq_some_iff.mp h
    cases h
    exact ⟨(Progress.stop_private h₁).1, by simp⟩
  | storeResult jobId result => cases h; exact ⟨rfl, by simp⟩
  | recordHeartbeat workerId now => cases h; exact ⟨rfl, by simp⟩

end

/-- **What submission `h` and the dispatcher know of each other.** -/
structure Link (es : History) (s : Server) (h : ℕ) (x : Submission) : Prop where
  submitting : x.handler = .submitting ↔ h ∈ s.runner.submitting
  /-- The collector is started by the handler. -/
  collector : x.collector = .none → x.handler = .submitting ∨ x.handler = .submitted
  /-- A collector receives one result. -/
  waiting : x.collector = .none ∨ x.collector = .waiting → ∀ r, .runner (.delivered h r) ∉ es

def Linked (es : History) (s : Server) : Prop :=
  ∀ (h : ℕ) (x : Submission), s.submissions[h]? = some x → Link es s h x

section
variable {n : ℕ} {db : Option Rows} {es new : History} {s s' : Server} {h : ℕ} {x x' : Submission}

theorem Link.keep (hk : Link es s h x) (hsub : h ∈ s'.runner.submitting ↔ h ∈ s.runner.submitting)
    (hnew : ∀ r, .runner (.delivered h r) ∉ new) : Link (es ++ new) s' h x where
  submitting := hk.submitting.trans hsub.symm
  collector := hk.collector
  waiting hc r hmem := by
    rcases List.mem_append.mp hmem with hmem | hmem
    · exact hk.waiting hc r hmem
    · exact hnew r hmem

/-- A move that leaves the submissions and the calls of `Submit` alone. -/
theorem Linked.keep (hi : Linked es s) (hsub : s'.submissions = s.submissions)
    (hrunner : s'.runner.submitting = s.runner.submitting)
    (hnew : ∀ h r, .runner (.delivered h r) ∉ new) : Linked (es ++ new) s' := fun k y hy =>
  (hi k y (hsub ▸ hy)).keep (by rw [hrunner]) (hnew k)

/-- Submission `h` goes on to `x'`. -/
theorem Linked.goto (hi : Linked es s) (hsub : s'.submissions = s.submissions.set h x')
    (hrunner : ∀ k, k ≠ h → (k ∈ s'.runner.submitting ↔ k ∈ s.runner.submitting))
    (hnew : ∀ k, k ≠ h → ∀ r, .runner (.delivered k r) ∉ new) (hx' : Link (es ++ new) s' h x') :
    Linked (es ++ new) s' := by
  intro k y hy
  rw [hsub] at hy
  rcases getElem?_set_cases hy with ⟨hk, hy⟩ | ⟨rfl, rfl⟩
  · exact (hi k y hy).keep (hrunner k hk) (hnew k hk)
  · exact hx'

/-- A collector goes on that has received its result. -/
theorem Link.collected (hk : Link es s h x) (c : Collector) (hc : c ≠ .none ∧ c ≠ .waiting)
    (hrunner : s'.runner.submitting = s.runner.submitting) :
    Link (es ++ new) s' h { x with collector := c } where
  submitting := by rw [hrunner]; exact hk.submitting
  collector h := absurd h hc.1
  waiting h := by
    rcases h with h | h
    · exact absurd h hc.1
    · exact absurd h hc.2

theorem Linked.move (hi : Linked es s) (hr : Reaches server (start n db) es s)
    (hm : ApiServer.Move s s' new) : Linked (es ++ new) s' := by
  have hinv := inv hr
  have hflow := flow (runner_reaches hr)
  cases hm with
  | refuse reply => exact hi.keep rfl rfl (by simp)
  | enroll body now₁ now₂ now₃ =>
    intro k y hy
    rcases getElem?_concat_cases hy with hy | ⟨rfl, rfl⟩
    · have hlt := (List.getElem?_eq_some_iff.mp hy).1
      refine (hi k y hy).keep ?_ (by simp)
      have hne : k ≠ s.runner.jobs.length := by
        rw [← hinv.length]
        omega
      simp [Server.enroll, State.submit, hne]
    · refine ⟨iff_of_true rfl ?_, fun _ => Or.inl rfl, fun _ r hmem => ?_⟩
      · simp [Server.enroll, State.submit, hinv.length]
      · have hdel : r ∈ deliveries s.submissions.length (es.filterMap runnerEvent) :=
          mem_deliveries.mpr (mem_runner.mpr (by simpa using hmem))
        have hset := settled (runner_reaches hr)
        have hres : r ∈ resultsFor s.submissions.length (es.filterMap runnerEvent) := by
          rw [hset.buffered]
          exact List.mem_append_left _ hdel
        obtain ⟨j, i, out, elapsed, now, hj, -⟩ := hset.sent _ r (mem_resultsFor.mp hres)
        have hlt := (List.getElem?_eq_some_iff.mp hj).1
        rw [hinv.length] at hlt
        exact Nat.lt_irrefl _ hlt
  | @submit h x r hx hp hs =>
    have hjob := (hinv.own h x hx).1
    unfold State.send at hs
    split at hs
    · next hmem =>
      obtain ⟨q, hq, hs⟩ := Option.bind_eq_some_iff.mp hs
      cases hs
      have hnodup : s.runner.submitting.Nodup :=
        (List.nodup_append.mp (hflow.calls.nodup_iff.mpr List.nodup_range)).1
      refine hi.goto rfl (fun k hk => ?_) (by simp) ⟨?_, fun _ => Or.inr rfl, fun hc r hmem => ?_⟩
      · show k ∈ s.runner.submitting.erase x.job ↔ _
        rw [hjob, List.mem_erase_of_ne hk]
      · refine iff_of_false (by simp) ?_
        show h ∉ s.runner.submitting.erase x.job
        rw [hjob]
        exact hnodup.not_mem_erase
      · exact (hi h x hx).waiting hc r (by simpa using hmem)
    · cases hs
  | @collect h x hx hp =>
    have hidle := (hinv.track h x hx).idle (Or.inr hp)
    have hk := hi h x hx
    refine hi.goto rfl (fun _ _ => Iff.rfl) (by simp) ⟨?_, by simp, fun _ r hmem => ?_⟩
    · have hnot : h ∉ s.runner.submitting := fun hmem => by
        rw [hk.submitting.mpr hmem] at hp
        cases hp
      exact iff_of_false (by simp) hnot
    · exact hk.waiting (Or.inl hidle) r (by simpa using hmem)
  | @accept h x hx hp =>
    have hk := hi h x hx
    have hnot : h ∉ s.runner.submitting := fun hmem => by
      rw [hk.submitting.mpr hmem] at hp
      cases hp
    refine hi.goto rfl (fun _ _ => Iff.rfl) (by simp) ⟨iff_of_false (by simp) hnot, fun hc => ?_,
      fun hc r hmem => hk.waiting hc r (by simpa using hmem)⟩
    rcases hk.collector hc with hp' | hp' <;> rw [hp'] at hp <;> cases hp
  | @deliver h x r result hx hp hrecv =>
    have hk := hi h x hx
    have hown := (hinv.own h x hx).2.1
    have hsub : r.submitting = s.runner.submitting := by
      obtain ⟨c, hc, hrecv⟩ := Option.bind_eq_some_iff.mp hrecv
      obtain ⟨⟨r', c'⟩, hr', hrecv⟩ := Option.bind_eq_some_iff.mp hrecv
      cases hrecv
      rfl
    refine hi.goto rfl (fun k _ => ?_) (fun k hk r' => ?_)
      (hk.collected (.storing result) (by simp) hsub)
    · exact iff_of_eq (congrArg (k ∈ ·) hsub)
    · rw [hown]
      simpa using fun h => absurd h hk
  | @store h x result hx hp =>
    refine hi.goto rfl (fun _ _ => Iff.rfl) (by simp) ((hi h x hx).collected _ ?_ rfl)
    cases s.db <;> simp
  | @drop h x result hx hp =>
    exact hi.goto rfl (fun _ _ => Iff.rfl) (by simp)
      ((hi h x hx).collected .done (by simp) rfl)
  | @save h x result hx hp =>
    exact hi.goto rfl (fun _ _ => Iff.rfl) (by simp)
      ((hi h x hx).collected .done (by simp) rfl)
  | hit hload => exact hi.keep rfl rfl (by simp [Server.tell])
  | miss hload hdb => exact hi.keep rfl rfl (by simp [Server.tell])
  | ask hload hdb => exact hi.keep rfl rfl (by simp)
  | row fails hk => exact hi.keep rfl rfl (by simp)
  | runner hl hs =>
    obtain ⟨hsub, hnone⟩ := outside_private hl hs
    refine hi.keep rfl hsub fun k r hmem => ?_
    obtain ⟨e, he, heq⟩ := List.mem_map.mp hmem
    cases heq
    exact hnone k r he

theorem linked (hr : Reaches server (start n db) es s) : Linked es s :=
  hr.keeps (fun _ _ hx => by cases hx) fun _ _ _ _ _ hr hi hs => hi.move hr (move_of_step hs)

end

/-! ### Where nothing is left to do -/

section
variable {n : ℕ} {db : Option Rows} {es : History} {s : Server} {h : ℕ} {x : Submission}

/-- **A handler has answered, or is in a `Submit` that blocks.** -/
theorem handler_at_rest (hrest : Rests server own s) (hx : s.submissions[h]? = some x) :
    x.handler = .answered ∨ (x.handler = .submitting ∧ s.runner.send x.job = none) := by
  have hstuck : s.handler h = none := hrest (.handler h) trivial
  unfold Server.handler at hstuck
  cases hp : x.handler with
  | submitting =>
    refine Or.inr ⟨rfl, ?_⟩
    cases hs : s.runner.send x.job with
    | none => rfl
    | some r => simp [hx, hp, hs] at hstuck
  | submitted => simp [hx, hp] at hstuck
  | started => simp [hx, hp] at hstuck
  | answered => exact Or.inl rfl

/-- **A collector is done, or waits at a channel that is empty.** -/
theorem collector_at_rest (hrest : Rests server own s) (hx : s.submissions[h]? = some x) :
    x.collector = .none ∨ x.collector = .done ∨
      (x.collector = .waiting ∧ s.runner.receive x.resultCh = none) := by
  have hstuck : s.collector h false = none := hrest (.collector h false) trivial
  unfold Server.collector at hstuck
  cases hp : x.collector with
  | none => exact Or.inl rfl
  | done => exact Or.inr (Or.inl rfl)
  | waiting =>
    refine Or.inr (Or.inr ⟨rfl, ?_⟩)
    cases hs : s.runner.receive x.resultCh with
    | none => rfl
    | some r => simp [hx, hp, hs] at hstuck
  | storing r => simp [hx, hp] at hstuck
  | saving r => simp [hx, hp] at hstuck

/-- A job that is being submitted has no result. -/
theorem unsent (hflow : Flow (es.filterMap runnerEvent) s.runner)
    (hset : Settled (es.filterMap runnerEvent) s.runner) (hh : h ∈ s.runner.submitting) :
    content s.runner.chans h = [] := by
  have hnot : h ∉ sends (es.filterMap runnerEvent) := fun hmem =>
    (List.nodup_append.mp (hflow.calls.nodup_iff.mpr List.nodup_range)).2.2 h hh h hmem rfl
  have hzero : (finished (es.filterMap runnerEvent)).count h = 0 := by
    refine List.count_eq_zero.mpr fun hmem => hnot ((accounted hflow).mem_iff.mpr ?_)
    exact List.mem_append_left _ (List.mem_append_right _ hmem)
  have hnone : resultsFor h (es.filterMap runnerEvent) = [] :=
    List.eq_nil_of_length_eq_zero ((length_resultsFor h _).trans hzero)
  have hbuf := hset.buffered h
  rw [hnone] at hbuf
  exact (List.append_eq_nil_iff.mp hbuf.symm).2

/-- A channel from which a result was received is empty. -/
theorem emptied (hflow : Flow (es.filterMap runnerEvent) s.runner)
    (hset : Settled (es.filterMap runnerEvent) s.runner) {r : ExecutionResult}
    (hd : .runner (.delivered h r) ∈ es) : content s.runner.chans h = [] := by
  have hpos := List.length_pos_of_mem (mem_deliveries.mpr (mem_runner.mpr hd))
  have hone := count_le_one hflow h
  have hbuf := congrArg List.length (hset.buffered h)
  rw [length_resultsFor, List.length_append] at hbuf
  exact List.eq_nil_of_length_eq_zero (by omega)

/-- **Every channel is empty**, as nobody waits at one that is not. -/
theorem receive_at_rest (hr : Reaches server (start n db) es s) (hrest : Rests server own s)
    (chan : ℕ) : s.runner.receive chan = none := by
  have hinv := inv hr
  have hflow := flow (runner_reaches hr)
  have hset := settled (runner_reaches hr)
  have hempty : content s.runner.chans chan = [] → s.runner.receive chan = none := fun hnil => by
    unfold State.receive
    unfold content at hnil
    cases hc : s.runner.chans[chan]? with
    | none => rfl
    | some c =>
      rw [hc] at hnil
      have hrecv : c.recv = none := Chan.recv_eq_none.mpr hnil
      simp [hrecv]
  rcases Nat.lt_or_ge chan s.submissions.length with hlt | hge
  · have hx := List.getElem?_eq_getElem hlt
    obtain ⟨-, hown, -⟩ := hinv.own chan _ hx
    have hk := linked hr chan _ hx
    rcases collector_at_rest hrest hx with hc | hc | ⟨-, hnone⟩
    · have hsub : s.submissions[chan].handler = .submitting := by
        rcases handler_at_rest hrest hx with hp | ⟨hp, -⟩
        · rcases hk.collector hc with hp' | hp' <;> rw [hp'] at hp <;> cases hp
        · exact hp
      exact hempty (unsent hflow hset (hk.submitting.mp hsub))
    · have hcol := (hinv.track chan _ hx).collected
      rw [hc] at hcol
      obtain ⟨r, hd, -⟩ := hcol
      exact hempty (emptied hflow hset hd)
    · rwa [hown] at hnone
  · refine hempty ?_
    unfold content
    rw [List.getElem?_eq_none (by rw [hset.chans, ← hinv.length]; exact hge)]
    rfl

/-- **The dispatcher rests as well.** -/
theorem runner_at_rest (hr : Reaches server (start n db) es s) (hrest : Rests server own s) :
    Rests runner Progress.own s.runner := by
  have hout : ∀ l, Progress.own l → outside l = true → runner.step s.runner l = none := by
    intro l hl hout
    have hstuck : server.step s (.runner l) = none := hrest (.runner l) hl
    unfold server at hstuck
    simp only at hstuck
    rw [if_pos hout] at hstuck
    exact Option.map_eq_none_iff.mp hstuck
  intro l hl
  cases l with
  | send job =>
    show (s.runner.send job).map _ = none
    rw [Option.map_eq_none_iff]
    by_cases hjob : job ∈ s.runner.submitting
    · have hinv := inv hr
      have hlt : job < s.submissions.length := by
        rw [hinv.length]
        exact List.mem_range.mp
          ((flow (runner_reaches hr)).calls.mem_iff.mp (List.mem_append_left _ hjob))
      have hx := List.getElem?_eq_getElem hlt
      have hp := (linked hr job _ hx).submitting.mpr hjob
      rcases handler_at_rest hrest hx with hp' | ⟨-, hnone⟩
      · rw [hp'] at hp
        cases hp
      · rwa [(hinv.own job _ hx).1] at hnone
    · exact if_neg hjob
  | receive chan =>
    show (s.runner.receive chan).map _ = none
    rw [receive_at_rest hr hrest chan]
    rfl
  | loop i step => exact hout _ hl rfl
  | stop k => exact hout _ hl rfl
  | _ => cases hl

theorem mem_acceptedBy {reply : Reply} :
    reply ∈ es.filterMap (acceptedBy h) ↔ .accepted h reply ∈ es :=
  mem_filterMap_iff fun e r => by cases e <;> simp [acceptedBy]

theorem mem_dequeues {job : ℕ} (hd : job ∈ dequeues (es.filterMap runnerEvent)) :
    .runner (.dequeued job) ∈ es :=
  mem_runner.mp ((mem_filterMap_iff fun e j => by cases e <;> simp [dequeuedOf]).mp hd)

theorem idOf_ne_empty (supplied : String) (now : Time) : idOf supplied now ≠ "" := by
  unfold idOf
  split
  · intro h
    have hlen := congrArg String.length h
    simp [generatedID] at hlen
  · assumption

end

/-- **Submission `h` is finished**: it was answered 202, and its own outcome is stored under its id. -/
structure Finished (es : History) (s : Server) (h : ℕ) (x : Submission) (r : ExecutionResult) :
    Prop where
  accepted : .accepted h (acceptance x.req.ID) ∈ es
  outcome : OutcomeOf es s h r
  stored : .stored h x.req.ID r ∈ es

section
variable {n : ℕ} {db : Option Rows} {es : History} {s : Server} {h : ℕ} {x : Submission}

theorem finished_at_rest (hn : 1 ≤ n) (hr : Reaches server (start n db) es s)
    (hrest : Rests server own s) (hopen : s.runner.d.stopCh = false)
    (hx : s.submissions[h]? = some x) (hd : .runner (.dequeued h) ∉ es) :
    ∃ r, Finished es s h x r := by
  have hinv := inv hr
  have hrunner := runner_at_rest hr hrest
  have hsub := ((Progress.quiet hn (runner_reaches hr) hrunner).idle hopen).1
  have hk := linked hr h x hx
  have ht := hinv.track h x hx
  -- no call of `Submit` is left, so the handler has answered
  have hanswered : x.handler = .answered := by
    rcases handler_at_rest hrest hx with hp | ⟨hp, -⟩
    · exact hp
    · have hmem := hk.submitting.mp hp
      rw [hsub] at hmem
      cases hmem
  have haccepted : .accepted h (acceptance x.req.ID) ∈ es := by
    refine mem_acceptedBy.mp ?_
    rw [ht.accepted, if_pos hanswered]
    exact List.mem_singleton_self _
  -- the job was executed, and its result received
  have hparted := Progress.parted_at_rest hn (runner_reaches hr) hrunner
  have hlt : h < s.runner.jobs.length := by
    rw [← hinv.length]
    exact (List.getElem?_eq_some_iff.mp hx).1
  have hfin : h ∈ finished (es.filterMap runnerEvent) := by
    rcases List.mem_append.mp ((hparted.all hopen).mem_iff.mpr (List.mem_range.mpr hlt)) with hf | hq
    · exact hf
    · exact absurd (mem_dequeues hq) hd
  obtain ⟨-, r', hdel, -⟩ := hparted.executed h hfin
  have hmem : .runner (.delivered h r') ∈ es := by
    refine mem_runner.mp (mem_deliveries.mp ?_)
    rw [hdel]
    exact List.mem_singleton_self r'
  rcases collector_at_rest hrest hx with hc | hc | ⟨hc, -⟩
  · exact absurd hmem (hk.waiting (Or.inl hc) r')
  · have hcol := ht.collected
    rw [hc] at hcol
    obtain ⟨r, hd', hst⟩ := hcol
    refine ⟨r, haccepted, outcome_of_delivered hr hx hd', mem_storedBy.mp ?_⟩
    rw [hst]
    exact List.mem_singleton_self _
  · exact absurd hmem (hk.waiting (Or.inr hc) r')

/-- **A finished submission is found**: a status request for its id is answered 200; where the ids
are distinct, with its own outcome. -/
theorem Finished.status {r : ExecutionResult} (hf : Finished es s h x r)
    (hr : Reaches server (start n db) es s) (hx : s.submissions[h]? = some x) :
    ∃ r', s.status "GET" x.req.ID = s.tell x.req.ID ⟨200, .result r'⟩ ∧
      (DistinctIds es → r' = r) := by
  have hinv := inv hr
  obtain ⟨supplied, now, -, hid⟩ := (hinv.track h x hx).received
  have hne : x.req.ID ≠ "" := by
    rw [hid]
    exact idOf_ne_empty supplied now
  have hsome : (s.results.Load x.req.ID).isSome := by
    rw [hinv.results, List.getLast?_isSome]
    exact List.ne_nil_of_mem (mem_storedUnder.mpr ⟨h, hf.stored⟩)
  obtain ⟨r', hload⟩ := Option.isSome_iff_exists.mp hsome
  refine ⟨r', ?_, fun hdist => ?_⟩
  · unfold Server.status
    rw [if_neg (by simp), if_neg hne, hload]
  · obtain ⟨h', hst⟩ := stored_of_lastStored ((hinv.results _).symm.trans hload)
    exact (stored_unique hinv hdist hst hf.stored).2

end

/-- **Every accepted job is finished** where every call of `Execute` returns: from every reachable
state of the API server, left alone, its goroutines come to rest; and unless the dispatcher is
stopped, each submission whose job no worker has taken is then answered, its own outcome is stored,
and status requests find it. -/
theorem accepted_finish {n : ℕ} (hn : 1 ≤ n) {db : Option Rows} {es : History} {s : Server}
    (hr : Reaches server (start n db) es s) :
    Settles server own s (work s) fun new s' => s'.runner.d.stopCh = false →
      ∀ (h : ℕ) (x : Submission), s'.submissions[h]? = some x → .runner (.dequeued h) ∉ es ++ new →
        ∃ r, Finished (es ++ new) s' h x r ∧
          ∃ r', s'.status "GET" x.req.ID = s'.tell x.req.ID ⟨200, .result r'⟩ ∧
            (DistinctIds (es ++ new) → r' = r) := by
  refine settles (I := fun _ => True) (fun _ _ _ _ _ hl hs => ⟨trivial, work_step hl hs⟩) trivial ?_
  intro k new s' hd hrest hopen h x hx hdeq
  have hr' := hr.trans hd.reaches
  obtain ⟨r, hf⟩ := finished_at_rest hn hr' hrest hopen hx hdeq
  exact ⟨r, hf, hf.status hr' hx⟩

/-- Two submissions have been made, and one of them accepted. -/
def begun : List ApiServer.Label :=
  submission 0 "a" ++ [.execute "POST" (some (request "b")) 1 2 3]

theorem accepted_finish_begun : ∃ es s, server.run (start 2 none) begun = some (s, es) ∧
    s.submissions.length = 2 ∧
    Settles server own s (work s) fun new s' => s'.runner.d.stopCh = false →
      ∀ (h : ℕ) (x : Submission), s'.submissions[h]? = some x → .runner (.dequeued h) ∉ es ++ new →
        ∃ r, Finished (es ++ new) s' h x r ∧
          ∃ r', s'.status "GET" x.req.ID = s'.tell x.req.ID ⟨200, .result r'⟩ ∧
            (DistinctIds (es ++ new) → r' = r) := by
  have hrun : ∃ es s, server.run (start 2 none) begun = some (s, es) ∧ s.submissions.length = 2 :=
    ⟨_, _, rfl, rfl⟩
  obtain ⟨es, s, hs, hlen⟩ := hrun
  exact ⟨es, s, hs, hlen, accepted_finish (by decide) (reaches_of_run hs)⟩

end CodeHive.Orchestrator.Completion
