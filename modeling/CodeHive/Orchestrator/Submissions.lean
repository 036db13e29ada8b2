import CodeHive.Orchestrator.ApiServer
import CodeHive.Orchestrator.Outcomes

/-! # Submissions and their histories

What a history of the server says of a submission, and how it agrees with where its handler and its
collector are: `Inv` holds at the start and every move keeps it. -/

namespace CodeHive.Orchestrator.Submissions

set_option autoImplicit false

open CodeHive.Concurrency.Interleaving CodeHive.Go.Sync CodeHive.Lists.Slots
open CodeHive.Orchestrator.Types CodeHive.Orchestrator.Runner CodeHive.Orchestrator.Outcomes
open CodeHive.Orchestrator.ApiServer

/-! ### What a history says of a submission -/

abbrev History := List ApiServer.Event

/-- The submission that an event is about. -/
def about : ApiServer.Event → Option ℕ
  | .received h _ _ => some h
  | .submitted h _ => some h
  | .accepted h _ => some h
  | .stored h _ _ => some h
  | _ => none

def receivedBy (h : ℕ) : ApiServer.Event → Option (String × Time)
  | .received k supplied now => if k = h then some (supplied, now) else none
  | _ => none

def submittedBy (h : ℕ) : ApiServer.Event → Option String
  | .submitted k id => if k = h then some id else none
  | _ => none

def acceptedBy (h : ℕ) : ApiServer.Event → Option Reply
  | .accepted k reply => if k = h then some reply else none
  | _ => none

def storedBy (h : ℕ) : ApiServer.Event → Option (String × ExecutionResult)
  | .stored k id r => if k = h then some (id, r) else none
  | _ => none

def storedUnder (id : String) : ApiServer.Event → Option ExecutionResult
  | .stored _ i r => if i = id then some r else none
  | _ => none

/-- The reply to a submission that is accepted under `id`. -/
def acceptance (id : String) : Reply := ⟨202, .accepted id JobStatusQueued⟩

/-- What the history says of what the collector of submission `h` has done. -/
def Collected (es : History) (h : ℕ) (id : String) : Collector → Prop
  | .none => es.filterMap (storedBy h) = []
  | .waiting => es.filterMap (storedBy h) = []
  | .storing r => .runner (.delivered h r) ∈ es ∧ es.filterMap (storedBy h) = []
  | .saving r => .runner (.delivered h r) ∈ es ∧ es.filterMap (storedBy h) = [(id, r)]
  | .done => ∃ r, .runner (.delivered h r) ∈ es ∧ es.filterMap (storedBy h) = [(id, r)]

/-- **What the history says of submission `h`.** -/
structure Track (es : History) (h : ℕ) (x : Submission) : Prop where
  received : ∃ supplied now, es.filterMap (receivedBy h) = [(supplied, now)] ∧
    x.req.ID = idOf supplied now
  submitted : es.filterMap (submittedBy h) = if x.handler = .submitting then [] else [x.req.ID]
  accepted : es.filterMap (acceptedBy h) =
    if x.handler = .answered then [acceptance x.req.ID] else []
  idle : x.handler = .submitting ∨ x.handler = .submitted → x.collector = .none
  collected : Collected es h x.req.ID x.collector

/-- **How history and state agree.** -/
structure Inv (es : History) (s : Server) : Prop where
  length : s.submissions.length = s.runner.jobs.length
  /-- A submission has a job and a channel of its own. -/
  own : ∀ (h : ℕ) (x : Submission), s.submissions[h]? = some x → x.job = h ∧ x.resultCh = h ∧
    ∃ j, s.runner.jobs[h]? = some j ∧ j.Request = x.req
  track : ∀ (h : ℕ) (x : Submission), s.submissions[h]? = some x → Track es h x
  /-- Nothing is said of a submission before it is made. -/
  made : ∀ e ∈ es, ∀ h, about e = some h → h < s.submissions.length
  /-- The results map holds what was stored last. -/
  results : ∀ id, s.results.Load id = (es.filterMap (storedUnder id)).getLast?

section
variable {es new : History} {s s' : Server} {h : ℕ} {x : Submission}

theorem filterMap_append_of_about {β : Type} {f : ApiServer.Event → Option β}
    (hf : ∀ e, about e ≠ some h → f e = none) (hnew : ∀ e ∈ new, about e ≠ some h) :
    (es ++ new).filterMap f = es.filterMap f := by
  rw [List.filterMap_append]
  have hnil : new.filterMap f = [] := List.filterMap_eq_nil_iff.mpr fun e he => hf e (hnew e he)
  rw [hnil, List.append_nil]

theorem receivedBy_of_about (e : ApiServer.Event) (he : about e ≠ some h) :
    receivedBy h e = none := by
  cases e <;> first | rfl | exact if_neg fun hk => he (congrArg some hk)

theorem submittedBy_of_about (e : ApiServer.Event) (he : about e ≠ some h) :
    submittedBy h e = none := by
  cases e <;> first | rfl | exact if_neg fun hk => he (congrArg some hk)

theorem acceptedBy_of_about (e : ApiServer.Event) (he : about e ≠ some h) :
    acceptedBy h e = none := by
  cases e <;> first | rfl | exact if_neg fun hk => he (congrArg some hk)

theorem storedBy_of_about (e : ApiServer.Event) (he : about e ≠ some h) :
    storedBy h e = none := by
  cases e <;> first | rfl | exact if_neg fun hk => he (congrArg some hk)

theorem Collected.mono {id : String} {c : Collector} (hc : Collected es h id c)
    (hnew : new.filterMap (storedBy h) = []) : Collected (es ++ new) h id c := by
  have hstored : (es ++ new).filterMap (storedBy h) = es.filterMap (storedBy h) := by
    rw [List.filterMap_append, hnew, List.append_nil]
  cases c with
  | none => exact hstored.trans hc
  | waiting => exact hstored.trans hc
  | storing r => exact ⟨List.mem_append_left _ hc.1, hstored.trans hc.2⟩
  | saving r => exact ⟨List.mem_append_left _ hc.1, hstored.trans hc.2⟩
  | done =>
    obtain ⟨r, hd, hs⟩ := hc
    exact ⟨r, List.mem_append_left _ hd, hstored.trans hs⟩

/-- Events about others change nothing. -/
theorem Track.skip (ht : Track es h x) (hnew : ∀ e ∈ new, about e ≠ some h) :
    Track (es ++ new) h x where
  received := by
    rw [filterMap_append_of_about receivedBy_of_about hnew]
    exact ht.received
  submitted := by
    rw [filterMap_append_of_about submittedBy_of_about hnew]
    exact ht.submitted
  accepted := by
    rw [filterMap_append_of_about acceptedBy_of_about hnew]
    exact ht.accepted
  idle := ht.idle
  collected := ht.collected.mono
    (List.filterMap_eq_nil_iff.mpr fun e he => storedBy_of_about e (hnew e he))

/-! ### One submission goes on -/

theorem Track.submit (ht : Track es h x) (hp : x.handler = .submitting) (job : ℕ) :
    Track (es ++ [.runner (.sent job), .submitted h x.req.ID]) h
      { x with handler := .submitted } where
  received := by simpa [List.filterMap_cons, receivedBy] using ht.received
  submitted := by simp [List.filterMap_cons, submittedBy, ht.submitted, hp]
  accepted := by simp [List.filterMap_cons, acceptedBy, ht.accepted, hp]
  idle _ := ht.idle (Or.inl hp)
  collected := ht.collected.mono rfl

theorem Track.collect (ht : Track es h x) (hp : x.handler = .submitted) :
    Track es h { x with handler := .started, collector := .waiting } where
  received := ht.received
  submitted := by simp [ht.submitted, hp]
  accepted := by simp [ht.accepted, hp]
  idle hidle := by rcases hidle with hidle | hidle <;> cases hidle
  collected := by
    have hc := ht.collected
    rw [ht.idle (Or.inr hp)] at hc
    exact hc

theorem Track.accept (ht : Track es h x) (hp : x.handler = .started) :
    Track (es ++ [.accepted h (acceptance x.req.ID)]) h { x with handler := .answered } where
  received := by simpa [List.filterMap_cons, receivedBy] using ht.received
  submitted := by simp [List.filterMap_cons, submittedBy, ht.submitted, hp]
  accepted := by simp [acceptedBy, ht.accepted, hp]
  idle hidle := by rcases hidle with hidle | hidle <;> cases hidle
  collected := ht.collected.mono rfl

/-- A collector that is at work goes on. -/
theorem Track.work (ht : Track es h x) (hp : x.collector ≠ .none) {c : Collector}
    (hr : new.filterMap (receivedBy h) = []) (hs : new.filterMap (submittedBy h) = [])
    (ha : new.filterMap (acceptedBy h) = []) (hc : Collected (es ++ new) h x.req.ID c) :
    Track (es ++ new) h { x with collector := c } where
  received := by
    rw [List.filterMap_append, hr, List.append_nil]
    exact ht.received
  submitted := by
    rw [List.filterMap_append, hs, List.append_nil]
    exact ht.submitted
  accepted := by
    rw [List.filterMap_append, ha, List.append_nil]
    exact ht.accepted
  idle hidle := absurd (ht.idle hidle) hp
  collected := hc

theorem Track.deliver (ht : Track es h x) (hp : x.collector = .waiting) (hch : x.resultCh = h)
    (r : ExecutionResult) :
    Track (es ++ [.runner (.delivered x.resultCh r)]) h { x with collector := .storing r } := by
  have hc := ht.collected
  rw [hp] at hc
  refine ht.work (by simp [hp]) rfl rfl rfl ⟨List.mem_append_right _ (hch ▸ List.mem_cons_self), ?_⟩
  rw [List.filterMap_append, hc]
  rfl

theorem Track.store (ht : Track es h x) {r : ExecutionResult} (hp : x.collector = .storing r)
    (saves : Bool) :
    Track (es ++ [.stored h x.req.ID r]) h
      { x with collector := if saves then .saving r else .done } := by
  have hc := ht.collected
  rw [hp] at hc
  have hstored : (es ++ [ApiServer.Event.stored h x.req.ID r]).filterMap (storedBy h) =
      [(x.req.ID, r)] := by
    simp [hc.2, storedBy]
  refine ht.work (by simp [hp]) rfl rfl rfl ?_
  cases saves with
  | true => exact ⟨List.mem_append_left _ hc.1, hstored⟩
  | false => exact ⟨r, List.mem_append_left _ hc.1, hstored⟩

theorem Track.finish (ht : Track es h x) {r : ExecutionResult} (hp : x.collector = .saving r) :
    Track es h { x with collector := .done } where
  received := ht.received
  submitted := ht.submitted
  accepted := ht.accepted
  idle hidle := absurd (ht.idle hidle) (by simp [hp])
  collected := by
    have hc := ht.collected
    rw [hp] at hc
    exact ⟨r, hc⟩

/-! ### The moves -/

theorem storedUnder_of_about (e : ApiServer.Event) (he : about e = none) (id : String) :
    storedUnder id e = none := by
  cases e <;> first | rfl | cases he

/-- A move that leaves the submissions alone. -/
theorem Inv.keep (hi : Inv es s) (hsub : s'.submissions = s.submissions)
    (hjobs : s'.runner.jobs = s.runner.jobs) (hres : s'.results = s.results)
    (hnew : ∀ e ∈ new, about e = none) : Inv (es ++ new) s' where
  length := by rw [hsub, hjobs]; exact hi.length
  own := by rw [hsub, hjobs]; exact hi.own
  track h x hx := (hi.track h x (hsub ▸ hx)).skip fun e he => by rw [hnew e he]; simp
  made e he h hh := by
    rw [hsub]
    rcases List.mem_append.mp he with he | he
    · exact hi.made e he h hh
    · rw [hnew e he] at hh
      cases hh
  results id := by
    have hnil : new.filterMap (storedUnder id) = [] :=
      List.filterMap_eq_nil_iff.mpr fun e he => storedUnder_of_about e (hnew e he) id
    rw [hres, List.filterMap_append, hnil, List.append_nil]
    exact hi.results id

/-- Submission `h` goes on from `x` to `x'`. -/
theorem Inv.goto (hi : Inv es s) (hx : s.submissions[h]? = some x) {x' : Submission}
    (hsub : s'.submissions = s.submissions.set h x')
    (hown : x'.req = x.req ∧ x'.job = x.job ∧ x'.resultCh = x.resultCh)
    (hjobs : s'.runner.jobs = s.runner.jobs)
    (hres : ∀ id, s'.results.Load id = ((es ++ new).filterMap (storedUnder id)).getLast?)
    (ht : Track (es ++ new) h x') (hnew : ∀ e ∈ new, about e = none ∨ about e = some h) :
    Inv (es ++ new) s' where
  length := by rw [hsub, hjobs, List.length_set]; exact hi.length
  own k y hy := by
    rw [hsub] at hy
    rcases getElem?_set_cases hy with ⟨-, hy⟩ | ⟨rfl, rfl⟩
    · rw [hjobs]
      exact hi.own k y hy
    · obtain ⟨h₁, h₂, h₃⟩ := hown
      rw [h₁, h₂, h₃, hjobs]
      exact hi.own k x hx
  track k y hy := by
    rw [hsub] at hy
    rcases getElem?_set_cases hy with ⟨hk, hy⟩ | ⟨rfl, rfl⟩
    · refine (hi.track k y hy).skip fun e he => ?_
      rcases hnew e he with hn | hn
      · rw [hn]
        simp
      · rw [hn]
        simpa using Ne.symm hk
    · exact ht
  made e he k hk := by
    rw [hsub, List.length_set]
    rcases List.mem_append.mp he with he | he
    · exact hi.made e he k hk
    · rcases hnew e he with hn | hn
      · rw [hn] at hk
        cases hk
      · rw [hn] at hk
        cases hk
        exact (List.getElem?_eq_some_iff.mp hx).1
  results := hres

/-- What no event is about has no history. -/
theorem filterMap_of_unmade {β : Type} {f : ApiServer.Event → Option β} (hi : Inv es s)
    (hf : ∀ e, about e ≠ some s.submissions.length → f e = none) : es.filterMap f = [] := by
  refine List.filterMap_eq_nil_iff.mpr fun e he => hf e fun hh => ?_
  exact Nat.lt_irrefl _ (hi.made e he _ hh)

theorem Inv.enroll (hi : Inv es s) (hchans : s.runner.chans.length = s.runner.jobs.length)
    (body : ExecutionRequest) (now₁ now₂ now₃ : Time) :
    Inv (es ++ [.received s.submissions.length body.ID now₁])
      (s.enroll (withDefaults body now₁ now₂) now₃) where
  length := by simp [Server.enroll, State.submit, hi.length]
  own k y hy := by
    rcases getElem?_concat_cases hy with hy | ⟨rfl, rfl⟩
    · obtain ⟨h₁, h₂, j, hj, hreq⟩ := hi.own k y hy
      have hlt := (List.getElem?_eq_some_iff.mp hj).1
      exact ⟨h₁, h₂, j, (List.getElem?_append_left hlt).trans hj, hreq⟩
    · rw [hi.length]
      exact ⟨rfl, hchans, _, List.getElem?_concat_length, rfl⟩
  track k y hy := by
    rcases getElem?_concat_cases hy with hy | ⟨rfl, rfl⟩
    · have hlt := (List.getElem?_eq_some_iff.mp hy).1
      refine (hi.track k y hy).skip fun e he => ?_
      cases List.mem_singleton.mp he
      simp only [about, ne_eq, Option.some.injEq]
      omega
    · refine ⟨⟨body.ID, now₁, ?_, rfl⟩, ?_, ?_, fun _ => ?_, ?_⟩
      · simp [filterMap_of_unmade hi receivedBy_of_about, receivedBy]
      · simp [List.filterMap_cons, filterMap_of_unmade hi submittedBy_of_about, submittedBy]
      · simp [List.filterMap_cons, filterMap_of_unmade hi acceptedBy_of_about, acceptedBy]
      · simp
      · simp [Collected, List.filterMap_cons, filterMap_of_unmade hi storedBy_of_about, storedBy]
  made e he k hk := by
    simp only [Server.enroll, List.length_append, List.length_singleton]
    rcases List.mem_append.mp he with he | he
    · exact Nat.lt_succ_of_lt (hi.made e he k hk)
    · cases List.mem_singleton.mp he
      cases hk
      exact Nat.lt_succ_self _
  results id := by
    simpa [List.filterMap_cons, storedUnder, Server.enroll] using hi.results id

/-- Jobs are made by handlers of the server only. -/
theorem jobs_of_outside {l : Runner.Label} {r : State} {res : List Runner.Event}
    (hl : outside l = true) (hs : runner.step s.runner l = some (r, res)) :
    r.jobs = s.runner.jobs := by
  rcases step_cases hs with ⟨request, createdAt, priority, rfl, -⟩ | hm
  · cases hl
  · exact hm.jobs

/-- What was stored last, after one more store. -/
theorem Load_Store (hi : Inv es s) (i : String) (r : ExecutionResult) (id : String) :
    Map.Load (s.results.Store i r) id =
      ((es ++ [ApiServer.Event.stored h i r]).filterMap (storedUnder id)).getLast? := by
  rw [Map.Load_Store, filterMap_concat]
  by_cases hid : i = id
  · simp [storedUnder, hid]
  · rw [if_neg fun h' => hid h'.symm, hi.results id]
    simp [storedUnder, hid]

/-- Every move keeps history and state in agreement. -/
theorem Inv.move (hi : Inv es s) (hchans : s.runner.chans.length = s.runner.jobs.length)
    (hm : ApiServer.Move s s' new) : Inv (es ++ new) s' := by
  have same : ∀ id, new.filterMap (storedUnder id) = [] →
      s.results.Load id = ((es ++ new).filterMap (storedUnder id)).getLast? := by
    intro id hnil
    rw [List.filterMap_append, hnil, List.append_nil]
    exact hi.results id
  cases hm with
  | refuse reply => exact hi.keep rfl rfl rfl (by simp [about])
  | enroll body now₁ now₂ now₃ => exact hi.enroll hchans body now₁ now₂ now₃
  | @submit h x r hx hp hs =>
    refine hi.goto hx rfl ⟨rfl, rfl, rfl⟩ (move_of_send hs).jobs (fun id => same id rfl)
      ((hi.track h x hx).submit hp x.job) (by simp [about])
  | @collect h x hx hp =>
    refine hi.goto hx rfl ⟨rfl, rfl, rfl⟩ rfl (fun id => same id rfl) ?_ (by simp)
    rw [List.append_nil]
    exact (hi.track h x hx).collect hp
  | @accept h x hx hp =>
    exact hi.goto hx rfl ⟨rfl, rfl, rfl⟩ rfl (fun id => same id rfl)
      ((hi.track h x hx).accept hp) (by simp [about])
  | @deliver h x r result hx hp hr =>
    exact hi.goto hx rfl ⟨rfl, rfl, rfl⟩ (move_of_receive hr).jobs (fun id => same id rfl)
      ((hi.track h x hx).deliver hp (hi.own h x hx).2.1 result) (by simp [about])
  | @store h x result hx hp =>
    exact hi.goto hx rfl ⟨rfl, rfl, rfl⟩ rfl (Load_Store hi x.req.ID result)
      ((hi.track h x hx).store hp s.db.isSome) (by simp [about])
  | @drop h x result hx hp =>
    refine hi.goto hx rfl ⟨rfl, rfl, rfl⟩ rfl (fun id => same id rfl) ?_ (by simp)
    rw [List.append_nil]
    exact (hi.track h x hx).finish hp
  | @save h x result hx hp =>
    exact hi.goto hx rfl ⟨rfl, rfl, rfl⟩ rfl (fun id => same id rfl)
      (((hi.track h x hx).finish hp).skip (by simp [about])) (by simp [about])
  | hit hr => exact hi.keep rfl rfl rfl (by simp [Server.tell, about])
  | miss hr hdb => exact hi.keep rfl rfl rfl (by simp [Server.tell, about])
  | ask hr hdb => exact hi.keep rfl rfl rfl (by simp [about])
  | row fails hk => exact hi.keep rfl rfl rfl (by simp [about])
  | runner hl hs => exact hi.keep rfl (jobs_of_outside hl hs) rfl (by simp [about])

end

/-- In every run, history and state agree. -/
theorem inv {n : ℕ} {db : Option Rows} {es : History} {s : Server}
    (h : Reaches server (start n db) es s) : Inv es s := by
  refine h.keeps ?_ fun es s l s' new hr hi hs => ?_
  · exact ⟨rfl, fun _ _ hx => (by cases hx), fun _ _ hx => (by cases hx), fun _ he => (by cases he),
      fun _ => rfl⟩
  · exact hi.move (settled (runner_reaches hr)).chans (move_of_step hs)

/-! ### What the history says of the results -/

section
variable {es : History} {s : Server} {h : ℕ} {id : String} {r : ExecutionResult}

theorem mem_storedUnder : r ∈ es.filterMap (storedUnder id) ↔ ∃ h, .stored h id r ∈ es := by
  constructor
  · intro hr
    obtain ⟨e, he, hr⟩ := List.mem_filterMap.mp hr
    unfold storedUnder at hr
    split at hr
    · next k i r' =>
      split at hr
      · next hi => cases hr; exact ⟨k, hi ▸ he⟩
      · cases hr
    · cases hr
  · exact fun ⟨h, he⟩ => List.mem_filterMap.mpr ⟨_, he, if_pos rfl⟩

theorem mem_submittedBy : id ∈ es.filterMap (submittedBy h) ↔ .submitted h id ∈ es :=
  mem_filterMap_iff fun e id => by cases e <;> simp [submittedBy]

theorem mem_storedBy : (id, r) ∈ es.filterMap (storedBy h) ↔ .stored h id r ∈ es :=
  mem_filterMap_iff (g := fun x : String × ExecutionResult => ApiServer.Event.stored h x.1 x.2)
    fun e x => by cases e <;> simp [storedBy, Prod.ext_iff]

/-- A collector that has stored a result has received it, and stored nothing else. -/
theorem Collected.of_stored {i : String} {c : Collector} (hc : Collected es h i c)
    (hr : (id, r) ∈ es.filterMap (storedBy h)) :
    i = id ∧ .runner (.delivered h r) ∈ es ∧ es.filterMap (storedBy h) = [(id, r)] ∧
      c ≠ .none := by
  cases c with
  | none => rw [hc] at hr; cases hr
  | waiting => rw [hc] at hr; cases hr
  | storing r' => rw [hc.2] at hr; cases hr
  | saving r' =>
    obtain ⟨hd, hs⟩ := hc
    rw [hs] at hr
    cases List.mem_singleton.mp hr
    exact ⟨rfl, hd, hs, by simp⟩
  | done =>
    obtain ⟨r', hd, hs⟩ := hc
    rw [hs] at hr
    cases List.mem_singleton.mp hr
    exact ⟨rfl, hd, hs, by simp⟩

/-- **A stored result** is that of a submission made under its id, whose job was sent and whose
channel delivered it; nothing else is stored for that submission. -/
theorem Inv.stored (hi : Inv es s) (he : .stored h id r ∈ es) :
    ∃ x, s.submissions[h]? = some x ∧ x.req.ID = id ∧ .submitted h id ∈ es ∧
      .runner (.delivered h r) ∈ es ∧ es.filterMap (storedBy h) = [(id, r)] := by
  have hlt := hi.made _ he h rfl
  have hx := List.getElem?_eq_getElem hlt
  have ht := hi.track h _ hx
  obtain ⟨hid, hd, hs, hcol⟩ := ht.collected.of_stored (mem_storedBy.mpr he)
  have hsub : es.filterMap (submittedBy h) = [id] := by
    rw [ht.submitted, if_neg fun hp => hcol (ht.idle (Or.inl hp)), hid]
  refine ⟨_, hx, hid, mem_submittedBy.mp ?_, hd, hs⟩
  rw [hsub]
  exact List.mem_singleton_self id

end

end CodeHive.Orchestrator.Submissions
