import CodeHive.Api.Acknowledged
import CodeHive.Api.OneExecution
import CodeHive.Api.RecordState

/-! # Answers that are final

In memory, as long as no result is accepted from a worker, only the execution of a job records its
result, and it does so once. So what a status request has been told of a job that has ended, every
later one is told as well, whatever is submitted, claimed and refused meanwhile. -/

namespace CodeHive.Api.FinalAnswers

set_option autoImplicit false

open CodeHive.Js.Value CodeHive.Api.Types CodeHive.Api.Stores CodeHive.Api.Messages
open CodeHive.Api.Program CodeHive.Api.Queue CodeHive.Api.Executor CodeHive.Api.Routes
open CodeHive.Api.System CodeHive.Api.History CodeHive.Api.Invariant CodeHive.Api.Handlers
open CodeHive.Api.Runs
open CodeHive.Api.RecordState CodeHive.Api.Course CodeHive.Api.OneExecution
open CodeHive.Concurrency.Calls CodeHive.Concurrency.Pool CodeHive.Concurrency.Protocols

/-! ### What the stages say -/

section
variable {b : Backend} {a : Actor} {log : List Event}

/-- A request that is no submission is at its only stage. -/
theorem tag_of_serving {tag : Task} (h : (course b).stage a log = .serving tag) : a.tag = tag := by
  suffices hR : ∀ tag, (course b).stage a log = .serving tag → a.tag = tag from hR tag h
  refine stage_induction (P := course b) (R := fun _ q => ∀ tag, q = .serving tag → a.tag = tag) ?_
    (fun _ _ _ _ h => h) fun pre _ o r _ _ h tag hq => ?_
  · intro tag hq
    cases htag : a.tag with
    | inline i => rw [htag] at hq; cases hq
    | call c => rw [htag] at hq; cases hq; rfl
    | request r =>
      rw [htag] at hq
      cases r with
      | execute body => cases hq
      | _ => cases hq; rfl
  · cases hstage : (course b).stage a pre with
    | serving tag' =>
      rw [hstage] at hq
      cases hq
      exact h _ hstage
    | executing j d m => rw [hstage] at hq; cases hq
    | submitting known =>
      obtain ⟨known', hnext⟩ := next_submitting b known o r
      rw [hstage, hnext] at hq
      cases hq

/-- An execution that has recorded a result is at a stage that says so. -/
theorem recorded_of_event {d : Actor} {o : Op} {r : o.Answer} (he : .ran d o r ∈ log)
    (hd : d.tid = a.tid) (ho : recordingOp o = true) {j : String} {dir : Dir} {m : Bool}
    (hq : (course b).stage a log = .executing j dir m) : m = true := by
  suffices hR : (∃ d o r, .ran d o r ∈ log ∧ d.tid = a.tid ∧ recordingOp o = true) →
      ∀ j dir m, (course b).stage a log = .executing j dir m → m = true from
    hR ⟨d, o, r, he, hd, ho⟩ j dir m hq
  refine stage_induction (P := course b) (R := fun log q =>
    (∃ d o r, .ran d o r ∈ log ∧ d.tid = a.tid ∧ recordingOp o = true) →
      ∀ j dir m, q = .executing j dir m → m = true) ?_
    (fun pre e _ hother h hex => ?_) fun pre c o r _ _ h hex j dir m hq => ?_
  · rintro ⟨d, o, r, he, -⟩
    cases he
  · obtain ⟨d, o, r, he, hd, ho⟩ := hex
    rcases List.mem_append.mp he with he | he
    · exact h ⟨d, o, r, he, hd, ho⟩
    · exact absurd hd (hother d o r (List.mem_singleton.mp he).symm)
  · cases hstage : (course b).stage a pre with
    | serving tag => rw [hstage] at hq; cases hq
    | submitting known =>
      obtain ⟨known', hnext⟩ := next_submitting b known o r
      rw [hstage, hnext] at hq
      cases hq
    | executing j' dir' m' =>
      have hm : m = (recordingOp o || m') := by
        rw [hstage] at hq
        cases hq
        rfl
      obtain ⟨d, o', r', he, hd, ho⟩ := hex
      rcases List.mem_append.mp he with he | he
      · rw [hm, h ⟨d, o', r', he, hd, ho⟩ j' dir' m' hstage, Bool.or_true]
      · cases List.mem_singleton.mp he
        rw [hm, ho, Bool.true_or]

end

/-! ### Who records a result -/

section
variable {c c' : MemConfig}

/-- No result that is posted is accepted. -/
def Unposted (c : MemConfig) : Prop :=
  ∀ (t : ℕ) (a : Actor) (p : Thread) (worker i : String) (body : Json),
    c.pool[t]? = some (a, p) → a.tag = .request (.jobResult worker i body) →
    resultSchema body = none

theorem Unposted.before (h : Unposted c') (hr : Extends c c') : Unposted c := by
  intro t a p worker i body hp ha
  obtain ⟨p', hp'⟩ := hr.pool t a p hp
  exact h t a p' worker i body hp' ha

/-- The two ways to write into a record. -/
theorem shape_of_recordWrite {o : Op} {j : String} {u : PartialJob}
    (ho : recordWrite o = some (j, u)) : o = .mem (.updateJob j u) ∨ o = .mem (.assign j u) := by
  cases o with
  | mem o =>
    cases o with
    | updateJob i v => cases ho; exact .inl rfl
    | assign i v => cases ho; exact .inr rfl
    | _ => cases ho
  | _ => cases ho

/-- **A result is recorded by the execution of its job**, which has not recorded one before. -/
theorem inline_of_recording (hc : Reachable .memory c) (hun : Unposted c) {t : ℕ} {a : Actor}
    {o : Op} {k : o.Answer → Thread} (hp : c.pool[t]? = some (a, .op o k)) {j : String}
    {u : PartialJob} (ho : recordWrite o = some (j, u)) (hu : recording u = true) :
    a.tag = .inline j ∧ ∃ dir, (course .memory).stage a c.world.log = .executing j dir false := by
  have hallowed := (follows_op.mp ((onCourse hc).conforms.follows t a _ hp)).1
  have hnot : recording u ≠ false := by rw [hu]; decide
  cases hq : (course .memory).stage a c.world.log with
  | executing i dir m =>
    rw [hq] at hallowed
    obtain ⟨rfl, hm⟩ : j = i ∧ (recording u = true → m = false) := by
      rcases shape_of_recordWrite ho with rfl | rfl <;> exact hallowed
    cases hm hu
    exact ⟨tag_of_executing hq, dir, rfl⟩
  | submitting known =>
    rw [hq] at hallowed
    rcases shape_of_recordWrite ho with rfl | rfl
    · exact absurd hallowed.2 hnot
    · exact absurd hallowed hnot
  | serving tag =>
    have htag := tag_of_serving hq
    rw [hq] at hallowed
    rcases shape_of_recordWrite ho with rfl | rfl
    · -- only a post that is accepted would do this
      obtain ⟨worker, body, rfl, hsome⟩ := hallowed hu
      rw [hun t a _ worker j body hp htag] at hsome
      cases hsome
    · exact absurd hallowed hnot

/-- The record of job `i` has the result `r`. -/
def Has (c : MemConfig) (i : String) (r : ExecutionResult) : Prop :=
  ∃ rec, lookup .memory c.world.state i = some rec ∧ rec.result = some r

/-- A call that is made reads nothing. -/
theorem reads_start (w : World) (a : Actor) : reads (w.start a).log = reads w.log := by
  simp [World.start, readOf]

/-- **What is so while no posted result is accepted.** -/
structure Settled (c : MemConfig) : Prop where
  /-- A result that is there was recorded by the execution of the job. -/
  recorded : ∀ i r, Has c i r → ∃ d o ans, .ran d o ans ∈ c.world.log ∧ d.tag = .inline i ∧
    recordingOp o = true
  /-- A job without a result has not ended. -/
  unended : ∀ i rec, lookup .memory c.world.state i = some rec → rec.result = none →
    rec.status.terminal = false
  /-- What has been read of a job is so, or says that it has not ended. -/
  told : ∀ x ∈ reads c.world.log, (x.2.2.result = none → x.2.2.status.terminal = false) ∧
    ∀ r, x.2.2.result = some r → Has c x.2.1 r

/-- **A result that is recorded is not replaced.** -/
theorem Has.step (hc : Reachable .memory c) (h : Settled c) (hun : Unposted c)
    {l : Label Task (apiSystem .memory).Input} (hs : c.step l = some c') {i : String}
    {r : ExecutionResult} (hi : Has c i r) : Has c' i r := by
  cases stepped_of_step hs with
  | arrive hrun hp => exact hi
  | resume hrun hp => exact hi
  | fork hrun hp => exact hi
  | pause hrun hp hsus => exact hi
  | @op t a o k inp ans w hrun hp hf =>
    obtain ⟨rec, hrec, hres⟩ := hi
    rcases record_cases hc hp hf with ⟨j, u, ho, hu, hother, -, hsome⟩ |
      ⟨-, hl | ⟨j, request, now, hnone, -, hother⟩⟩
    · by_cases hij : i = j
      · subst hij
        obtain ⟨rec', hrec', hrew⟩ := hsome rec hrec
        refine ⟨rec', hrec', ?_⟩
        rw [hrew.result]
        rcases update_shape hu with ⟨-, hnone⟩ | ⟨r', -, hsome', -⟩
        · rw [hnone]
          exact hres
        · -- the execution would have recorded a result before
          have hrecording : recording u = true := by rw [recording, hsome']; rfl
          obtain ⟨ha, dir, hq⟩ := inline_of_recording hc hun hp ho hrecording
          obtain ⟨d, o', ans', he, hd, ho'⟩ := h.recorded i r ⟨rec, hrec, hres⟩
          have hwf := (onCourse hc).conforms.wf
          obtain ⟨q, hd'⟩ := hwf.log _ he
          have hsame : d.tid = t := one_execution hc hd' hp hd ha
          have hm := recorded_of_event he (hsame.trans (hwf.tid t a _ hp).symm) ho' hq
          cases hm
      · exact ⟨rec, (hother i hij).trans hrec, hres⟩
    · exact ⟨rec, (hl i).trans hrec, hres⟩
    · have hij : i ≠ j := by
        rintro rfl
        rw [hrec] at hnone
        cases hnone
      exact ⟨rec, (hother i hij).trans hrec, hres⟩

/-- A primitive records a result, or the results are those that were there. -/
theorem has_cases (hc : Reachable .memory c) (hun : Unposted c) {t : ℕ} {a : Actor} {o : Op}
    {k : o.Answer → Thread} {inp : Input} {ans : o.Answer} {w : World}
    (hp : c.pool[t]? = some (a, .op o k)) (hf : c.world.fire a o inp = some (ans, w)) {i : String}
    {rec' : Job} (hrec' : lookup .memory w.state i = some rec') :
    (rec'.result = none ∧ rec'.status.terminal = false) ∨
    (∃ rec, lookup .memory c.world.state i = some rec ∧ rec'.result = rec.result ∧
      (rec.result = none → rec.status.terminal = false → rec'.status.terminal = false)) ∨
    (a.tag = .inline i ∧ recordingOp o = true ∧ rec'.result ≠ none) := by
  rcases record_cases hc hp hf with ⟨j, u, ho, hu, hother, hnone, hsome⟩ |
    ⟨-, hl | ⟨j, request, now, -, hnew, hother⟩⟩
  · by_cases hij : i = j
    · subst hij
      cases hold : lookup .memory c.world.state i with
      | none => rw [hnone hold] at hrec'; cases hrec'
      | some rec =>
        obtain ⟨rec'', hrec'', hrew⟩ := hsome rec hold
        rw [hrec''] at hrec'
        cases hrec'
        rcases update_shape hu with ⟨hstatus, hres⟩ | ⟨r, -, hres, -⟩
        · refine .inr (.inl ⟨rec, rfl, by rw [hrew.result, hres]; rfl, fun _ _ => ?_⟩)
          rw [hrew.status, hstatus]
          rfl
        · have hrecording : recording u = true := by rw [recording, hres]; rfl
          obtain ⟨ha, -⟩ := inline_of_recording hc hun hp ho hrecording
          refine .inr (.inr ⟨ha, ?_, by rw [hrew.result, hres]; exact Option.some_ne_none r⟩)
          rcases shape_of_recordWrite ho with rfl | rfl <;> exact hrecording
    · rw [hother i hij] at hrec'
      exact .inr (.inl ⟨rec', hrec', rfl, fun _ h => h⟩)
  · rw [hl i] at hrec'
    exact .inr (.inl ⟨rec', hrec', rfl, fun _ h => h⟩)
  · by_cases hij : i = j
    · subst hij
      rw [hnew] at hrec'
      cases hrec'
      exact .inl ⟨rfl, rfl⟩
    · rw [hother i hij] at hrec'
      exact .inr (.inl ⟨rec', hrec', rfl, fun _ h => h⟩)

/-- **The steps of the loop keep it.** -/
theorem Settled.step (hc : Reachable .memory c) (h : Settled c) (hun : Unposted c)
    {l : Label Task (apiSystem .memory).Input} (hs : c.step l = some c') : Settled c' := by
  have hhas : ∀ i r, Has c i r → Has c' i r := fun i r hi => hi.step hc h hun hs
  have hlog := (stepped_of_step hs).extends.log
  have hevent : ∀ {i : String}, (∃ d o ans, .ran d o ans ∈ c.world.log ∧ d.tag = .inline i ∧
      recordingOp o = true) → ∃ d o ans, .ran d o ans ∈ c'.world.log ∧ d.tag = .inline i ∧
      recordingOp o = true := by
    rintro i ⟨d, o, ans, he, hrest⟩
    exact ⟨d, o, ans, hlog.subset he, hrest⟩
  have hstarted : ∀ b : Actor, c'.world = c.world.start b → Settled c' := by
    intro b hw
    have hstate : c'.world.state = c.world.state := by rw [hw]; rfl
    refine ⟨fun i r hi => hevent (h.recorded i r ?_), fun i rec hrec => h.unended i rec ?_,
      fun x hx => ?_⟩
    · unfold Has at hi
      rw [hstate] at hi
      exact hi
    · rw [← hstate]
      exact hrec
    · have hx' : x ∈ reads c.world.log := by rwa [hw, reads_start] at hx
      exact ⟨(h.told x hx').1, fun r hr => hhas _ r ((h.told x hx').2 r hr)⟩
  cases stepped_of_step hs with
  | arrive hrun hp => exact hstarted _ rfl
  | fork hrun hp => exact hstarted _ rfl
  | resume hrun hp => exact ⟨h.recorded, h.unended, h.told⟩
  | pause hrun hp hsus => exact ⟨h.recorded, h.unended, h.told⟩
  | @op t a o k inp ans w hrun hp hf =>
    refine ⟨fun i r hi => ?_, fun i rec' hrec' hnone => ?_, fun x hx => ?_⟩
    · obtain ⟨rec', hrec', hres⟩ := hi
      rcases has_cases hc hun hp hf hrec' with ⟨hnone, -⟩ | ⟨rec, hrec, hsame, -⟩ | ⟨ha, ho, -⟩
      · rw [hres] at hnone
        cases hnone
      · exact hevent (h.recorded i r ⟨rec, hrec, hsame.symm.trans hres⟩)
      · obtain ⟨s, -, rfl⟩ := World.fire_eq_some.mp hf
        exact ⟨a, o, ans, List.mem_append_right _ List.mem_cons_self, ha, ho⟩
    · rcases has_cases hc hun hp hf hrec' with ⟨-, hopen⟩ | ⟨rec, hrec, hsame, hopen⟩ |
        ⟨-, -, hsome⟩
      · exact hopen
      · have hnone' : rec.result = none := hsame.symm.trans hnone
        exact hopen hnone' (h.unended i rec hrec hnone')
      · exact absurd hnone hsome
    · obtain ⟨s, hexec, rfl⟩ := World.fire_eq_some.mp hf
      rw [reads_concat] at hx
      rcases List.mem_append.mp hx with hx | hx
      · exact ⟨(h.told x hx).1, fun r hr => hhas _ r ((h.told x hx).2 r hr)⟩
      · -- what is read now is in the record
        have hread : readOf (.ran a o ans) = some x := Option.mem_toList.mp hx
        have hrec : lookup .memory c.world.state x.2.1 = some x.2.2 :=
          Acknowledged.lookup_of_read (b := .memory) (hc.guar hp).1 hexec hread
        exact ⟨h.unended _ _ hrec, fun r hr => hhas _ r ⟨_, hrec, hr⟩⟩

/-- It is so in every run. -/
theorem settled (hc : Reachable .memory c) (hun : Unposted c) : Settled c := by
  induction hc with
  | refl =>
    refine ⟨fun i r hi => ?_, fun i rec hrec => ?_, fun x hx => ?_⟩
    · obtain ⟨rec, hrec, -⟩ := hi
      cases hrec
    · cases hrec
    · simp [reads, Config.init] at hx
  | @step c₁ c₂ l hr _ hs ih =>
    have hun₁ : Unposted c₁ := hun.before (stepped_of_step hs).extends
    exact (ih hun₁).step hr hun₁ hs

/-- Every call that arrives after `c` and reads the record of job `i` finds the result. -/
theorem read_later (hc : Reachable .memory c) (hr : Reaches (AnyStep (apiSystem .memory)) c c')
    (hun : Unposted c') {i : String} {r : ExecutionResult} (hi : Has c i r) :
    Has c' i r ∧ ∀ x ∈ reads c'.world.log, c.pool.length ≤ x.1.tid → x.2.1 = i →
      x.2.2.result = some r := by
  induction hr with
  | refl =>
    refine ⟨hi, fun x hx hlater => ?_⟩
    obtain ⟨e, he, hread⟩ := List.mem_filterMap.mp hx
    obtain ⟨p, hp⟩ := (onCourse hc).conforms.wf.log e he
    have hactor : e.actor = x.1 := by
      unfold readOf at hread
      split at hread <;> cases hread <;> rfl
    rw [hactor] at hp
    have hlt : x.1.tid < c.pool.length := (List.getElem?_eq_some_iff.mp hp).1
    omega
  | @step c₁ c₂ l hr _ hs ih =>
    have hc₁ : Reachable .memory c₁ := hc.trans hr
    have hun₁ : Unposted c₁ := hun.before (stepped_of_step hs).extends
    obtain ⟨hhas, hreads⟩ := ih hun₁
    refine ⟨hhas.step hc₁ (settled hc₁ hun₁) hun₁ hs, fun x hx hlater hxi => ?_⟩
    cases stepped_of_step hs with
    | arrive hrun hp => exact hreads x (by rwa [reads_start] at hx) hlater hxi
    | fork hrun hp => exact hreads x (by rwa [reads_start] at hx) hlater hxi
    | resume hrun hp => exact hreads x hx hlater hxi
    | pause hrun hp hsus => exact hreads x hx hlater hxi
    | @op t a o k inp ans w hrun hp hf =>
      obtain ⟨s, hexec, rfl⟩ := World.fire_eq_some.mp hf
      rw [reads_concat] at hx
      rcases List.mem_append.mp hx with hx | hx
      · exact hreads x hx hlater hxi
      · have hread : readOf (.ran a o ans) = some x := Option.mem_toList.mp hx
        have hrec : lookup .memory c₁.world.state x.2.1 = some x.2.2 :=
          Acknowledged.lookup_of_read (b := .memory) (hc₁.guar hp).1 hexec hread
        obtain ⟨rec, hrec', hres⟩ := hhas
        rw [hxi, hrec'] at hrec
        cases hrec
        exact hres

/-- A status request that was told that the job has ended was told its result. -/
theorem has_of_told (hc : Reachable .memory c) (hun : Unposted c) {t : ℕ} {a : Actor} {i : String}
    {exec : ExecutionResult} (ha : a.tag = .request (.status i))
    (ht : c.pool[t]? = some (a, .done (.reply ⟨200, .result exec⟩)))
    (hended : exec.status.terminal = true) : Has c i exec := by
  have hachieved := hc.achieved ht
  unfold Achieved at hachieved
  rw [ha] at hachieved
  rcases hachieved with ⟨job, hreply, hread, -⟩ | ⟨-, hcode⟩
  · obtain rfl : exec = statusResult job := by
      cases hreply
      rfl
    obtain ⟨hopen, hhas⟩ := (settled hc hun).told _ hread
    cases hres : job.result with
    | none =>
      have hstatus : (statusResult job).status = job.status := by rw [statusResult, hres]; rfl
      rw [hstatus, hopen hres] at hended
      cases hended
    | some r =>
      have hr : statusResult job = r := by rw [statusResult, hres]; rfl
      rw [hr]
      exact hhas r hres
  · exact absurd rfl hcode

/-- A status request that arrives later is told what the record has. -/
theorem told_again (hc : Reachable .memory c) (hr : Reaches (AnyStep (apiSystem .memory)) c c')
    (hun : Unposted c') {i : String} {exec : ExecutionResult} (hhas : Has c i exec) {u : ℕ}
    {d : Actor} {out : Outcome} (hlater : c.pool.length ≤ u) (hd : d.tag = .request (.status i))
    (hu : c'.pool[u]? = some (d, .done out)) : out = .reply ⟨200, .result exec⟩ := by
  have hc' : Reachable .memory c' := hc.trans hr
  obtain ⟨reply, rfl⟩ := hc'.replied hd hu
  have hachieved := hc'.achieved hu
  unfold Achieved at hachieved
  rw [hd] at hachieved
  rcases hachieved with ⟨job, rfl, hread, -⟩ | ⟨hnone, -⟩
  · have htid : d.tid = u := (onCourse hc').conforms.wf.tid u d _ hu
    have hres : job.result = some exec :=
      (read_later hc hr hun hhas).2 _ hread (htid.symm ▸ hlater) rfl
    rw [statusResult, hres]
    rfl
  · obtain ⟨rec, hrec, -⟩ := hhas
    have hknown : i ∈ ids c.world.log := hc.inv.known i rec hrec
    exact absurd (ids_mono (later_born hr hu hlater) hknown) hnone

/-- **What a status request is told of a job that has ended is final**: every status request that
arrives later is told the same. -/
theorem final_answers (hc : Reachable .memory c)
    (hr : Reaches (AnyStep (apiSystem .memory)) c c') (hun : Unposted c') {t : ℕ} {a : Actor}
    {i : String} {exec : ExecutionResult} (ha : a.tag = .request (.status i))
    (ht : c.pool[t]? = some (a, .done (.reply ⟨200, .result exec⟩)))
    (hended : exec.status.terminal = true) (u : ℕ) (d : Actor) (out : Outcome)
    (hlater : c.pool.length ≤ u) (hd : d.tag = .request (.status i))
    (hu : c'.pool[u]? = some (d, .done out)) : out = .reply ⟨200, .result exec⟩ := by
  have hhas : Has c i exec := has_of_told hc (hun.before hr.extends) ha ht hended
  exact told_again hc hr hun hhas hlater hd hu

end

/-- A job is submitted and executed, and a client is told its result. -/
def executed : List (Label Task Input) := submission 0 ++ inlineExecution 1 ++ question 2

/-- A worker claims the job nevertheless, which is `running` again; a client is told the result. -/
theorem final_answers_run : ∃ c c' a d exec, (start .memory).run executed = some c ∧
    c.run (poll 3 ++ question 4) = some c' ∧
    c.pool[2]? = some (a, .done (.reply ⟨200, .result exec⟩)) ∧ exec.status = .completed ∧
    c'.pool[4]? = some (d, .done (.reply ⟨200, .result exec⟩)) := by
  obtain ⟨c, hc⟩ : ∃ c, (start .memory).run executed = some c := Option.isSome_iff_exists.mp rfl
  have htold : ∃ a exec, ((start .memory).run executed).bind (fun c => c.pool[2]?) =
      some (a, .done (.reply ⟨200, .result exec⟩)) ∧ a.tag = .request (.status "job") ∧
      exec.status = .completed := ⟨_, _, rfl, rfl, rfl⟩
  have hsome : (((start .memory).run executed).bind
      fun c => c.run (poll 3 ++ question 4)).isSome = true := rfl
  have hpool : (((start .memory).run executed).bind fun c => c.run (poll 3 ++ question 4)).map
      (fun c => c.pool.map fun x => x.1.tag) = some [.request (.execute
        (.obj [("language", .str "python"), ("code", .str "print(1)")])), .inline "job",
        .request (.status "job"), .request (.jobsNext "w"), .request (.status "job")] := rfl
  have hlast : ∃ d out, (((start .memory).run executed).bind
      fun c => c.run (poll 3 ++ question 4)).bind (fun c => c.pool[4]?) = some (d, .done out) ∧
      d.tag = .request (.status "job") := ⟨_, _, rfl, rfl⟩
  have hlength : ((start .memory).run executed).map (fun c => c.pool.length) = some 3 := rfl
  rw [hc] at htold hsome hpool hlast hlength
  obtain ⟨a, exec, ht, ha, hstatus⟩ := htold
  rw [Option.bind_some] at ht hsome
  obtain ⟨c', hc'⟩ := Option.isSome_iff_exists.mp hsome
  rw [Option.bind_some, hc'] at hpool
  rw [Option.bind_some, hc'] at hlast
  obtain ⟨d, out, hu, hd⟩ := hlast
  rw [Option.bind_some] at hu
  have hun : Unposted c' := by
    intro t b p worker i body hp hb
    have hmem := List.mem_map_of_mem (f := fun x : Actor × Thread => x.1.tag)
      (List.mem_of_getElem? hp)
    rw [Option.map_some, Option.some_inj] at hpool
    rw [hpool, hb] at hmem
    simp at hmem
  have hended : exec.status.terminal = true := by rw [hstatus]; rfl
  have hlater : c.pool.length ≤ 4 := by
    have hthree : c.pool.length = 3 := Option.some.inj hlength
    omega
  refine ⟨c, c', a, d, exec, hc, hc', ht, hstatus, ?_⟩
  have hsame := final_answers (reaches_of_run hc) (reaches_of_run hc') hun ha ht hended 4 d out
    hlater hd hu
  rw [← hsame]
  exact hu

end CodeHive.Api.FinalAnswers
