import CodeHive.Api.ListLogic

/-! # The handlers keep the invariant

`terms b` says what the calls of the API do: which updates they make, which of them touches the
queue, and what each request has achieved when it is answered. Every call that arrives is safe on
these terms (`entries`), whatever the others do meanwhile. -/

namespace CodeHive.Api.Handlers

set_option autoImplicit false

open CodeHive.Js.Value CodeHive.Api.Types CodeHive.Api.Stores CodeHive.Api.Messages
open CodeHive.Api.Program CodeHive.Api.Queue CodeHive.Api.Executor CodeHive.Api.Routes
open CodeHive.Api.System CodeHive.Api.History CodeHive.Api.Invariant CodeHive.Api.Logic
open CodeHive.Api.ListLogic
open CodeHive.Concurrency.Calls CodeHive.Concurrency.Pool CodeHive.Concurrency.RelyGuarantee

/-! ### The terms -/

/-- What every update keeps of the record of a job: what it is, and that a result is its own. -/
structure Keeps (job rec : Job) : Prop where
  id : rec.id = job.id
  type : rec.type = job.type
  payload : rec.payload = job.payload
  createdAt : rec.createdAt = job.createdAt
  result : ∀ r, rec.result = some r → r.id = job.id

/-- An update of job `i` that names nothing of what is kept. -/
structure Benign (i : String) (u : PartialJob) : Prop where
  id : u.id = none
  type : u.type = none
  payload : u.payload = none
  createdAt : u.createdAt = none
  result : ∀ r, u.result = some (some r) → r.id = i

theorem keeps_assign {job rec : Job} {u : PartialJob} (hu : Benign job.id u) (hk : Keeps job rec) :
    Keeps job (rec.assign u) where
  id := by simp only [Job.assign, hu.id]; exact hk.id
  type := by simp only [Job.assign, hu.type]
  payload := by simp only [Job.assign, hu.payload]; exact hk.payload
  createdAt := by simp only [Job.assign, hu.createdAt]; exact hk.createdAt
  result r hr := by
    cases hur : u.result with
    | none =>
      simp only [Job.assign, hur, Option.getD_none] at hr
      exact hk.result r hr
    | some x =>
      simp only [Job.assign, hur, Option.getD_some] at hr
      exact hu.result r (by rw [hur, hr])

/-- The update by which a worker claims a job. -/
def claimUpdate (worker : String) : PartialJob :=
  { workerId := some (some worker), status := some .running }

/-- The update by which a result is recorded. -/
def resultUpdate (jobId : String) (r : ResultBody) : PartialJob :=
  { status := some r.status, result := some (some (r.toResult jobId)), workerId := some none }

/-- **The updates of job `i` that call `a` may make.** -/
inductive Update (a : Actor) (i : String) : PartialJob → Prop where
  | exec {u : PartialJob} (h : ExecUpdate i u) : Update a i u
  | claim {worker : String} (ha : a.tag = .request (.jobsNext worker)) :
      Update a i (claimUpdate worker)
  | post {worker : String} {body : Json} {r : ResultBody}
      (ha : a.tag = .request (.jobResult worker i body)) (hr : resultSchema body = some r) :
      Update a i (resultUpdate i r)

theorem Update.benign {a : Actor} {i : String} {u : PartialJob} (h : Update a i u) :
    Benign i u := by
  cases h with
  | exec h =>
    cases h with
    | start => exact ⟨rfl, rfl, rfl, rfl, fun _ hr => by cases hr⟩
    | finish res hid => exact ⟨rfl, rfl, rfl, rfl, fun r hr => by cases hr; exact hid⟩
  | claim => exact ⟨rfl, rfl, rfl, rfl, fun _ hr => by cases hr⟩
  | post => exact ⟨rfl, rfl, rfl, rfl, fun r hr => by cases hr; rfl⟩

/-- A submission, and a poll of the queue. -/
def Submits (a : Actor) : Prop := ∃ body, a.tag = .request (.execute body)
def Polls (a : Actor) : Prop := ∃ worker, a.tag = .request (.jobsNext worker)

/-- What call `a` may perform. -/
def Permits (a : Actor) : Op → Prop
  | .mem (.enqueue job) => Submits a ∧ ∃ i request now, job = newJob i request now
  | .mem .dequeue => Polls a
  | .mem (.updateJob i u) => Update a i u
  | .mem (.assign i u) => ExecUpdate i u
  | .redis (.set key rec) =>
    ∃ i u old now, key = jobKey i ∧ rec = Job.update old u now ∧ Update a i u
  | .redis (.multiSetLpush _ job _ _) => Submits a ∧ ∃ i request now, job = newJob i request now
  | .redis (.rpop _) => Polls a
  | _ => True

/-- An answered submission: its one job is enqueued and `executeJob` was called for it, or it was
refused. -/
def Submitted (a : Actor) (w : World) (r : Reply) : Prop :=
  (∃ job language, r = ⟨202, .queued job.id language⟩ ∧ ownEnqueues w.log a.tid = [job] ∧
    ∃ c : Actor, .started c ∈ w.log ∧ c.tag = .inline job.id) ∨
  (r.code = 400 ∧ ownEnqueues w.log a.tid = [])

/-- An answered status request: it tells what it read, or the job was not there when it arrived. -/
def Told (b : Backend) (i : String) (a : Actor) (w : World) (r : Reply) : Prop :=
  (∃ job, r = ⟨200, .result (statusResult job)⟩ ∧ (a, recordKey b i, job) ∈ reads w.log ∧
    ∃ x ∈ enqueues w.log, x.2.id = i ∧ Keeps x.2 job) ∨
  (i ∉ ids (w.log.take a.born) ∧ r.code ≠ 200)

/-- An answered poll: it hands out the job that it took off the queue, or took none. -/
def Polled (a : Actor) (w : World) (r : Reply) : Prop :=
  (r = ⟨204, .none⟩ ∧ ownPops w.log a.tid = []) ∨
  ∃ job, r = ⟨200, .job job⟩ ∧ ownPops w.log a.tid = [job.id]

/-- An answered result: it has been written, unless it was refused. -/
def Posted (b : Backend) (i : String) (body : Json) (a : Actor) (w : World) (r : Reply) : Prop :=
  r.code = 200 →
    ∃ result, resultSchema body = some result ∧ Wrote b a w.log i (resultUpdate i result)

/-- What holds when a call of the API has settled. -/
def Achieved (b : Backend) (a : Actor) (out : Outcome) (w : World) : Prop :=
  match a.tag, out with
  | .request (.execute _), .reply r => Submitted a w r
  | .request (.status i), .reply r => Told b i a w r
  | .request (.jobsNext _), .reply r => Polled a w r
  | .request (.jobResult _ i body), .reply r => Posted b i body a w r
  | .request _, out => ∃ r, out = .reply r
  | _, _ => True

/-- **The terms of the API.** -/
def terms (b : Backend) : Terms where
  b := b
  benign := Benign
  keeps := Keeps
  benign_updatedAt _ _ := ⟨rfl, rfl, rfl, rfl, fun _ hr => by cases hr⟩
  keeps_new _ _ _ := ⟨rfl, rfl, rfl, rfl, fun _ hr => by cases hr⟩
  keeps_assign _ _ _ := keeps_assign
  allowed := Permits
  plain a o h := by
    cases o with
    | host o => trivial
    | mem c => cases c <;> trivial
    | redis c => cases c <;> trivial
  post := Achieved b

/-! ### The handlers -/

variable {b : Backend} {entry : Task → Option Thread} {a : Actor} {w : World}

theorem executes (i : String) : Executes (terms b) b a i where
  benign _ h := (Update.exec (a := a) h).benign
  update u h o ho := by
    cases b with
    | memory => cases ho; exact Update.exec h
    | redis =>
      obtain ⟨rec, now, rfl⟩ := ho
      exact ⟨i, u, rec, now, rfl, rfl, .exec h⟩
  assign _ h := h

theorem permits_update {i : String} {u : PartialJob} (h : Update a i u) (o : Op)
    (ho : UpdateOp b i u o) : (terms b).allowed a o := by
  cases b with
  | memory => cases ho; exact h
  | redis =>
    obtain ⟨rec, now, rfl⟩ := ho
    exact ⟨i, u, rec, now, rfl, rfl, h⟩

/-- A request is answered. -/
theorem safe_reply {r : Reply}
    (h : ∀ w', Rely a.tid w w' → Inv (terms b) w' → Achieved b a (.reply r) w') :
    Safe (spec (terms b) entry) (.done (.reply r)) a w := fun w' hr hi => h w' hr hi

theorem safe_postExecute {body : Json} (ha : a.tag = .request (.execute body)) (hf : Fresh a w)
    (h : Inv (terms b) w) :
    Safe (spec (terms b) entry) ((postExecute b body).toThread replied) a w := by
  have hrefuse : ∀ err, (sendError err).code = 400 →
      Safe (spec (terms b) entry) (.done (.reply (sendError err))) a w := by
    intro err herr
    refine safe_reply fun w' hr _ => ?_
    simp only [Achieved, ha]
    exact Or.inr ⟨herr, hr.enqueues.trans hf.enqueues⟩
  unfold postExecute
  cases hs : codeSubmitSchema body with
  | none => exact hrefuse _ rfl
  | some submit =>
    by_cases hl : submit.language ∈ SUPPORTED
    · simp only [hl, if_true]
      refine safe_enqueue (b := b) rfl h trivial (fun i now => ?_)
        fun obj job w₁ hlog hen hpop h₁ ho w₂ hr₂ h₂ => ?_
      · cases b <;> exact ⟨⟨body, ha⟩, i, _, now, rfl⟩
      · refine safe_read h₂ (ho.mono hr₂.log) fun rec w₃ hr₃ h₃ hx _ => ?_
        obtain ⟨x, hx, hxi, hkeep⟩ := hx
        have hid : rec.id = job.id := hkeep.id.trans hxi
        refine safe_inline rfl h₃ (executes _) (fun _ _ => executes _)
          (fun c r w' hc => by simp [terms, Achieved, hc]) fun w₄ hr₄ h₄ hc => ?_
        refine safe_reply fun w₅ hr₅ _ => ?_
        simp only [Achieved, ha]
        refine Or.inl ⟨job, submit.language, ?_, ?_, ?_⟩
        · exact congrArg (fun i => (⟨202, .queued i submit.language⟩ : Reply)) hid
        · rw [(hr₂.trans (hr₃.trans (hr₄.trans hr₅))).enqueues, hen, hf.enqueues, List.nil_append]
        · obtain ⟨c, hc, htag⟩ := hc
          exact ⟨c, hr₅.log.subset hc, hid ▸ htag⟩
    · simp only [hl, if_false]
      exact hrefuse _ rfl

theorem safe_getStatus {i : String} (ha : a.tag = .request (.status i)) (hf : Fresh a w)
    (h : Inv (terms b) w) :
    Safe (spec (terms b) entry) ((getStatus b i).toThread replied) a w := by
  have hrefuse : ∀ err w₁, Rely a.tid w w₁ → (sendError err).code ≠ 200 → i ∉ ids w.log →
      Safe (spec (terms b) entry) (.done (.reply (sendError err))) a w₁ := by
    intro err w₁ hr₁ herr hi
    refine safe_reply fun w₂ hr₂ _ => ?_
    simp only [Achieved, ha]
    refine Or.inr ⟨fun hmem => hi ?_, herr⟩
    have hlog : w.log <+: w₂.log := (hr₁.trans hr₂).log
    obtain ⟨l, hl⟩ := hlog
    rw [← hl, List.take_append_of_le_length hf.born] at hmem
    exact ids_mono (List.take_prefix _ _) hmem
  unfold getStatus
  by_cases hi : i = ""
  · simp only [hi, if_true]
    exact hrefuse _ w (.refl _ _) (by decide) fun hmem => h.ne_empty hmem hi
  · simp only [hi, if_false]
    have hcode : (sendError (NotFoundError "Job" i)).code ≠ 200 := by
      simp [NotFoundError, sendError]
    refine safe_getJob (b := b) rfl h (fun obj w₁ hr₁ h₁ ho hs w₂ hr₂ h₂ => ?_)
      fun w₁ hr₁ h₁ hn w₂ hr₂ h₂ => hrefuse _ w₂ (hr₁.trans hr₂) hcode hn
    refine safe_read h₂ (ho.mono hr₂.log) fun job w₃ hr₃ h₃ hx hread => ?_
    refine safe_reply fun w₄ hr₄ _ => ?_
    simp only [Achieved, ha]
    refine Or.inl ⟨job, rfl, ?_, ?_⟩
    · exact (hr₄.log.filterMap _).subset (hread (hs.mono hr₂.log))
    · obtain ⟨x, hx, hxi, hkeep⟩ := hx
      exact ⟨x, (hr₄.log.filterMap _).subset hx, hxi, hkeep⟩

theorem safe_getJobsNext {worker : String} (ha : a.tag = .request (.jobsNext worker))
    (hf : Fresh a w) (h : Inv (terms b) w) :
    Safe (spec (terms b) entry) ((getJobsNext b worker).toThread replied) a w := by
  refine safe_dequeue (b := b) rfl h (by cases b <;> exact ⟨worker, ha⟩)
    (fun i obj w₁ hlog hen hpop h₁ ho w₂ hr₂ h₂ => ?_) fun w₁ hr₁ h₁ w₂ hr₂ h₂ => ?_
  · refine safe_read h₂ (ho.mono hr₂.log) fun job w₃ hr₃ h₃ hx _ => ?_
    obtain ⟨x, hx, hxi, hkeep⟩ := hx
    have hknown : job.id ∈ ids w₃.log := mem_ids.mpr ⟨x, hx, hkeep.id.symm⟩
    refine safe_updateJob (b := b) rfl h₃ (Update.claim ha).benign (permits_update (.claim ha))
      (fun w₄ hr₄ h₄ _ _ w₅ hr₅ h₅ => ?_) fun _ _ _ hn => absurd hknown hn
    have hr : Rely a.tid w₁ w₅ := hr₂.trans (hr₃.trans (hr₄.trans hr₅))
    refine safe_read h₅ (ho.mono hr.log) fun rec w₆ hr₆ h₆ hx' _ => ?_
    obtain ⟨x', -, hxi', hkeep'⟩ := hx'
    refine safe_reply fun w₇ hr₇ _ => ?_
    simp only [Achieved, ha]
    refine Or.inr ⟨rec, rfl, ?_⟩
    rw [(hr.trans (hr₆.trans hr₇)).pops, hpop, hf.pops, List.nil_append]
    exact congrArg (fun i => [i]) (hkeep'.id.trans hxi').symm
  · refine safe_reply fun w₃ hr₃ _ => ?_
    simp only [Achieved, ha]
    exact Or.inl ⟨rfl, (hr₁.trans (hr₂.trans hr₃)).pops.trans hf.pops⟩

theorem safe_postJobResult {worker i : String} {body : Json}
    (ha : a.tag = .request (.jobResult worker i body)) (h : Inv (terms b) w) :
    Safe (spec (terms b) entry) ((postJobResult b i body).toThread replied) a w := by
  have hrefuse : ∀ r w₁, r.code ≠ 200 →
      Safe (spec (terms b) entry) (.done (.reply r)) a w₁ := by
    intro r w₁ hr
    refine safe_reply fun w₂ _ _ => ?_
    simp only [Achieved, ha]
    exact fun h200 => absurd h200 hr
  unfold postJobResult
  cases hs : resultSchema body with
  | none => exact hrefuse _ w (by decide)
  | some r =>
    have hup : Update a i (resultUpdate i r) := .post ha hs
    refine safe_getJob (b := b) rfl h (fun obj w₁ hr₁ h₁ ho _ w₂ hr₂ h₂ => ?_)
      fun w₁ _ _ _ w₂ _ _ => hrefuse _ w₂ (by simp)
    refine safe_updateJob (b := b) rfl h₂ hup.benign (permits_update hup)
      (fun w₃ hr₃ h₃ _ hw w₄ hr₄ h₄ => ?_) fun w₃ _ _ _ w₄ _ _ =>
        hrefuse _ w₄ (by simp [jobNotFound, sendError])
    refine safe_reply fun w₅ hr₅ _ => ?_
    simp only [Achieved, ha]
    refine fun _ => ⟨r, hs, ?_⟩
    exact hw.mono (hr₄.trans hr₅).log.subset

/-- The requests of which nothing is said. -/
theorem safe_replied {x : Except JsError Reply}
    (h : ∀ r w', Achieved b a (.reply r) w') :
    Safe (spec (terms b) entry) (.done (replied x)) a w := by
  cases x <;> exact safe_reply fun w' _ _ => h _ w'

theorem safe_getExecutions {limit offset : Number}
    (ha : a.tag = .request (.executions limit offset)) (h : Inv (terms b) w) :
    Safe (spec (terms b) entry) ((getExecutions b limit offset).toThread replied) a w := by
  have hreply : ∀ x w', Safe (spec (terms b) entry) (.done (replied x)) a w' := fun x w' =>
    safe_replied fun r _ => by simp [Achieved, ha]
  refine safe_getJobs (b := b) rfl h (fun objs w₁ hr₁ h₁ hall => ?_)
    fun err w₁ _ _ w₂ _ _ => hreply (.ok (sendError err)) w₂
  refine safe_getJobCount (b := b) rfl h₁ (fun n w₂ hr₂ h₂ w₃ hr₃ h₃ => ?_)
    fun err w₂ _ _ w₃ _ _ => hreply (.ok (sendError err)) w₃
  refine safe_readAll h₃ (fun obj hobj => ?_) fun jobs w₄ _ _ => hreply (.ok ⟨200, _⟩) w₄
  obtain ⟨i, ho⟩ := hall obj hobj
  exact ⟨i, ho.mono (hr₂.trans hr₃).log⟩

theorem safe_getStats (ha : a.tag = .request .stats) (h : Inv (terms b) w) :
    Safe (spec (terms b) entry) ((getStats b).toThread replied) a w := by
  have hreply : ∀ x w', Safe (spec (terms b) entry) (.done (replied x)) a w' := fun x w' =>
    safe_replied fun r _ => by simp [Achieved, ha]
  refine safe_host nofun h fun now w₁ _ h₁ => ?_
  refine safe_getJobCount (b := b) rfl h₁ (fun day w₂ _ h₂ => ?_)
    fun err w₂ _ _ w₃ _ _ => hreply (.ok (sendError err)) w₃
  refine safe_getJobCount (b := b) rfl h₂ (fun week w₃ _ h₃ => ?_)
    fun err w₃ _ _ w₄ _ _ => hreply (.ok (sendError err)) w₄
  refine safe_getJobs (b := b) rfl h₃ (fun objs w₄ _ h₄ hall w₅ hr₅ h₅ => ?_)
    fun err w₄ _ _ w₅ _ _ => hreply (.ok (sendError err)) w₅
  refine safe_readAll h₅ (fun obj hobj => ?_) fun jobs w₆ _ h₆ => ?_
  · obtain ⟨i, ho⟩ := hall obj hobj
    exact ⟨i, ho.mono hr₅.log⟩
  · exact safe_avgDuration h₆ fun x w₇ _ _ => hreply (.ok ⟨200, _⟩) w₇

/-- **Every request is safe**, on either backend. -/
theorem entries (b : Backend) : Entries (spec (terms b) (apiEntry b)) := by
  intro tag p hp c w htag h hnew w' hr h'
  cases tag with
  | request request =>
    cases hp
    have hf : Fresh c w' := (Fresh.start hnew).mono hr
    cases request with
    | execute body => exact safe_postExecute htag hf h'
    | status i => exact safe_getStatus htag hf h'
    | jobsNext worker => exact safe_getJobsNext htag hf h'
    | jobResult worker i body => exact safe_postJobResult htag h'
    | heartbeat worker body =>
      change Safe _ ((postHeartbeat body).toThread replied) c w'
      unfold postHeartbeat
      split <;> exact safe_reply fun _ _ _ => by simp [Achieved, htag]
    | executions limit offset => exact safe_getExecutions htag h'
    | stats => exact safe_getStats htag h'
  | inline jobId => cases hp
  | call call => cases hp

end CodeHive.Api.Handlers
