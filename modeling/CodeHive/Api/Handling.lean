import CodeHive.Api.Handlers
import CodeHive.Concurrency.Triples

/-! # Calls on Redis that keep a specification

Apart from the polls, the calls of the API on Redis only read, enqueue new jobs and make the updates
they may make. A specification that lets them do this (`Rules`) is kept by all of them, and what is
left to show for it is about the polls (`Rules.entries`). -/

namespace CodeHive.Api.Handling

set_option autoImplicit false

open CodeHive.Js.Value CodeHive.Api.Types CodeHive.Api.Stores CodeHive.Api.Messages
open CodeHive.Api.Program CodeHive.Api.Queue CodeHive.Api.Executor CodeHive.Api.Routes
open CodeHive.Api.System CodeHive.Api.History CodeHive.Api.ListLogic CodeHive.Api.Handlers
open CodeHive.Concurrency CodeHive.Concurrency.Calls CodeHive.Concurrency.Pool
open CodeHive.Concurrency.RelyGuarantee CodeHive.Concurrency.Triples

variable {sys : System api Task Outcome}

/-- The computation keeps the specification as part of call `a`. -/
def Fine (sp : Spec sys) (a : Actor) {α : Type} (p : Async α) : Prop :=
  Triple sp a (fun _ => True) p (fun _ _ => True) fun _ _ => True

/-- The computation keeps the specification, and all it returns satisfies `C`. -/
def Yields (sp : Spec sys) (a : Actor) {α : Type} (p : Async α) (C : α → Prop) : Prop :=
  Triple sp a (fun _ => True) p (fun x _ => C x) fun _ _ => True

/-- **What the calls do on Redis**, the polls apart. -/
structure Rules (sp : Spec sys) : Prop where
  host : ∀ a o, Fine sp a (host o)
  get : ∀ a i, Fine sp a (await (redis (.get (jobKey i))))
  lrange : ∀ a start stop, Fine sp a (await (redis (.lrange QUEUE_KEY start stop)))
  llen : ∀ a, Fine sp a (await (redis (.llen QUEUE_KEY)))
  enqueue : ∀ a request, Yields sp a (enqueue .redis request) fun obj => ∃ job, obj = .parsed job
  update : ∀ a i u, ¬ Polls a → Update a i u → Fine sp a (updateJob .redis i u)
  /-- Of a call that is no poll nothing is asked at its end. -/
  post : ∀ a out w, ¬ Polls a → sp.inv w → sp.post a out w

variable {sp : Spec sys} {a : Actor}

section
variable {α β : Type} {p : Async α} {f : α → Async β} {C : α → Prop}

theorem Yields.bind {D : β → Prop} (hp : Yields sp a p C) (hf : ∀ x, C x → Yields sp a (f x) D) :
    Yields sp a (p >>= f) D :=
  Triple.bind hp fun x => Triple.of_pre (fun _ hw => hw) fun hx =>
    (hf x hx).conseq (fun _ _ _ => trivial) (fun _ _ hw => hw) fun _ _ hw => hw

theorem Yields.pure {x : α} (hx : C x) : Yields sp a (pure x : Async α) C :=
  triple_pure fun _ _ => hx

theorem Yields.await (hp : Yields sp a p C) : Yields sp a (await p) C :=
  Triple.await hp (fun _ _ _ h _ _ => h) fun _ _ _ h _ _ => h

theorem Fine.yields (hp : Fine sp a p) : Yields sp a p fun _ => True := hp

theorem Fine.bind (hp : Fine sp a p) (hf : ∀ x, Fine sp a (f x)) : Fine sp a (p >>= f) :=
  Triple.bind hp hf

theorem Yields.then (hp : Yields sp a p C) (hf : ∀ x, C x → Fine sp a (f x)) :
    Fine sp a (p >>= f) := Yields.bind hp hf

theorem Fine.pure (x : α) : Fine sp a (pure x : Async α) := triple_pure fun _ hw => hw

theorem Fine.throw (err : JsError) : Fine sp a (throw err : Async α) :=
  fun _ _ w hw _ _ he => he err w hw trivial

theorem Fine.await (hp : Fine sp a p) : Fine sp a (Calls.await p) := Yields.await hp

theorem Fine.tryCatch {h : JsError → Async α} (hp : Fine sp a p) (hh : ∀ err, Fine sp a (h err)) :
    Fine sp a (tryCatch p h) := Triple.tryCatch hp hh

theorem Fine.tryFinally {fin : Async Unit} (hp : Fine sp a p) (hfin : Fine sp a fin) :
    Fine sp a (tryFinally p fin) := Triple.tryFinally hp (fun _ => hfin) fun _ => hfin

theorem fine_settle (r : Except JsError α) : Fine sp a (settle r : Async α) :=
  triple_settle (fun _ _ _ _ => trivial) fun _ _ _ _ => trivial

end

/-! ### The queue service -/

namespace Rules

variable (h : Rules sp)
include h

theorem fine_isoNow : Fine sp a isoNow := (h.host a .now).bind fun _ => Fine.pure _

theorem yields_getJob (i : String) :
    Yields sp a (getJob .redis i) fun obj => ∃ r, obj = Option.map JobObj.parsed r :=
  Yields.bind (h.get a i).yields fun r _ => Yields.pure ⟨r, rfl⟩

theorem fine_getAll (l : List String) : Fine sp a (getAll l) := by
  induction l with
  | nil => exact Fine.pure _
  | cons i l ih => exact (h.get a i).bind fun _ => ih.bind fun _ => Fine.pure _

theorem yields_getJobs (limit offset : Number) (since : Option String) :
    Yields sp a (getJobs .redis limit offset since) fun objs =>
      ∃ jobs : List Job, objs = jobs.map .parsed := by
  refine Yields.bind (h.lrange a offset _).yields fun l _ => ?_
  exact Yields.bind (h.fine_getAll l).yields fun jobs _ => Yields.pure ⟨_, rfl⟩

theorem fine_getJobCount (since : Option String) : Fine sp a (getJobCount .redis since) := by
  unfold getJobCount
  cases truthy since with
  | none => exact h.llen a
  | some s =>
    refine (h.lrange a _ _).bind fun l => ?_
    exact (h.fine_getAll l).bind fun jobs => Fine.pure _

omit h in
theorem fine_readAll (jobs : List Job) : Fine sp a (readAll (jobs.map .parsed)) := by
  induction jobs with
  | nil => exact Fine.pure _
  | cons job jobs ih => exact ih.bind fun _ => Fine.pure _

/-! ### The executor -/

section
variable {jobId language code startedAt : String} {stdin : Option String} {timeoutSec : Finite}

theorem fine_runFile {file : String} {cfg : LangCfg} :
    Fine sp a (runFile .redis jobId language stdin timeoutSec startedAt cfg file) := by
  refine (h.host a _).bind fun _ => Fine.bind ?_ fun p => (h.host a _).bind fun _ =>
    h.fine_isoNow.bind fun _ => (h.yields_getJob jobId).await.then fun obj hobj => ?_
  · exact ((h.host a (.runProcess cfg file stdin timeoutSec)).bind
      fun r : Except JsError ProcResult => fine_settle r).await
  · obtain ⟨r, rfl⟩ := hobj
    cases r <;> exact Fine.pure _

theorem fine_runAndRecord {dir file : String} {cfg : LangCfg} :
    Fine sp a
      (runAndRecord .redis jobId language code stdin timeoutSec startedAt dir cfg file) := by
  refine (h.host a _).bind fun r => (fine_settle r).bind fun _ => ?_
  split_ifs
  · exact (h.host a _).bind fun r => (fine_settle r).bind fun _ => h.fine_runFile
  · exact h.fine_runFile

theorem fine_afterStart (ha : ¬ Polls a) :
    Fine sp a (afterStart .redis jobId language code stdin timeoutSec startedAt) := by
  refine (h.host a _).bind fun r => (fine_settle r).bind fun dir => ?_
  refine Fine.tryFinally (h.fine_runAndRecord.tryCatch fun err => ?_) (h.host a _)
  refine h.fine_isoNow.bind fun now => ?_
  have hfinish := ExecUpdate.finish (failureOf jobId language err startedAt now) rfl (Or.inr rfl)
  exact (h.update a jobId _ ha (.exec hfinish)).await

/-- **`executeJob` is called and not awaited.** -/
theorem fine_inline : Fine sp a (detach (.inline jobId)
    (executeJob .redis jobId language code stdin timeoutSec) Outcome.settled) := by
  intro k e w hw _ hk _
  refine h.host a .now _ (fun _ => k ()) w hw trivial (fun r w₁ hw₁ _ => ?_) fun _ w₁ hw₁ _ => ?_
  · intro c hc htag
    have hpolls : ¬ Polls c := by
      rintro ⟨worker, hworker⟩
      rw [htag] at hworker
      cases hworker
    have hrest : Fine sp c (do
        Calls.await (updateJob .redis jobId { status := some .running })
        afterStart .redis jobId language code stdin timeoutSec (toISOString r)) :=
      Fine.bind (h.update c jobId _ hpolls (.exec .start)).await fun _ => h.fine_afterStart hpolls
    have hw₂ : sp.inv (w₁.start c) := (sp.start w₁ c hw₁ hc).1
    have hpost : ∀ (out : Outcome) (w' : World sys.toMachine Task), sp.inv w' →
        Safe sp (.done out) c w' := fun out w' _ w'' _ hw'' => h.post c out w'' hpolls hw''
    refine ⟨?_, hk () _ hw₂ trivial⟩
    exact hrest _ _ (w₁.start c) hw₂ trivial
      (fun x w' hw' _ => hpost _ w' hw') fun err w' hw' _ => hpost _ w' hw'
  · exact hk () w₁ hw₁ trivial

end

/-! ### The handlers -/

theorem fine_postExecute (body : Json) : Fine sp a (postExecute .redis body) := by
  refine Fine.tryCatch ?_ fun _ => Fine.pure _
  cases codeSubmitSchema body with
  | none => exact Fine.throw _
  | some submit =>
    by_cases hl : submit.language ∈ SUPPORTED
    · simp only [hl, if_true]
      refine (h.enqueue a _).await.then fun obj hobj => ?_
      obtain ⟨job, rfl⟩ := hobj
      exact Fine.bind (Fine.pure job) fun _ => Fine.bind h.fine_inline fun _ => Fine.pure _
    · simp only [hl, if_false]
      exact Fine.throw _

theorem fine_getStatus (i : String) : Fine sp a (getStatus .redis i) := by
  refine Fine.tryCatch ?_ fun _ => Fine.pure _
  by_cases hi : i = ""
  · simp only [hi, if_true]
    exact Fine.throw _
  · simp only [hi, if_false]
    refine (h.yields_getJob i).await.then fun obj hobj => ?_
    obtain ⟨r, rfl⟩ := hobj
    cases r with
    | none => exact Fine.throw _
    | some rec => exact Fine.pure _

theorem fine_postJobResult {worker i : String} {body : Json}
    (ha : a.tag = .request (.jobResult worker i body)) :
    Fine sp a (postJobResult .redis i body) := by
  refine Fine.tryCatch ?_ fun _ => Fine.pure _
  cases hs : resultSchema body with
  | none => exact Fine.throw _
  | some r =>
    refine (h.yields_getJob i).await.then fun obj hobj => ?_
    obtain ⟨rec, rfl⟩ := hobj
    cases rec with
    | none => exact Fine.pure _
    | some rec =>
      have hpolls : ¬ Polls a := by
        rintro ⟨worker', hworker⟩
        rw [ha] at hworker
        cases hworker
      exact Fine.bind (h.update a i _ hpolls (.post ha hs)).await fun _ => Fine.pure _

theorem fine_getExecutions (limit offset : Number) :
    Fine sp a (getExecutions .redis limit offset) := by
  refine Fine.tryCatch ?_ fun _ => Fine.pure _
  have hread : Yields sp a (do
      let items ← getJobs .redis ((limit.or (.fin 50)).min (.fin 200)) (offset.or (.fin 0)) none
      let total ← getJobCount .redis none
      return (items, total)) fun x => ∃ jobs : List Job, x.1 = jobs.map .parsed :=
    (h.yields_getJobs _ _ _).bind fun objs hobjs => (h.fine_getJobCount none).yields.bind
      fun n _ => Yields.pure hobjs
  refine hread.await.then fun x hx => ?_
  obtain ⟨jobs, hjobs⟩ := hx
  simp only [hjobs]
  exact (fine_readAll jobs).bind fun _ => Fine.pure _

theorem fine_sumDurations (sum : Number) (jobs : List Job) :
    Fine sp a (sumDurations sum jobs) := by
  induction jobs generalizing sum with
  | nil => exact Fine.pure _
  | cons job jobs ih =>
    unfold sumDurations
    split
    · exact (h.host a _).bind fun _ => (h.host a _).bind fun _ => ih _
    · exact ih sum

theorem fine_getStats : Fine sp a (getStats .redis) := by
  refine Fine.tryCatch ((h.host a .now).bind fun now => ?_) fun _ => Fine.pure _
  have hread : Yields sp a (do
      let dayCount ← getJobCount .redis (some (toISOString (now - 86400000)))
      let weekCount ← getJobCount .redis (some (toISOString (now - 604800000)))
      let dayResults ← getJobs .redis (.fin 500) (.fin 0) (some (toISOString (now - 86400000)))
      return (dayCount, weekCount, dayResults))
      fun x => ∃ jobs : List Job, x.2.2 = jobs.map .parsed :=
    (h.fine_getJobCount _).yields.bind fun _ _ => (h.fine_getJobCount _).yields.bind
      fun _ _ => (h.yields_getJobs _ _ _).bind fun objs hobjs => Yields.pure hobjs
  refine hread.await.then fun x hx => ?_
  obtain ⟨jobs, hjobs⟩ := hx
  simp only [hjobs]
  refine (fine_readAll jobs).bind fun jobs => Fine.bind ?_ fun _ => Fine.pure _
  unfold avgDuration
  split_ifs
  · exact (h.fine_sumDurations _ _).bind fun _ => Fine.pure _
  · exact Fine.pure _

omit h in
theorem fine_postHeartbeat (body : Json) : Fine sp a (postHeartbeat body) := by
  refine Fine.tryCatch ?_ fun _ => Fine.pure _
  split_ifs
  · exact Fine.pure _
  · exact Fine.throw _

/-! ### The requests -/

/-- A call that is no poll is safe. -/
theorem safe_of_fine {p : Async Reply} (hp : Fine sp a p) (ha : ¬ Polls a)
    {w : World sys.toMachine Task} (hw : sp.inv w) : Safe sp (p.toThread replied) a w :=
  Triple.toThread hp (fun _ w' hw' _ => h.post a _ w' ha hw')
    (fun _ w' hw' _ => h.post a _ w' ha hw') (fun _ _ _ _ _ _ => trivial)
    (fun _ _ _ _ _ _ => trivial) hw trivial

/-- **Every request is safe if every poll is.** -/
theorem entries (hentry : sys.entry = apiEntry .redis)
    (hpoll : ∀ worker (a : Actor) w w', a.tag = .request (.jobsNext worker) → New a w →
      sp.rely a.tid (w.start a) w' → sp.inv w' →
      Safe sp ((getJobsNext .redis worker).toThread replied) a w') : Entries sp := by
  intro tag p hp c w htag _ hnew w' hr hw'
  rw [hentry] at hp
  cases tag with
  | request request =>
    cases hp
    have hother : (∀ worker, request ≠ .jobsNext worker) → ¬ Polls c := by
      rintro hne ⟨worker, hworker⟩
      exact hne worker (Task.request.inj (htag.symm.trans hworker))
    cases request with
    | execute body => exact h.safe_of_fine (h.fine_postExecute body) (hother nofun) hw'
    | status i => exact h.safe_of_fine (h.fine_getStatus i) (hother nofun) hw'
    | jobResult worker i body =>
      exact h.safe_of_fine (h.fine_postJobResult htag) (hother nofun) hw'
    | heartbeat worker body => exact h.safe_of_fine (fine_postHeartbeat body) (hother nofun) hw'
    | executions limit offset =>
      exact h.safe_of_fine (h.fine_getExecutions limit offset) (hother nofun) hw'
    | stats => exact h.safe_of_fine h.fine_getStats (hother nofun) hw'
    | jobsNext worker => exact hpoll worker c w w' htag hnew hr hw'
  | inline i => cases hp
  | call call => cases hp

end Rules

end CodeHive.Api.Handling
