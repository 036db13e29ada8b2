import CodeHive.Api.Runs
import CodeHive.Concurrency.Protocols

/-! # The course of an execution

`executeJob` makes a directory, writes the source into it, compiles it where the language is Java,
runs it, records a result and removes the directory, in this order; what fails is skipped, but never
the removal. `course` is this protocol. Requests touch no files, and record a result only where a
worker posts it; a submission detaches the execution of a job that it has enqueued itself. -/

namespace CodeHive.Api.Course

set_option autoImplicit false

open CodeHive.Js.Value CodeHive.Api.Types CodeHive.Api.Stores CodeHive.Api.Messages
open CodeHive.Api.Program CodeHive.Api.Queue CodeHive.Api.Executor CodeHive.Api.Routes
open CodeHive.Api.System CodeHive.Api.History CodeHive.Api.Invariant CodeHive.Api.Handlers
open CodeHive.Api.Runs
open CodeHive.Concurrency.Calls CodeHive.Concurrency.Pool CodeHive.Concurrency.Protocols
open CodeHive.Lists.Slots

/-! ### The directory -/

/-- Where an execution is with its directory. -/
inductive Dir where
  | idle
  /-- The directory could not be made. -/
  | failed
  | made (dir : String)
  | written (dir file : String)
  | compiled (dir file : String)
  /-- The program has run, or a step has failed: what is left is to remove the directory. -/
  | spent (dir : String)
  | removed (dir : String)

/-- The primitive touches files or starts a program. -/
def onFiles : HostOp → Bool
  | .mkdtempSync | .writeFileSync _ _ | .execSync _ | .runProcess _ _ _ _ | .rmSync _ => true
  | .now | .randomUUID | .getTime _ => false

/-- What the execution may do with files: in its own directory, and only in this order. -/
def Dir.allows (q : Dir) : HostOp → Prop
  | .mkdtempSync => q = .idle
  | .writeFileSync file _ => ∃ dir name, q = .made dir ∧ file = join dir name
  | .execSync command => ∃ dir file, q = .written dir file ∧ command = s!"javac \"{file}\""
  | .runProcess _ file _ _ => ∃ dir, q = .written dir file ∨ q = .compiled dir file
  | .rmSync dir => q = .spent dir
  | _ => True

def Dir.next : Dir → (o : HostOp) → o.Answer → Dir
  | .idle, .mkdtempSync, .ok dir => .made dir
  | .idle, .mkdtempSync, .error _ => .failed
  | .made dir, .writeFileSync file _, .ok _ => .written dir file
  | .made dir, .writeFileSync _ _, .error _ => .spent dir
  | .written dir file, .execSync _, .ok _ => .compiled dir file
  | .written dir _, .execSync _, .error _ => .spent dir
  | .written dir _, .runProcess _ _ _ _, _ => .spent dir
  | .compiled dir _, .runProcess _ _ _ _, _ => .spent dir
  | .spent dir, .rmSync _, _ => .removed dir
  | q, _, _ => q

/-! ### The protocol -/

/-- Where a call of the API is. -/
inductive Stage where
  /-- A request that is no submission. -/
  | serving (tag : Task)
  /-- A submission, and the ids under which it has enqueued jobs. -/
  | submitting (known : List String)
  /-- The execution of a job, its directory, and whether it has recorded a result. -/
  | executing (job : String) (dir : Dir) (recorded : Bool)

/-- The primitive has nothing to do with files. -/
def NoFiles : Op → Prop
  | .host o => onFiles o = false
  | _ => True

/-- The update records a result. -/
def recording (u : PartialJob) : Bool := u.result.join.isSome

/-- The primitive records a result. -/
def recordingOp : Op → Bool
  | .mem (.assign _ u) => recording u
  | .mem (.updateJob _ u) => recording u
  | _ => false

/-- What a request may write into the record of job `i`: a result only if it posts one. -/
def Serves (tag : Task) (i : String) (u : PartialJob) : Prop :=
  recording u = true →
    ∃ worker body, tag = .request (.jobResult worker i body) ∧ (resultSchema body).isSome

/-- The course of the directory, as far as the primitive is about files. -/
def Dir.after (q : Dir) : (o : Op) → o.Answer → Dir
  | .host o, r => q.next o r
  | _, _ => q

/-- An `Error` of its own, not one of the API's. -/
def Plain (err : JsError) : Prop := ∃ message, err = .error message

/-- The reply is an execution, or has the code of an error. -/
def Understood (r : Reply) : Prop := (∃ exec, r = ⟨200, .result exec⟩) ∨ 400 ≤ r.code

/-- **The protocol of the calls of the API.** -/
def course (b : Backend) : Protocol api Task Outcome Stage where
  begin
    | .request (.execute _) => .submitting []
    | .inline job => .executing job .idle false
    | tag => .serving tag
  allows
    | .executing _ dir _, .host o => dir.allows o
    -- a result is recorded once
    | .executing job _ recorded, .mem (.updateJob i u) =>
      i = job ∧ (recording u = true → recorded = false)
    | .executing job _ recorded, .mem (.assign i u) =>
      i = job ∧ (recording u = true → recorded = false)
    | .executing job _ _, .mem (.getJob i) => b = .memory ∧ i = job
    | .executing _ _ _, _ => True
    | .submitting known, .mem (.updateJob i u) => i ∈ known ∧ recording u = false
    | .submitting known, .mem (.load i) => i ∈ known
    | .serving tag, .mem (.updateJob i u) => Serves tag i u
    | _, .mem (.assign _ u) => recording u = false
    | _, o => NoFiles o
  may
    -- the record of a job that was enqueued is there, under its own id
    | .executing _ _ _, .mem (.updateJob _ _), .error _ => False
    | .executing _ _ _, .mem (.getJob i), obj => obj = some (.stored i)
    | .submitting _, .mem (.updateJob _ _), .error _ => False
    | .submitting _, .mem (.load i), job => job.id = i
    | _, .redis _, .error err => Plain err
    | _, _, _ => True
  next
    | .serving tag, _, _ => .serving tag
    | .submitting known, .mem (.enqueue job), _ => .submitting (job.id :: known)
    | .submitting known, .redis (.multiSetLpush _ job _ _), _ => .submitting (job.id :: known)
    | .submitting known, _, _ => .submitting known
    | .executing job dir recorded, o, r =>
      .executing job (dir.after o r) (recordingOp o || recorded)
  forks
    | .submitting known, .inline job => job ∈ known
    | _, _ => False
  ends
    | .executing _ dir recorded, _ => dir = .idle ∧ b = .redis ∨ dir = .failed ∨
      ∃ d, dir = .removed d ∧ (b = .memory → recorded = true)
    -- a status request is told of an execution, or that something is wrong
    | .serving (.request (.status _)), out => ∃ r, out = .reply r ∧ Understood r
    | _, _ => True

/-! ### Parts of calls, at any stage -/

section
variable {b : Backend} {q : Stage}

/-- The command enqueues a job. -/
def Enqueues : RedisCmd → Prop
  | .multiSetLpush _ _ _ _ => True
  | _ => False

theorem leads_redis (c : RedisCmd) (hc : ¬ Enqueues c) : Leads (course b) q (redis c)
    (fun _ q' => q' = q) fun err q' => q' = q ∧ Plain err := by
  refine Leads.later (Leads.bind (A := fun r q' => q' = q ∧ ∀ err, r = .error err → Plain err)
    (leads_call ?_ fun r hr => ⟨?_, ?_⟩) fun r q' h => ?_)
  · cases q <;> trivial
  · cases q with
    | submitting known => cases c <;> first | rfl | exact absurd trivial hc
    | _ => rfl
  · rintro err rfl
    cases q <;> exact hr
  · obtain ⟨rfl, hplain⟩ := h
    exact leads_settle (fun _ _ => rfl) fun err he => ⟨rfl, hplain err he⟩

theorem stays_redis (c : RedisCmd) (hc : ¬ Enqueues c) : Stays (course b) q (redis c) :=
  (leads_redis c hc).mono (fun _ _ h => h) fun _ _ h => h.1

/-- The clock is read, which never fails. -/
theorem leads_now {E : JsError → Stage → Prop} :
    Leads (course b) q (host .now) (fun _ q' => q' = q) E := by
  refine leads_call ?_ fun r _ => ?_
  · cases q <;> trivial
  · cases q with
    | executing job dir recorded => cases dir <;> rfl
    | _ => rfl

theorem leads_isoNow {E : JsError → Stage → Prop} :
    Leads (course b) q isoNow (fun _ q' => q' = q) E :=
  leads_now.bind fun _ _ hq => leads_pure hq

theorem stays_now : Stays (course b) q (host .now) := leads_now

theorem stays_isoNow : Stays (course b) q isoNow := leads_isoNow

theorem stays_get (i : String) : Stays (course b) q (await (redis (.get (jobKey i)))) :=
  (stays_redis _ id).await

/-- On Redis a record is a copy. -/
theorem leads_getJob_redis (i : String) : Leads (course b) q (getJob .redis i)
    (fun obj q' => q' = q ∧ ∃ r : Option Job, obj = r.map .parsed)
    fun err q' => q' = q ∧ Plain err :=
  Leads.bind (leads_redis _ id).await fun r _ hq => leads_pure ⟨hq, r, rfl⟩

theorem stays_getJob_redis (i : String) : Stays (course b) q (getJob .redis i) :=
  (leads_getJob_redis i).mono (fun _ _ h => h.1) fun _ _ h => h.1

theorem stays_updateJob_redis (i : String) (u : PartialJob) :
    Stays (course b) q (updateJob .redis i u) := by
  refine Leads.bind ((leads_getJob_redis i).await.mono (fun _ _ h => h) fun _ _ h => h.1)
    fun obj q' h => ?_
  obtain ⟨rfl, r, rfl⟩ := h
  cases r with
  | none => exact stays_throw _
  | some rec =>
    refine stays_isoNow.bind fun now => ?_
    show Stays (course b) q' (await (redis (.set (jobKey i) (rec.update u now))))
    exact (stays_redis _ id).await

end

/-! ### Requests that are no submissions -/

section
variable {b b' : Backend} {tag : Task}

theorem stays_serving {o : Op} (ho : (course b).allows (.serving tag) o) :
    Stays (course b) (.serving tag) (call (S := api) o : Async o.Answer) :=
  stays_call ho fun _ => rfl

/-- A question to the queue. -/
theorem stays_mem (c : MemCall) (hc : recordingOp (.mem c) = false) :
    Stays (course b) (.serving tag) (mem c) := by
  refine stays_serving (o := .mem c) ?_
  cases c with
  | updateJob i u =>
    have hnone : recording u = false := hc
    intro h
    rw [hnone] at h
    cases h
  | assign i u => exact hc
  | _ => trivial

/-- Fields are read, which never fails. -/
theorem leads_fields (obj : JobObj) {E : JsError → Stage → Prop} :
    Leads (course b) (.serving tag) (read obj) (fun _ q => q = .serving tag) E := by
  cases obj with
  | stored key => exact leads_call (S := api) (o := Op.mem (.load key)) trivial fun _ _ => rfl
  | parsed job => exact leads_pure rfl

theorem stays_read (obj : JobObj) : Stays (course b) (.serving tag) (read obj) :=
  leads_fields obj

theorem stays_getJob (i : String) : Stays (course b) (.serving tag) (getJob b' i) := by
  cases b' with
  | memory => exact stays_mem _ rfl
  | redis => exact stays_getJob_redis i

theorem stays_updateJob {i : String} {u : PartialJob} (hu : Serves tag i u) :
    Stays (course b) (.serving tag) (updateJob b' i u) := by
  cases b' with
  | memory => exact (stays_serving (o := .mem (.updateJob i u)) hu).bind fun r => stays_settle r
  | redis => exact stays_updateJob_redis i u

theorem stays_dequeue : Stays (course b) (.serving tag) (dequeue b') := by
  cases b' with
  | memory => exact stays_mem _ rfl
  | redis =>
    refine (stays_redis _ id).await.bind fun id => ?_
    cases id with
    | none => exact stays_pure _
    | some id =>
      dsimp only
      split_ifs
      · exact stays_pure _
      · exact (stays_get id).bind fun _ => stays_pure _

theorem stays_getAll (l : List String) : Stays (course b) (.serving tag) (getAll l) := by
  induction l with
  | nil => exact stays_pure _
  | cons i l ih => exact (stays_get i).bind fun _ => ih.bind fun _ => stays_pure _

theorem stays_getJobs (limit offset : Number) (since : Option String) :
    Stays (course b) (.serving tag) (getJobs b' limit offset since) := by
  cases b' with
  | memory => exact stays_mem _ rfl
  | redis =>
    refine (stays_redis _ id).await.bind fun l => ?_
    exact (stays_getAll l).bind fun _ => stays_pure _

theorem stays_getJobCount (since : Option String) :
    Stays (course b) (.serving tag) (getJobCount b' since) := by
  cases b' with
  | memory => exact stays_mem _ rfl
  | redis =>
    unfold getJobCount
    cases truthy since with
    | none => exact (stays_redis _ id).await
    | some s =>
      refine (stays_redis _ id).await.bind fun l => ?_
      exact (stays_getAll l).bind fun _ => stays_pure _

theorem stays_readAll (objs : List JobObj) : Stays (course b) (.serving tag) (readAll objs) := by
  induction objs with
  | nil => exact stays_pure _
  | cons obj objs ih => exact (stays_read obj).bind fun _ => ih.bind fun _ => stays_pure _

theorem stays_sumDurations (sum : Number) (jobs : List Job) :
    Stays (course b) (.serving tag) (sumDurations sum jobs) := by
  induction jobs generalizing sum with
  | nil => exact stays_pure _
  | cons job jobs ih =>
    have htime : ∀ text, Stays (course b) (.serving tag) (host (.getTime text)) :=
      fun text => stays_serving (o := Op.host (.getTime text)) rfl
    unfold sumDurations
    split
    · exact (htime _).bind fun _ => (htime _).bind fun _ => ih _
    · exact ih sum

/-- A status request is told of an execution, or that something is wrong. -/
theorem leads_getStatus (i : String) : Leads (course b) (.serving tag) (getStatus b' i)
    (fun r q => q = .serving tag ∧ Understood r) fun _ _ => False := by
  have hjob : Leads (course b) (.serving tag) (getJob b' i) (fun _ q => q = .serving tag)
      fun err q => q = .serving tag ∧ Plain err := by
    cases b' with
    | memory => exact leads_call (S := api) (o := Op.mem (.getJob i)) trivial fun _ _ => rfl
    | redis => exact (leads_getJob_redis i).mono (fun _ _ h => h.1) fun _ _ h => h
  refine Leads.tryCatch (F := fun err q => q = .serving tag ∧ 400 ≤ (sendError err).code) ?_
    fun err q h => leads_pure ⟨h.1, .inr h.2⟩
  by_cases hi : i = ""
  · simp only [hi, if_true]
    exact leads_throw ⟨rfl, le_refl 400⟩
  · simp only [hi, if_false]
    refine Leads.bind (hjob.await.mono (fun _ _ h => h) fun err q h => ?_) fun obj q hq => ?_
    · obtain ⟨rfl, message, rfl⟩ := h
      have hcode : 400 ≤ 500 := by decide
      exact ⟨rfl, hcode⟩
    · subst hq
      cases obj with
      | none =>
        have hcode : 400 ≤ 404 := by decide
        exact leads_throw ⟨rfl, hcode⟩
      | some obj => exact (leads_fields obj).bind fun job q hq => leads_pure ⟨hq, .inl ⟨_, rfl⟩⟩

theorem stays_getJobsNext (worker : String) :
    Stays (course b) (.serving tag) (getJobsNext b' worker) := by
  refine Stays.tryCatch (stays_dequeue.await.bind fun obj => ?_) fun _ => stays_pure _
  cases obj with
  | none => exact stays_pure _
  | some obj =>
    have hclaim : ∀ i, Serves tag i { workerId := some (some worker), status := some .running } :=
      fun i h => by cases h
    refine (stays_read obj).bind fun job => (stays_updateJob (hclaim _)).await.bind fun _ => ?_
    exact (stays_read obj).bind fun _ => stays_pure _

theorem stays_postJobResult {worker i : String} {body : Json}
    (htag : tag = .request (.jobResult worker i body)) :
    Stays (course b) (.serving tag) (postJobResult b' i body) := by
  refine Stays.tryCatch ?_ fun _ => stays_pure _
  cases hr : resultSchema body with
  | none => exact stays_throw _
  | some r =>
    have hserves : ∀ u, Serves tag i u := fun u _ =>
      ⟨worker, body, htag, Option.isSome_iff_exists.mpr ⟨r, hr⟩⟩
    refine (stays_getJob i).await.bind fun obj => ?_
    cases obj with
    | none => exact stays_pure _
    | some obj => exact (stays_updateJob (hserves _)).await.bind fun _ => stays_pure _

theorem stays_postHeartbeat (body : Json) :
    Stays (course b) (.serving tag) (postHeartbeat body) := by
  refine Stays.tryCatch ?_ fun _ => stays_pure _
  split_ifs
  · exact stays_pure _
  · exact stays_throw _

theorem stays_getExecutions (limit offset : Number) :
    Stays (course b) (.serving tag) (getExecutions b' limit offset) := by
  refine Stays.tryCatch (Stays.bind (Stays.await ?_) fun x => ?_) fun _ => stays_pure _
  · exact (stays_getJobs _ _ _).bind fun _ => (stays_getJobCount _).bind fun _ => stays_pure _
  · exact (stays_readAll _).bind fun _ => stays_pure _

theorem stays_getStats : Stays (course b) (.serving tag) (getStats b') := by
  refine Stays.tryCatch (stays_now.bind fun now => Stays.bind (Stays.await ?_) fun x => ?_)
    fun _ => stays_pure _
  · exact (stays_getJobCount _).bind fun _ => (stays_getJobCount _).bind fun _ =>
      (stays_getJobs _ _ _).bind fun _ => stays_pure _
  · refine (stays_readAll _).bind fun jobs => Stays.bind ?_ fun _ => stays_pure _
    unfold avgDuration
    split_ifs
    · exact (stays_sumDurations _ _).bind fun _ => stays_pure _
    · exact stays_pure _

end

/-! ### Executions -/

section
variable {b : Backend} {j language code startedAt dir : String} {stdin : Option String}
  {timeoutSec : Finite} {d : Dir} {m : Bool}

/-- What is left of the execution is to record a result and to remove its directory. -/
def Spent (j dir : String) (q : Stage) : Prop := q = .executing j (.spent dir) false

/-- It has recorded a result, in memory. -/
def Recorded (b : Backend) (j dir : String) (q : Stage) : Prop :=
  ∃ m, q = .executing j (.spent dir) m ∧ (b = .memory → m = true)

/-- It may settle. -/
def Ended (b : Backend) (q : Stage) : Prop := ∀ out, (course b).ends q out

/-- A question about files. -/
theorem leads_host {α : Type} {o : HostOp} {f : o.Answer → Except JsError α} {A : α → Stage → Prop}
    {E : JsError → Stage → Prop} (ho : d.allows o)
    (hA : ∀ r x, f r = .ok x → A x (.executing j (d.next o r) m))
    (hE : ∀ r err, f r = .error err → E err (.executing j (d.next o r) m)) :
    Leads (course b) (.executing j d m) (do settle (f (← host o))) A E := by
  refine Leads.bind (A := fun r q => q = .executing j (d.next o r) m)
    (leads_call ho fun r _ => rfl) fun r q hq => ?_
  subst hq
  exact leads_settle (hA r) (hE r)

theorem leads_updateJob (u : PartialJob) :
    Leads (course b) (.executing j d false) (updateJob b j u)
      (fun _ q => ∃ m, q = .executing j d m ∧ (b = .memory → m = (recording u || false)))
      fun _ q => q = .executing j d false ∧ b = .redis := by
  cases b with
  | memory =>
    refine Leads.bind (A := fun (r : Except JsError Unit) q =>
      r = .ok () ∧ q = .executing j d (recording u || false))
      (leads_call ⟨rfl, fun _ => rfl⟩ fun r hr => ?_) fun r q h => ?_
    · cases r with
      | error err => exact hr.elim
      | ok x => exact ⟨rfl, rfl⟩
    · obtain ⟨rfl, rfl⟩ := h
      exact leads_pure ⟨_, rfl, fun _ => rfl⟩
  | redis =>
    refine (stays_updateJob_redis j u).mono (fun _ q hq => ?_) fun _ q hq => ⟨hq, rfl⟩
    exact ⟨false, hq, fun hb => by cases hb⟩

theorem leads_getJob : Leads (course b) (.executing j d m) (getJob b j)
    (fun obj q => q = .executing j d m ∧ (b = .memory → obj = some (.stored j)) ∧
      (b = .redis → ∃ r : Option Job, obj = r.map .parsed)) fun _ q => q = .executing j d m := by
  cases b with
  | memory =>
    refine leads_call (S := api) (o := Op.mem (.getJob j)) ⟨rfl, rfl⟩ fun r hr =>
      ⟨rfl, fun _ => hr, fun hb => ?_⟩
    cases hb
  | redis =>
    refine (leads_getJob_redis j).mono (fun _ q h => ⟨h.1, fun hb => ?_, fun _ => h.2⟩)
      fun _ _ h => h.1
    cases hb

/-- The outcome is recorded in the object that `getJob` has given. -/
theorem leads_assign {obj : JobObj} (hmem : b = .memory → obj = .stored j)
    (hredis : b = .redis → ∃ rec, obj = .parsed rec) {res : ExecutionResult} {s : Status}
    {E : JsError → Stage → Prop} :
    Leads (course b) (.executing j (.spent dir) false)
      (assign obj { result := some (some res), status := some s })
      (fun _ => Recorded b j dir) E := by
  cases b with
  | memory =>
    rw [hmem rfl]
    refine Leads.bind (A := fun (_ : Unit) => Recorded .memory j dir)
      (leads_call ⟨rfl, fun _ => rfl⟩ fun r _ => ⟨true, rfl, fun _ => rfl⟩)
      fun _ q hq => leads_pure hq
  | redis =>
    obtain ⟨rec, rfl⟩ := hredis rfl
    exact leads_pure ⟨false, rfl, fun hb => by cases hb⟩

theorem leads_runFile {file : String} {cfg : LangCfg}
    (hd : d = .written dir file ∨ d = .compiled dir file) :
    Leads (course b) (.executing j d false)
      (runFile b j language stdin timeoutSec startedAt cfg file)
      (fun _ => Recorded b j dir) fun _ => Spent j dir := by
  have hran : ∀ r, d.next (.runProcess cfg file stdin timeoutSec) r = .spent dir := by
    intro r
    rcases hd with rfl | rfl <;> rfl
  have hspent : ∀ err : JsError, Spent j dir (.executing j (.spent dir) false) := fun _ => rfl
  refine leads_now.bind fun startMs q hq => ?_
  subst hq
  refine Leads.bind (A := fun _ q => q = .executing j (.spent dir) false) (Leads.await ?_)
    fun p q hq => ?_
  · refine leads_host (o := .runProcess cfg file stdin timeoutSec) (f := fun r => r)
      ⟨dir, hd⟩ (fun r x _ => by rw [hran]) fun r err _ => ?_
    rw [hran]
    exact hspent err
  subst hq
  refine stays_now.then hspent fun endMs => stays_isoNow.then hspent fun finishedAt => ?_
  refine Leads.bind (leads_getJob.await.mono (fun _ _ h => h) fun err q hq => hq ▸ hspent err)
    fun obj q h => ?_
  obtain ⟨rfl, hmem, hredis⟩ := h
  cases obj with
  | none =>
    refine leads_pure ⟨false, rfl, fun hb => ?_⟩
    cases hmem hb
  | some obj =>
    refine Leads.bind (A := fun _ => Recorded b j dir) (leads_assign (fun hb => ?_) fun hb => ?_)
      fun _ q hq => leads_pure hq
    · exact Option.some.inj (hmem hb)
    · obtain ⟨r, hr⟩ := hredis hb
      cases r with
      | none => cases hr
      | some rec => exact ⟨rec, Option.some.inj hr⟩

/-- A step that either goes on or is the last one but for the removal. -/
theorem leads_step {o : HostOp} {d' : Dir} {f : o.Answer → Except JsError Unit}
    {E : JsError → Stage → Prop} (ho : d.allows o)
    (hok : ∀ r x, f r = .ok x → d.next o r = d')
    (herr : ∀ r err, f r = .error err → d.next o r = .spent dir)
    (hE : ∀ err, E err (.executing j (.spent dir) m)) :
    Leads (course b) (.executing j d m) (do settle (f (← host o)))
      (fun _ q => q = .executing j d' m) E := by
  refine leads_host ho (fun r x hr => ?_) fun r err hr => ?_
  · rw [hok r x hr]
  · rw [herr r err hr]
    exact hE err

theorem leads_runAndRecord {name : String} {cfg : LangCfg} :
    Leads (course b) (.executing j (.made dir) false)
      (runAndRecord b j language code stdin timeoutSec startedAt dir cfg (join dir name))
      (fun _ => Recorded b j dir) fun _ => Spent j dir := by
  have hspent : ∀ err : JsError, Spent j dir (.executing j (.spent dir) false) := fun _ => rfl
  have hwrite : Leads (course b) (.executing j (.made dir) false)
      (do settle (← host (.writeFileSync (join dir name) code)))
      (fun _ q => q = .executing j (.written dir (join dir name)) false) fun _ => Spent j dir := by
    refine leads_step (o := .writeFileSync (join dir name) code) (f := fun r => r)
      ⟨dir, name, rfl, rfl⟩ (fun r x hr => ?_) (fun r err hr => ?_) hspent
    · rw [show r = .ok x from hr]
      rfl
    · rw [show r = .error err from hr]
      rfl
  refine hwrite.bind fun _ q hq => ?_
  subst hq
  split_ifs
  · have hcompile : Leads (course b) (.executing j (.written dir (join dir name)) false)
        (do settle (← host (.execSync s!"javac \"{join dir name}\"")))
        (fun _ q => q = .executing j (.compiled dir (join dir name)) false)
        fun _ => Spent j dir := by
      refine leads_step (o := .execSync s!"javac \"{join dir name}\"") (f := fun r => r)
        ⟨dir, join dir name, rfl, rfl⟩ (fun r x hr => ?_) (fun r err hr => ?_) hspent
      · rw [show r = .ok x from hr]
        rfl
      · rw [show r = .error err from hr]
        rfl
    refine hcompile.bind fun _ q hq => ?_
    subst hq
    exact leads_runFile (.inr rfl)
  · exact leads_runFile (.inl rfl)

/-- The directory is removed. -/
theorem leads_rmSync {A : Unit → Stage → Prop} {E : JsError → Stage → Prop}
    (hA : ∀ x, A x (.executing j (.removed dir) m)) :
    Leads (course b) (.executing j (.spent dir) m) (host (.rmSync dir)) A E :=
  leads_call (S := api) (o := Op.host (.rmSync dir)) rfl fun r _ => hA r

/-- **An execution, once its record says `running`**, comes to an end of its course. -/
theorem leads_afterStart : Leads (course b) (.executing j .idle false)
    (afterStart b j language code stdin timeoutSec startedAt) (fun _ => Ended b)
    fun _ => Ended b := by
  unfold afterStart
  refine Leads.bind (A := fun (dir : String) q => q = .executing j (.made dir) false)
    (leads_host (o := .mkdtempSync) (f := fun r => r) rfl (fun r dir hr => ?_) fun r err hr => ?_)
    fun dir q hq => ?_
  · rw [show r = .ok dir from hr]
    rfl
  · rw [show r = .error err from hr]
    exact fun _ => .inr (.inl rfl)
  subst hq
  refine Leads.tryFinally (C := fun _ => Recorded b j dir)
    (F := fun _ q => Spent j dir q ∧ b = .redis) (Leads.tryCatch leads_runAndRecord
      fun err q h => ?_) (fun _ q h => ?_) fun err q h => ?_
  · have hspent : q = .executing j (.spent dir) false := h
    subst hspent
    refine leads_isoNow.bind fun now q hq => ?_
    subst hq
    refine (leads_updateJob _).await.mono (fun _ q h => ?_) fun err q h => h
    obtain ⟨m', rfl, hm⟩ := h
    exact ⟨m', rfl, hm⟩
  · obtain ⟨m, rfl, hm⟩ := h
    exact leads_rmSync fun _ out => .inr (.inr ⟨dir, rfl, hm⟩)
  · obtain ⟨hspent, hb⟩ := h
    have hstage : q = .executing j (.spent dir) false := hspent
    subst hstage
    refine leads_rmSync fun _ out => .inr (.inr ⟨dir, rfl, fun hmem => ?_⟩)
    rw [hb] at hmem
    cases hmem

end

/-! ### Submissions -/

section
variable {b : Backend} {j language code : String} {stdin : Option String} {timeoutSec : Finite}
  {known : List String}

/-- A submission has enqueued jobs under some ids. -/
def Submitting (q : Stage) : Prop := ∃ known, q = .submitting known

/-- The object stands for the job that was enqueued under `id`. -/
def StandsFor (id : String) : JobObj → Prop
  | .stored key => key = id
  | .parsed job => job.id = id

theorem leads_enqueue (request : ExecutionRequest) : Leads (course b) (.submitting [])
    (enqueue b request) (fun obj q => ∃ id, q = .submitting [id] ∧ StandsFor id obj)
    fun _ => Submitting := by
  have hsub : ∀ err : JsError, Submitting (Stage.submitting []) := fun _ => ⟨[], rfl⟩
  refine Stays.then (stays_call (S := api) (o := Op.host .randomUUID) (q := Stage.submitting [])
    rfl fun _ => rfl) hsub fun id => stays_isoNow.then hsub fun now => ?_
  cases b with
  | memory =>
    refine Leads.bind (A := fun (_ : Unit) q => q = .submitting [id])
      (leads_call (S := api) (o := Op.mem (.enqueue (newJob id request now))) trivial
        fun r _ => rfl) fun _ q hq => leads_pure ⟨id, hq, rfl⟩
  | redis =>
    refine Leads.bind (A := fun (_ : Unit) q => q = .submitting [id]) (Leads.await (Leads.later
      (Leads.bind (A := fun (_ : Except JsError Unit) q => q = .submitting [id])
        (leads_call (S := api)
          (o := Op.redis (.multiSetLpush (jobKey id) (newJob id request now) QUEUE_KEY id))
          trivial fun r _ => rfl) fun r q hq => ?_))) fun _ q hq => leads_pure ⟨id, hq, rfl⟩
    exact leads_settle (fun _ _ => hq) fun _ _ => ⟨[id], hq⟩

theorem leads_read {id : String} {obj : JobObj} (h : StandsFor id obj) (hid : id ∈ known) :
    Leads (course b) (.submitting known) (read obj)
      (fun job q => q = .submitting known ∧ job.id = id) fun _ => Submitting := by
  cases obj with
  | stored key =>
    obtain rfl : key = id := h
    exact leads_call (S := api) (o := Op.mem (.load key)) hid fun job hjob => ⟨rfl, hjob⟩
  | parsed job => exact leads_pure ⟨rfl, h⟩

/-- **`executeJob` is called and not awaited**: for a job that has been enqueued. -/
theorem leads_inline (hj : j ∈ known) {E : JsError → Stage → Prop} :
    Leads (course b) (.submitting known) (detach (.inline j)
      (executeJob b j language code stdin timeoutSec) Outcome.settled : Async Unit)
      (fun _ q => q = .submitting known) E := by
  intro k e hk _
  have hcont : Follows (course b) (k ()) (.submitting known) := hk () _ rfl
  have hafter : ∀ startedAt, Leads (course b) (.executing j .idle false)
      (afterStart b j language code stdin timeoutSec startedAt) (fun _ => Ended b) fun _ => Ended b :=
    fun _ => leads_afterStart
  have hends : ∀ {p : Async Unit}, Leads (course b) (.executing j .idle false) p (fun _ => Ended b)
      (fun _ => Ended b) → Follows (course b) (p.toThread .settled) (.executing j .idle false) :=
    fun hp => hp.toThread (fun _ _ hq => hq _) fun _ _ hq => hq _
  cases b with
  | memory =>
    -- the update does not give up the loop, so the submission makes it
    refine ⟨rfl, fun ms _ => ⟨⟨hj, rfl⟩, fun r hr => ?_⟩⟩
    cases r with
    | error err => exact hr.elim
    | ok x => exact ⟨hj, hends (hafter _), hcont⟩
  | redis =>
    refine ⟨rfl, fun ms _ => ⟨hj, ?_, hcont⟩⟩
    have hchild : Leads (course .redis) (.executing j .idle false) (do
        await (updateJob .redis j { status := some .running })
        afterStart .redis j language code stdin timeoutSec (toISOString ms))
        (fun _ => Ended .redis) fun _ => Ended .redis :=
      (stays_updateJob_redis j _).await.then (fun _ _ => .inl ⟨rfl, rfl⟩) fun _ => hafter _
    exact hends hchild

theorem follows_postExecute (body : Json) :
    Follows (course b) ((postExecute b body).toThread replied) (.submitting []) := by
  have hbody : Leads (course b) (.submitting []) (postExecute b body) (fun _ => Submitting)
      fun _ => Submitting := by
    refine Leads.tryCatch (F := fun _ => Submitting) ?_ fun err q hq => leads_pure hq
    cases codeSubmitSchema body with
    | none => exact leads_throw ⟨[], rfl⟩
    | some submit =>
      by_cases hl : submit.language ∈ SUPPORTED
      · simp only [hl, if_true]
        refine (leads_enqueue _).await.bind fun obj q h => ?_
        obtain ⟨id, rfl, hobj⟩ := h
        refine (leads_read hobj List.mem_cons_self).bind fun job q h => ?_
        obtain ⟨rfl, rfl⟩ := h
        exact (leads_inline List.mem_cons_self).bind fun _ q hq => leads_pure ⟨_, hq⟩
      · simp only [hl, if_false]
        exact leads_throw ⟨[], rfl⟩
  refine hbody.toThread (fun _ q hq => ?_) fun _ q hq => ?_
  all_goals
    obtain ⟨known, rfl⟩ := hq
    trivial

/-- **Every request of the API follows the protocol.** -/
theorem follows_entry (tag : Task) (p : Thread) (h : apiEntry b tag = some p) :
    Follows (course b) p ((course b).begin tag) := by
  cases tag with
  | inline i => cases h
  | call c => cases h
  | request r =>
    cases h
    cases r with
    | execute body => exact follows_postExecute body
    | status i =>
      refine (leads_getStatus i).toThread (fun r q h => ?_) fun err q h => h.elim
      obtain ⟨rfl, htold⟩ := h
      exact ⟨r, rfl, htold⟩
    | jobsNext worker => exact (stays_getJobsNext worker).toThread replied fun _ => trivial
    | jobResult worker i body => exact (stays_postJobResult rfl).toThread replied fun _ => trivial
    | heartbeat worker body => exact (stays_postHeartbeat body).toThread replied fun _ => trivial
    | executions limit offset =>
      exact (stays_getExecutions limit offset).toThread replied fun _ => trivial
    | stats => exact stays_getStats.toThread replied fun _ => trivial

end

/-! ### Runs -/

section
variable {b : Backend} {a : Actor} {log : List Event}

/-- The job that is executed. -/
def Stage.job : Stage → Option String
  | .executing job _ _ => some job
  | _ => none

/-- A submission goes on as a submission. -/
theorem next_submitting (b : Backend) (known : List String) (o : Op) (r : o.Answer) :
    ∃ known', (course b).next (.submitting known) o r = .submitting known' := by
  cases o with
  | host o => exact ⟨_, rfl⟩
  | mem c => cases c <;> exact ⟨_, rfl⟩
  | redis c => cases c <;> exact ⟨_, rfl⟩

theorem job_next (q : Stage) (o : Op) (r : o.Answer) : ((course b).next q o r).job = q.job := by
  cases q with
  | serving tag => rfl
  | executing job d m => rfl
  | submitting known =>
    obtain ⟨known', hnext⟩ := next_submitting b known o r
    rw [hnext]
    rfl

theorem job_stage (b : Backend) (a : Actor) (log : List Event) :
    ((course b).stage a log).job = ((course b).begin a.tag).job :=
  stage_induction (P := course b) (R := fun _ q => q.job = ((course b).begin a.tag).job) rfl
    (fun _ _ _ _ h => h) fun _ _ o r _ _ h => (job_next _ o r).trans h

/-- Only the execution of a job is at a stage of its course. -/
theorem tag_of_executing {j : String} {d : Dir} {m : Bool}
    (h : (course b).stage a log = .executing j d m) : a.tag = .inline j := by
  have hjob := job_stage b a log
  rw [h] at hjob
  cases htag : a.tag with
  | inline i =>
    rw [htag] at hjob
    cases hjob
    rfl
  | call c => rw [htag] at hjob; cases hjob
  | request r => cases r <;> rw [htag] at hjob <;> cases hjob

/-- An execution is at a stage of the course of its own job. -/
theorem executing_of_tag {j : String} (ha : a.tag = .inline j) (log : List Event) :
    ∃ d m, (course b).stage a log = .executing j d m := by
  have hjob := job_stage b a log
  rw [ha] at hjob
  cases hq : (course b).stage a log with
  | executing i d m =>
    rw [hq] at hjob
    cases hjob
    exact ⟨d, m, rfl⟩
  | _ =>
    rw [hq] at hjob
    cases hjob

/-- A status request is at its only stage. -/
theorem stage_status {i : String} (ha : a.tag = .request (.status i)) :
    (course b).stage a log = .serving (.request (.status i)) := by
  refine stage_induction (P := course b) (R := fun _ q => q = .serving (.request (.status i))) ?_
    (fun _ _ _ _ h => h) fun _ _ _ _ _ _ h => ?_
  · rw [ha]
    rfl
  · rw [h]
    rfl

/-- The ids of the jobs that a submission has enqueued. -/
def Stage.known : Stage → List String
  | .submitting known => known
  | _ => []

/-- What a submission knows to be enqueued, it has enqueued itself. -/
theorem enqueue_of_known {i : String} (hi : i ∈ ((course b).stage a log).known) :
    ∃ x ∈ enqueues log, x.1.tid = a.tid ∧ x.2.id = i := by
  suffices hR : ∀ i ∈ ((course b).stage a log).known,
      ∃ x ∈ enqueues log, x.1.tid = a.tid ∧ x.2.id = i from hR i hi
  refine stage_induction (P := course b)
    (R := fun log q => ∀ i ∈ q.known, ∃ x ∈ enqueues log, x.1.tid = a.tid ∧ x.2.id = i) ?_
    (fun log e _ _ h i hi => ?_) ?_
  · intro i hi
    cases htag : a.tag with
    | inline j => rw [htag] at hi; cases hi
    | call c => rw [htag] at hi; cases hi
    | request r => cases r <;> rw [htag] at hi <;> cases hi
  · obtain ⟨x, hx, hown⟩ := h i hi
    exact ⟨x, by rw [enqueues_concat]; exact List.mem_append_left _ hx, hown⟩
  · intro log c o r _ hc h i hi
    -- the id is a known one, or the one of the job that is enqueued
    suffices hcases : i ∈ ((course b).stage a log).known ∨
        ∃ job, enqueueOf (.ran c o r) = some (c, job) ∧ job.id = i by
      rw [enqueues_concat]
      rcases hcases with hold | ⟨job, henq, rfl⟩
      · obtain ⟨x, hx, hown⟩ := h i hold
        exact ⟨x, List.mem_append_left _ hx, hown⟩
      · refine ⟨(c, job), ?_, hc, rfl⟩
        rw [henq]
        exact List.mem_append_right _ List.mem_cons_self
    cases hq : (course b).stage a log with
    | serving tag => rw [hq] at hi; cases hi
    | executing j d m => rw [hq] at hi; cases hi
    | submitting known =>
      rw [hq] at hi
      cases o with
      | host o => exact .inl hi
      | mem o =>
        cases o with
        | enqueue job =>
          rcases List.mem_cons.mp hi with rfl | hi
          · exact .inr ⟨job, rfl, rfl⟩
          · exact .inl hi
        | _ => exact .inl hi
      | redis o =>
        cases o with
        | multiSetLpush key job list id =>
          rcases List.mem_cons.mp hi with rfl | hi
          · exact .inr ⟨job, rfl, rfl⟩
          · exact .inl hi
        | _ => exact .inl hi

theorem enqueued_of_known {i : String} (hi : i ∈ ((course b).stage a log).known) : i ∈ ids log := by
  obtain ⟨x, hx, -, rfl⟩ := enqueue_of_known hi
  exact mem_ids.mpr ⟨x, hx, rfl⟩

end

/-- What is detached is the execution of a job that the submission has enqueued. -/
theorem forked {b : Backend} {c : Config (apiSystem b)} (h : Conforms (course b) c) {t : ℕ}
    {a : Actor} {tag : Task} {child p : Thread} (hp : c.pool[t]? = some (a, .fork tag child p)) :
    ∃ j, tag = .inline j ∧ j ∈ ((course b).stage a c.world.log).known := by
  have hfork := h.forks hp
  cases hq : (course b).stage a c.world.log with
  | serving _ => rw [hq] at hfork; cases tag <;> exact hfork.elim
  | executing i e m => rw [hq] at hfork; cases tag <;> exact hfork.elim
  | submitting known =>
    rw [hq] at hfork
    cases tag with
    | inline j => exact ⟨j, rfl, hfork⟩
    | _ => exact hfork.elim

/-- **Every call is on its course**, and what is executed has been enqueued. -/
structure OnCourse (b : Backend) (c : Config (apiSystem b)) : Prop where
  conforms : Conforms (course b) c
  known : ∀ (t : ℕ) (a : Actor) (p : Thread) (j : String), c.pool[t]? = some (a, p) →
    a.tag = .inline j → j ∈ ids c.world.log

section
variable {b : Backend} {c c' : Config (apiSystem b)}

/-- The errors of Redis are its own. -/
theorem plain_of_exec {r : Redis} {o : RedisCmd} {err : JsError} (h : (r.exec o).1 = .error err) :
    Plain err := by
  cases o with
  | lrange list start stop =>
    simp only [Redis.exec] at h
    split at h
    · cases h
    · cases h
      exact ⟨_, rfl⟩
  | _ => cases h

/-- The answers are those that the protocol reckons with. -/
theorem OnCourse.may (h : OnCourse b c) (hc : Reachable b c) {t : ℕ} {a : Actor} {o : Op}
    {k : o.Answer → Thread} {inp : Input} {r : o.Answer} {w : World}
    (hp : c.pool[t]? = some (a, .op o k))
    (ho : (course b).allows ((course b).stage a c.world.log) o)
    (hf : c.world.fire a o inp = some (r, w)) :
    (course b).may ((course b).stage a c.world.log) o r := by
  obtain ⟨s, hs, -⟩ := World.fire_eq_some.mp hf
  have hready := (hc.guar hp).1
  -- the record of what has been enqueued is in memory
  have hrecord : b = .memory → ∀ i ∈ ids c.world.log, ∃ rec,
      c.world.state.mem.jobs i = some rec ∧ rec.id = i := by
    rintro rfl i hi
    obtain ⟨x, hx, rfl⟩ := mem_ids.mp hi
    obtain ⟨rec, hrec, hkeep⟩ := hc.inv.stored x hx
    exact ⟨rec, hrec, hkeep.id⟩
  have hupdate : ∀ i u, b = .memory → i ∈ ids c.world.log →
      (c.world.state.mem.updateJob i u (toISOString inp.ms)).1 = .ok () := by
    intro i u hb hi
    obtain ⟨rec, hrec, -⟩ := hrecord hb i hi
    simp [MemoryQueue.updateJob, hrec]
  cases o with
  | host o => cases (course b).stage a c.world.log <;> trivial
  | redis o =>
    have hplain : ∀ err, r = .error err → Plain err := by
      intro err he
      have hr : r = (c.world.state.redis.exec o).1 := by
        cases hs
        rfl
      exact plain_of_exec (hr.symm.trans he)
    cases r with
    | ok x => cases (course b).stage a c.world.log <;> trivial
    | error err => cases (course b).stage a c.world.log <;> exact hplain err rfl
  | mem o =>
    cases hq : (course b).stage a c.world.log with
    | serving tag => cases o <;> trivial
    | submitting known =>
      have hknown : ∀ i ∈ known, i ∈ ids c.world.log := fun i hi =>
        enqueued_of_known (b := b) (a := a) (by rw [hq]; exact hi)
      rw [hq] at ho
      cases o with
      | updateJob i u =>
        have hok := hupdate i u hready.1 (hknown i ho.1)
        cases hs
        rw [hok]
        trivial
      | load i =>
        obtain ⟨rec, hrec, hid⟩ := hrecord hready.1 i (hknown i ho)
        simp only [exec, MemCall.exec, hrec, Option.map_some] at hs
        cases hs
        exact hid
      | _ => trivial
    | executing j d m =>
      have hj := h.known t a _ j hp (tag_of_executing hq)
      rw [hq] at ho
      cases o with
      | updateJob i u =>
        obtain rfl : i = j := ho.1
        have hok := hupdate i u hready.1 hj
        cases hs
        rw [hok]
        trivial
      | getJob i =>
        obtain ⟨hb, rfl⟩ : b = .memory ∧ i = j := ho
        obtain ⟨rec, hrec, -⟩ := hrecord hb i hj
        cases hs
        simp [course, MemoryQueue.getJob, hrec]
      | _ => trivial

/-- The steps of the loop keep what is known. -/
theorem OnCourse.step (h : OnCourse b c) (hc : Reachable b c)
    {l : Label Task (apiSystem b).Input} (hs : c.step l = some c') : OnCourse b c' := by
  have hconf : Conforms (course b) c' :=
    h.conforms.step follows_entry hs fun t a o k i r w hp ho hf => h.may hc hp ho hf
  refine ⟨hconf, fun u a q j hu ha => ?_⟩
  have hmono : ∀ {i}, i ∈ ids c.world.log → i ∈ ids c'.world.log :=
    ids_mono (stepped_of_step hs).extends.log
  cases stepped_of_step hs with
  | @arrive tag p hrun hp =>
    rcases getElem?_concat_cases hu with hu | ⟨-, he⟩
    · exact hmono (h.known u a q j hu ha)
    · cases he
      have htag : tag = .inline j := ha
      rw [htag] at hp
      cases hp
  | @resume t d p hrun hp =>
    rcases getElem?_set_cases hu with ⟨-, hu⟩ | ⟨rfl, he⟩
    · exact h.known u a q j hu ha
    · cases he
      exact h.known u a _ j hp ha
  | @op t d o k i r w hrun hp hf =>
    rcases getElem?_set_cases hu with ⟨-, hu⟩ | ⟨rfl, he⟩
    · exact hmono (h.known u a q j hu ha)
    · cases he
      exact hmono (h.known u a _ j hp ha)
  | @fork t d tag child p i hrun hp =>
    rcases getElem?_concat_cases hu with hu | ⟨-, he⟩
    · rcases getElem?_set_cases hu with ⟨-, hu⟩ | ⟨rfl, he⟩
      · exact hmono (h.known u a q j hu ha)
      · cases he
        exact hmono (h.known u a _ j hp ha)
    · cases he
      obtain ⟨i, htag, hi⟩ := forked h.conforms hp
      rw [htag] at ha
      cases ha
      exact hmono (enqueued_of_known hi)
  | pause hrun hp hsus => exact h.known u a q j hu ha

/-- **In every run every call is on its course.** -/
theorem onCourse (hc : Reachable b c) : OnCourse b c := by
  induction hc with
  | refl => exact ⟨.init _, fun t a p j hu _ => by simp [Config.init] at hu⟩
  | step hr _ hs ih => exact ih.step hr hs

/-- **A status request that has settled was answered with an execution or the code of an error.** -/
theorem understood (hc : Reachable b c) {t : ℕ} {a : Actor} {i : String} {r : Reply}
    (ha : a.tag = .request (.status i)) (ht : c.pool[t]? = some (a, .done (.reply r))) :
    Understood r := by
  have hends := (onCourse hc).conforms.ends ht
  rw [stage_status ha] at hends
  obtain ⟨r', he, hr⟩ := hends
  cases he
  exact hr

end

end CodeHive.Api.Course
