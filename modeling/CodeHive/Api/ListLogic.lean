import CodeHive.Api.Logic
import CodeHive.Api.Executor

/-! # Rules for listings and for the executor

The same for the functions that read many records, and for `executeJob`, which may be called by any
call that knows the job. -/

namespace CodeHive.Api.ListLogic

set_option autoImplicit false

open CodeHive.Js.Value CodeHive.Api.Types CodeHive.Api.Stores CodeHive.Api.Messages
open CodeHive.Api.Program CodeHive.Api.Queue CodeHive.Api.Executor CodeHive.Api.Routes
open CodeHive.Api.System CodeHive.Api.History CodeHive.Api.Invariant CodeHive.Api.Logic
open CodeHive.Concurrency.Calls CodeHive.Concurrency.Pool CodeHive.Concurrency.RelyGuarantee

section
variable {T : Terms} {entry : Task → Option Thread} {a : Actor} {w : World} {b : Backend}

/-! ### Listings -/

/-- References to records of the queue. -/
def AllRefer (T : Terms) (w : World) (objs : List JobObj) : Prop :=
  ∀ obj ∈ objs, ∃ i, Refers T w i obj

theorem mem_of_mem_slice {α : Type} {xs : List α} {start stop : Number} {x : α}
    (h : x ∈ slice xs start stop) : x ∈ xs := List.mem_of_mem_drop (List.mem_of_mem_take h)

theorem mem_of_mem_sinceFilter {since : Option String} {jobs : List Job} {job : Job}
    (h : job ∈ sinceFilter since jobs) : job ∈ jobs := by
  unfold sinceFilter at h
  split at h
  · exact List.mem_of_mem_filter h
  · exact h

theorem safe_getAll {is : List String} {k : List Job → Thread} {e : JsError → Thread}
    (hb : T.b = .redis) (h : Inv T w)
    (hk : ∀ jobs w', Rely a.tid w w' → Inv T w' → AllRefer T w' (jobs.map .parsed) →
      Safe (spec T entry) (k jobs) a w') :
    Safe (spec T entry) (getAll is k e) a w := by
  induction is generalizing k w with
  | nil => exact hk [] w (.refl _ _) h (by simp [AllRefer])
  | cons i is ih =>
    refine safe_get hb (fun rec w₁ hr₁ _ ho _ w₂ hr₂ h₂ => ?_) fun w₁ hr₁ _ _ w₂ hr₂ h₂ => ?_
    · refine ih h₂ fun jobs w₃ hr₃ h₃ hall => ?_
      refine hk _ w₃ (hr₁.trans (hr₂.trans hr₃)) h₃ fun obj hobj => ?_
      rcases List.mem_cons.mp hobj with rfl | hobj
      · exact ⟨i, ho.mono (hr₂.trans hr₃).log⟩
      · exact hall obj hobj
    · exact ih h₂ fun jobs w₃ hr₃ h₃ hall => hk _ w₃ (hr₁.trans (hr₂.trans hr₃)) h₃ hall

theorem safe_getJobs {limit offset : Number} {since : Option String} {k : List JobObj → Thread}
    {e : JsError → Thread} (hb : T.b = b) (h : Inv T w)
    (hk : ∀ objs w', Rely a.tid w w' → Inv T w' → AllRefer T w' objs →
      Safe (spec T entry) (k objs) a w')
    (he : ∀ err w', Rely a.tid w w' → Inv T w' → Safe (spec T entry) (e err) a w') :
    Safe (spec T entry) (getJobs b limit offset since k e) a w := by
  cases b with
  | memory =>
    refine safe_mem h trivial (T.plain _ _ trivial) fun inp r s hs h' => ?_
    cases hs
    have hr : Rely a.tid w ⟨w.state, w.log ++ [.ran a (.mem (.getJobs limit offset since))
        (w.state.mem.getJobs limit offset since)]⟩ := Rely.quiet rfl rfl
    refine hk _ _ hr h' fun obj hobj => ?_
    obtain ⟨i, -, hi⟩ := List.mem_filterMap.mp hobj
    obtain ⟨job, hj, rfl⟩ := Option.map_eq_some_iff.mp hi
    exact ⟨i, hb, rfl, ids_mono hr.log (h.known i job (by rw [hb]; exact hj))⟩
  | redis =>
    refine safe_redis_plain trivial (fun _ => trivial) (fun is w₁ hr₁ _ w₂ hr₂ h₂ => ?_)
      fun err w₁ hr₁ _ w₂ hr₂ h₂ => he err w₂ (hr₁.trans hr₂) h₂
    refine safe_getAll hb h₂ fun jobs w₃ hr₃ h₃ hall => ?_
    refine hk _ w₃ (hr₁.trans (hr₂.trans hr₃)) h₃ fun obj hobj => ?_
    obtain ⟨job, hjob, rfl⟩ := List.mem_map.mp hobj
    have hjob' := mem_of_mem_sinceFilter (mem_of_mem_slice hjob)
    exact hall _ (List.mem_map.mpr ⟨job, hjob', rfl⟩)

theorem safe_getJobCount {since : Option String} {k : ℕ → Thread} {e : JsError → Thread}
    (hb : T.b = b) (h : Inv T w)
    (hk : ∀ n w', Rely a.tid w w' → Inv T w' → Safe (spec T entry) (k n) a w')
    (he : ∀ err w', Rely a.tid w w' → Inv T w' → Safe (spec T entry) (e err) a w') :
    Safe (spec T entry) (getJobCount b since k e) a w := by
  cases b with
  | memory =>
    refine safe_mem h trivial (T.plain _ _ trivial) fun inp r s hs h' => ?_
    cases hs
    exact hk _ _ (Rely.quiet rfl rfl) h'
  | redis =>
    unfold getJobCount
    cases truthy since with
    | none =>
      exact safe_redis_plain trivial (fun _ => trivial)
        (fun n w₁ hr₁ _ w₂ hr₂ h₂ => hk n w₂ (hr₁.trans hr₂) h₂)
        fun err w₁ hr₁ _ w₂ hr₂ h₂ => he err w₂ (hr₁.trans hr₂) h₂
    | some s =>
      refine safe_redis_plain trivial (fun _ => trivial) (fun is w₁ hr₁ _ w₂ hr₂ h₂ => ?_)
        fun err w₁ hr₁ _ w₂ hr₂ h₂ => he err w₂ (hr₁.trans hr₂) h₂
      exact safe_getAll hb h₂ fun jobs w₃ hr₃ h₃ _ => hk _ w₃ (hr₁.trans (hr₂.trans hr₃)) h₃

theorem safe_readAll {objs : List JobObj} {k : List Job → Thread} {e : JsError → Thread}
    (h : Inv T w) (hall : AllRefer T w objs)
    (hk : ∀ jobs w', Rely a.tid w w' → Inv T w' → Safe (spec T entry) (k jobs) a w') :
    Safe (spec T entry) (readAll objs k e) a w := by
  induction objs generalizing k w with
  | nil => exact hk [] w (.refl _ _) h
  | cons obj objs ih =>
    obtain ⟨i, ho⟩ := hall obj List.mem_cons_self
    refine safe_read h ho fun job w₁ hr₁ h₁ _ _ => ?_
    refine ih h₁ (fun obj' hobj' => ?_) fun jobs w₂ hr₂ h₂ => hk _ w₂ (hr₁.trans hr₂) h₂
    obtain ⟨j, hj⟩ := hall obj' (List.mem_cons_of_mem _ hobj')
    exact ⟨j, hj.mono hr₁.log⟩

theorem safe_sumDurations {jobs : List Job} {sum : Number} {k : Number → Thread}
    {e : JsError → Thread} (h : Inv T w)
    (hk : ∀ x w', Rely a.tid w w' → Inv T w' → Safe (spec T entry) (k x) a w') :
    Safe (spec T entry) (sumDurations sum jobs k e) a w := by
  induction jobs generalizing sum w with
  | nil => exact hk sum w (.refl _ _) h
  | cons job jobs ih =>
    unfold sumDurations
    cases timesOf job with
    | none => exact ih h hk
    | some times =>
      refine safe_host nofun h fun finish w₁ hr₁ h₁ => ?_
      refine safe_host nofun h₁ fun start w₂ hr₂ h₂ => ?_
      exact ih h₂ fun x w₃ hr₃ h₃ => hk x w₃ (hr₁.trans (hr₂.trans hr₃)) h₃

theorem safe_avgDuration {completed : List Job} {k : Number → Thread} {e : JsError → Thread}
    (h : Inv T w)
    (hk : ∀ x w', Rely a.tid w w' → Inv T w' → Safe (spec T entry) (k x) a w') :
    Safe (spec T entry) (avgDuration completed k e) a w := by
  unfold avgDuration
  by_cases hlen : completed.length > 0
  · simp only [hlen, if_true]
    exact safe_sumDurations h fun x w₁ hr₁ h₁ => hk _ w₁ hr₁ h₁
  · simp only [hlen, if_false]
    exact hk _ w (.refl _ _) h

/-! ### The executor -/

/-- The updates that `executeJob` makes. -/
inductive ExecUpdate (jobId : String) : PartialJob → Prop where
  | start : ExecUpdate jobId { status := some .running }
  | finish (res : ExecutionResult) (hid : res.id = jobId)
      (hst : res.status = .completed ∨ res.status = .failed) :
      ExecUpdate jobId { result := some (some res), status := some res.status }

/-- The terms let call `a` execute the job. -/
structure Executes (T : Terms) (b : Backend) (a : Actor) (jobId : String) : Prop where
  benign : ∀ u, ExecUpdate jobId u → T.benign jobId u
  update : ∀ u, ExecUpdate jobId u → ∀ o, UpdateOp b jobId u o → T.allowed a o
  assign : ∀ u, ExecUpdate jobId u → T.allowed a (.mem (.assign jobId u))

variable {jobId language code startedAt : String} {stdin : Option String} {timeoutSec : Finite}
  {k : Unit → Thread} {e : JsError → Thread}

/-- A result or an error of the environment. -/
theorem safe_settle {α : Type} {x : Except JsError α} {k : α → Thread}
    (hk : ∀ r, Safe (spec T entry) (k r) a w) (he : ∀ err, Safe (spec T entry) (e err) a w) :
    Safe (spec T entry) ((settle x : Async α) k e) a w := by
  cases x with
  | error err => exact he err
  | ok r => exact hk r

theorem safe_runFile {file : String} {cfg : LangCfg} (hb : T.b = b) (h : Inv T w)
    (hx : Executes T b a jobId)
    (hk : ∀ w', Rely a.tid w w' → Inv T w' → Safe (spec T entry) (k ()) a w')
    (he : ∀ err w', Rely a.tid w w' → Inv T w' → Safe (spec T entry) (e err) a w') :
    Safe (spec T entry) (runFile b jobId language stdin timeoutSec startedAt cfg file k e) a w := by
  refine safe_host nofun h fun startMs w₁ hr₁ h₁ => ?_
  refine safe_host nofun h₁ fun x w₂ hr₂ h₂ => safe_settle (fun p w₃ hr₃ h₃ => ?_)
    fun err w₃ hr₃ h₃ => he err w₃ (hr₁.trans (hr₂.trans hr₃)) h₃
  refine safe_host nofun h₃ fun endMs w₄ hr₄ h₄ => ?_
  refine safe_isoNow h₄ fun now w₅ hr₅ h₅ => ?_
  have hr : Rely a.tid w w₅ := hr₁.trans (hr₂.trans (hr₃.trans (hr₄.trans hr₅)))
  refine safe_getJob hb h₅ (fun obj w₆ hr₆ h₆ ho _ w₇ hr₇ h₇ => ?_) fun w₆ hr₆ _ _ w₇ hr₇ h₇ =>
    hk w₇ (hr.trans (hr₆.trans hr₇)) h₇
  have hup : ExecUpdate jobId
      { result := some (some (resultOf jobId language p startedAt now (endMs - startMs)))
        status := some (resultOf jobId language p startedAt now (endMs - startMs)).status } :=
    .finish _ rfl (by unfold resultOf; split_ifs <;> simp)
  refine safe_assign h₇ (ho.mono hr₇.log) (hx.benign _ hup) (fun _ => hx.assign _ hup)
    fun _ w₈ hr₈ h₈ _ => hk w₈ (hr.trans (hr₆.trans (hr₇.trans hr₈))) h₈

theorem safe_runAndRecord {dir file : String} {cfg : LangCfg} (hb : T.b = b) (h : Inv T w)
    (hx : Executes T b a jobId)
    (hk : ∀ w', Rely a.tid w w' → Inv T w' → Safe (spec T entry) (k ()) a w')
    (he : ∀ err w', Rely a.tid w w' → Inv T w' → Safe (spec T entry) (e err) a w') :
    Safe (spec T entry)
      (runAndRecord b jobId language code stdin timeoutSec startedAt dir cfg file k e) a w := by
  refine safe_host nofun h fun x w₁ hr₁ h₁ => safe_settle (fun _ => ?_) fun err => he err w₁ hr₁ h₁
  split_ifs
  · refine safe_host nofun h₁ fun y w₂ hr₂ h₂ => safe_settle (fun _ => ?_) fun err =>
      he err w₂ (hr₁.trans hr₂) h₂
    have hr : Rely a.tid w w₂ := hr₁.trans hr₂
    exact safe_runFile hb h₂ hx (fun w₃ hr₃ => hk w₃ (hr.trans hr₃))
      fun err w₃ hr₃ => he err w₃ (hr.trans hr₃)
  · exact safe_runFile hb h₁ hx (fun w₂ hr₂ => hk w₂ (hr₁.trans hr₂))
      fun err w₂ hr₂ => he err w₂ (hr₁.trans hr₂)

theorem safe_afterStart (hb : T.b = b) (h : Inv T w) (hx : Executes T b a jobId)
    (hk : ∀ r w', Inv T w' → Safe (spec T entry) (k r) a w')
    (he : ∀ err w', Inv T w' → Safe (spec T entry) (e err) a w') :
    Safe (spec T entry) (afterStart b jobId language code stdin timeoutSec startedAt k e) a w := by
  refine safe_host nofun h fun x w₁ _ h₁ => safe_settle (fun dir => ?_) fun err => he err w₁ h₁
  refine safe_runAndRecord hb h₁ hx (fun w₂ _ h₂ => ?_) fun err w₂ _ h₂ => ?_
  · exact safe_host nofun h₂ fun _ w₃ _ h₃ => hk () w₃ h₃
  · refine safe_isoNow h₂ fun now w₃ _ h₃ => ?_
    have hup : ExecUpdate jobId
        { status := some .failed
          result := some (some (failureOf jobId language err startedAt now)) } :=
      .finish (failureOf jobId language err startedAt now) rfl (.inr rfl)
    refine safe_updateJob hb h₃ (hx.benign _ hup) (hx.update _ hup)
      (fun w₄ _ _ _ _ w₅ _ h₅ => ?_) fun w₄ _ _ _ w₅ _ h₅ => ?_
    · exact safe_host nofun h₅ fun _ w₆ _ h₆ => hk () w₆ h₆
    · exact safe_host nofun h₅ fun _ w₆ _ h₆ => he _ w₆ h₆

/-- In memory an update does not give up the loop, so its caller makes it. -/
theorem detach_updateJob_memory {i : String} {u : PartialJob} {tag : Task} {cont : Thread} :
    (updateJob .memory i u k e).detach tag cont =
      updateJob .memory i u (fun r => (k r).detach tag cont)
        fun err => (e err).detach tag cont := by
  refine congrArg (Thread.op (S := api) _) (funext fun r => ?_)
  cases r <;> rfl

/-- **`executeJob` is called and not awaited.** Up to its first `await` the caller executes it. -/
theorem safe_inline {k : Unit → Thread} (hb : T.b = b) (h : Inv T w) (hx : Executes T b a jobId)
    (hx' : ∀ c : Actor, c.tag = .inline jobId → Executes T b c jobId)
    (hpost : ∀ (c : Actor) r w', c.tag = .inline jobId → T.post c (.settled r) w')
    (hk : ∀ w', Rely a.tid w w' → Inv T w' →
      (∃ c : Actor, .started c ∈ w'.log ∧ c.tag = .inline jobId) →
      Safe (spec T entry) (k ()) a w') :
    Safe (spec T entry) ((detach (.inline jobId)
      (executeJob b jobId language code stdin timeoutSec) Outcome.settled : Async Unit) k e) a w := by
  have hdone : ∀ (c : Actor) r w', c.tag = .inline jobId →
      Safe (spec T entry) (.done (.settled r)) c w' := fun c r w' hc w'' _ _ => hpost c r w'' hc
  have hstart : ∀ w₁ (c : Actor), Rely a.tid w w₁ → Inv T w₁ → c.tag = .inline jobId →
      Safe (spec T entry) (k ()) a (w₁.start c) := by
    intro w₁ c hr₁ h₁ hc
    refine hk _ (hr₁.trans (Rely.quiet rfl rfl)) (h₁.start c) ⟨c, ?_, hc⟩
    exact List.mem_append_right _ List.mem_cons_self
  cases b with
  | memory =>
    refine safe_host nofun h fun ms w₁ hr₁ h₁ => ?_
    have hfork : ∀ p w₂, Rely a.tid w w₂ → Inv T w₂ →
        (∀ (c : Actor) w', c.tag = .inline jobId → Inv T w' → Safe (spec T entry) p c w') →
        Safe (spec T entry) (.fork (.inline jobId) p (k ())) a w₂ := by
      intro p w₂ hr₂ h₂ hp c _ hc
      exact ⟨fun w₃ _ h₃ => hp c w₃ hc h₃, hstart w₂ c hr₂ h₂ hc⟩
    change Safe (spec T entry) ((updateJob .memory jobId { status := some .running } _ _).detach
      (.inline jobId) (k ())) a w₁
    rw [detach_updateJob_memory]
    refine safe_updateJob hb h₁ (hx.benign _ .start) (hx.update _ .start)
      (fun w₂ hr₂ h₂ _ _ => ?_) fun w₂ hr₂ h₂ _ => ?_
    · refine hfork _ w₂ (hr₁.trans hr₂) h₂ fun c w₃ hc h₃ => ?_
      exact safe_afterStart hb h₃ (hx' c hc) (fun _ w₄ _ => hdone c _ w₄ hc)
        fun _ w₄ _ => hdone c _ w₄ hc
    · exact hfork _ w₂ (hr₁.trans hr₂) h₂ fun c w₃ hc _ => hdone c _ w₃ hc
  | redis =>
    refine safe_host nofun h fun ms w₁ hr₁ h₁ c _ hc => ⟨?_, hstart w₁ c hr₁ h₁ hc⟩
    refine safe_updateJob (k := fun _ => .yield _) (e := fun _ => .yield _) hb (h₁.start c)
      ((hx' c hc).benign _ .start) ((hx' c hc).update _ .start)
      (fun w₂ _ _ _ _ w₃ _ h₃ => ?_) fun w₂ _ _ _ w₃ _ _ => hdone c _ w₃ hc
    exact safe_afterStart hb h₃ (hx' c hc) (fun _ w₄ _ => hdone c _ w₄ hc)
      fun _ w₄ _ => hdone c _ w₄ hc

end

end CodeHive.Api.ListLogic
