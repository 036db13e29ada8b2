import CodeHive.Api.Invariant
import CodeHive.Concurrency.RelyGuarantee
import Mathlib.Data.Fintype.EquivFin

/-! # Rules for the queue service

`spec T entry` turns the invariant into a specification of single calls, and there is one rule for
each function of the queue service: what has to be shown of the rest of the call for the call to be
safe. The rules hold for both backends and say the same of them; the proofs distinguish the
backends, the users of the rules do not. -/

namespace CodeHive.Api.Logic

set_option autoImplicit false

open CodeHive.Js.Value CodeHive.Api.Types CodeHive.Api.Stores CodeHive.Api.Messages
open CodeHive.Api.Program CodeHive.Api.Queue CodeHive.Api.System CodeHive.Api.History
open CodeHive.Api.Records CodeHive.Api.Invariant CodeHive.Concurrency.Calls
open CodeHive.Concurrency.Pool
open CodeHive.Concurrency.RelyGuarantee

/-- **What a call of the process takes for granted and keeps.** -/
def spec (T : Terms) (entry : Task → Option Thread) : Spec (process entry) where
  assume _ _ _ := True
  inv := Inv T
  rely := Rely
  guar a w o := Ready T a w o ∧ T.allowed a o
  post := T.post
  rely_refl := Rely.refl
  rely_trans _ _ _ _ := Rely.trans
  start _ b h _ := ⟨h.start b, fun _ => Rely.quiet rfl rfl⟩

/-- A reference to the record under `i`. -/
def Refers (T : Terms) (w : World) (i : String) : JobObj → Prop
  | .stored key => T.b = .memory ∧ key = i ∧ i ∈ ids w.log
  | .parsed rec => T.b = .redis ∧ ∃ x ∈ enqueues w.log, x.2.id = i ∧ T.keeps x.2 rec

/-- A copy that call `a` has read as it is. -/
def Seen (a : Actor) (w : World) (i : String) : JobObj → Prop
  | .stored _ => True
  | .parsed rec => (a, jobKey i, rec) ∈ reads w.log

/-- Call `a` has written the update `u` into the record under `i`. -/
def Wrote (b : Backend) (a : Actor) (log : List Event) (i : String) (u : PartialJob) : Prop :=
  match b with
  | .memory => .ran a (.mem (.updateJob i u)) (.ok ()) ∈ log
  | .redis => ∃ rec now, .ran a (.redis (.set (jobKey i) (Job.update rec u now))) (.ok ()) ∈ log

theorem Wrote.mono {b : Backend} {a : Actor} {log log' : List Event} {i : String} {u : PartialJob}
    (h : Wrote b a log i u) (hl : log ⊆ log') : Wrote b a log' i u := by
  cases b with
  | memory => exact hl h
  | redis =>
    obtain ⟨rec, now, h⟩ := h
    exact ⟨rec, now, hl h⟩

section
variable {T : Terms} {entry : Task → Option Thread} {a : Actor} {w w' : World} {i : String}

theorem Refers.mono {obj : JobObj} (h : Refers T w i obj) (hr : w.log <+: w'.log) :
    Refers T w' i obj := by
  cases obj with
  | stored key => exact ⟨h.1, h.2.1, ids_mono hr h.2.2⟩
  | parsed rec =>
    obtain ⟨hb, x, hx, hxi, hk⟩ := h
    exact ⟨hb, x, (hr.filterMap _).subset hx, hxi, hk⟩

theorem Seen.mono {obj : JobObj} (h : Seen a w i obj) (hr : w.log <+: w'.log) :
    Seen a w' i obj := by
  cases obj with
  | stored key => trivial
  | parsed rec => exact (hr.filterMap _).subset h

theorem Refers.known {obj : JobObj} (h : Refers T w i obj) : i ∈ ids w.log := by
  cases obj with
  | stored key => exact h.2.2
  | parsed rec =>
    obtain ⟨-, x, hx, hxi, -⟩ := h
    exact mem_ids.mpr ⟨x, hx, hxi⟩

/-- The call has not touched the queue yet. -/
structure Fresh (a : Actor) (w : World) : Prop where
  born : a.born ≤ w.log.length
  enqueues : ownEnqueues w.log a.tid = []
  pops : ownPops w.log a.tid = []

theorem Fresh.mono (h : Fresh a w) (hr : Rely a.tid w w') : Fresh a w' :=
  ⟨h.born.trans hr.log.length_le, hr.enqueues.trans h.enqueues, hr.pops.trans h.pops⟩

theorem Fresh.start (h : New a w) : Fresh a (w.start a) := by
  have hnone : ∀ e ∈ w.log ++ [.started a], enqueueOf e = none ∧ popOf e = none ∨
      e.actor.tid ≠ a.tid := by
    intro e he
    rcases List.mem_append.mp he with he | he
    · exact Or.inr (h.tid e he)
    · rw [List.mem_singleton.mp he]; exact Or.inl ⟨rfl, rfl⟩
  refine ⟨?_, ?_, ?_⟩
  · simp [World.start, h.born]
  · simp only [ownEnqueues, List.map_eq_nil_iff, List.filter_eq_nil_iff, decide_eq_true_eq]
    intro x hx
    obtain ⟨e, he, hex⟩ := List.mem_filterMap.mp hx
    rcases hnone e he with hn | hn
    · rw [hn.1] at hex; cases hex
    · rw [enqueueOf_actor hex]; exact hn
  · simp only [ownPops, List.map_eq_nil_iff, List.filter_eq_nil_iff, decide_eq_true_eq]
    intro x hx
    obtain ⟨e, he, hex⟩ := List.mem_filterMap.mp hx
    rcases hnone e he with hn | hn
    · rw [hn.2] at hex; cases hex
    · rw [popOf_actor hex]; exact hn

/-! ### Primitives -/

theorem safe_prim {o : Op} {k : o.Answer → Thread} (h : Inv T w) (hr : Ready T a w o)
    (ha : T.allowed a o)
    (hk : ∀ r w', (∃ inp : Input, w.fire a o inp = some (r, w')) → Inv T w' →
      Safe (spec T entry) (k r) a w') :
    Safe (spec T entry) (.op o k) a w :=
  ⟨⟨hr, ha⟩, fun inp r w' _ hf =>
    ⟨h.fire hr hf, fun _ ht => Rely.of_fire hf ht, hk r w' ⟨inp, hf⟩ (h.fire hr hf)⟩⟩

theorem safe_host {o : HostOp} {k : o.Answer → Thread} (ho : o ≠ .randomUUID) (h : Inv T w)
    (hk : ∀ r w', Rely a.tid w w' → Inv T w' → Safe (spec T entry) (k r) a w') :
    Safe (spec T entry) (.op (.host o) k) a w := by
  have hready : Ready T a w (.host o) := trivial
  have hall : T.allowed a (.host o) := T.plain _ _ (by
    cases o with
    | randomUUID => exact absurd rfl ho
    | _ => trivial)
  refine safe_prim h hready hall fun r w' ⟨inp, hf⟩ h' => hk r w' ?_ h'
  obtain ⟨s, -, rfl⟩ := World.fire_eq_some.mp hf
  exact Rely.quiet rfl rfl

theorem safe_isoNow {k : String → Thread} {e : JsError → Thread} (h : Inv T w)
    (hk : ∀ now w', Rely a.tid w w' → Inv T w' → Safe (spec T entry) (k now) a w') :
    Safe (spec T entry) (isoNow k e) a w :=
  safe_host nofun h fun ms w' => hk (toISOString ms) w'

/-- A call of the in-memory queue. -/
theorem safe_mem {c : MemCall} {k : c.Answer → Thread} (h : Inv T w) (hr : Ready T a w (.mem c))
    (ha : T.allowed a (.mem c))
    (hk : ∀ inp r s, c.exec inp w.state = some (r, s) → Inv T ⟨s, w.log ++ [.ran a (.mem c) r]⟩ →
      Safe (spec T entry) (k r) a ⟨s, w.log ++ [.ran a (.mem c) r]⟩) :
    Safe (spec T entry) (.op (.mem c) k) a w := by
  refine safe_prim h hr ha fun r w' ⟨inp, hf⟩ h' => ?_
  obtain ⟨s, hs, rfl⟩ := World.fire_eq_some.mp hf
  exact hk inp r s hs h'

/-- A Redis command that does not fail: on its way, performed, and answered. -/
theorem safe_redis {c : RedisCmd} {k : c.Reply → Thread} {e : JsError → Thread}
    (hready : ∀ w', w.log <+: w'.log → Rely a.tid w w' → Inv T w' → Ready T a w' (.redis c))
    (ha : T.allowed a (.redis c)) (hok : ∀ s : Redis, ∃ r, (s.exec c).1 = .ok r)
    (hk : ∀ w₁ r w₂, Rely a.tid w w₁ → Inv T w₁ → Inv T w₂ → (w₁.state.redis.exec c).1 = .ok r →
      w₂ = ⟨{ w₁.state with redis := (w₁.state.redis.exec c).2 },
        w₁.log ++ [.ran a (.redis c) (.ok r)]⟩ → Safe (spec T entry) (k r) a w₂) :
    Safe (spec T entry) (redis c k e) a w := by
  intro w₁ hr₁ h₁
  refine safe_prim h₁ (hready w₁ hr₁.log hr₁ h₁) ha fun x w₂ ⟨inp, hf⟩ h₂ => ?_
  obtain ⟨s, hs, rfl⟩ := World.fire_eq_some.mp hf
  obtain ⟨r, hr⟩ := hok w₁.state.redis
  change redisExec c w₁.state = some (x, s) at hs
  simp only [redisExec, hr, Option.some.injEq, Prod.mk.injEq] at hs
  obtain ⟨rfl, rfl⟩ := hs
  exact hk w₁ r _ hr₁ h₁ h₂ hr rfl

/-- A Redis command that only reads: it may be answered with an error. -/
theorem safe_redis_plain {c : RedisCmd} {k : c.Reply → Thread} {e : JsError → Thread}
    (hc : Plain (.redis c)) (hready : ∀ w', Ready T a w' (.redis c))
    (hk : ∀ r w', Rely a.tid w w' → Inv T w' → Safe (spec T entry) (k r) a w')
    (he : ∀ err w', Rely a.tid w w' → Inv T w' → Safe (spec T entry) (e err) a w') :
    Safe (spec T entry) (redis c k e) a w := by
  intro w₁ hr₁ h₁
  have hquiet : ∀ r : Except JsError c.Reply, enqueueOf (.ran a (.redis c) r) = none ∧
      popOf (.ran a (.redis c) r) = none := by
    intro r
    cases c <;> first | exact ⟨rfl, rfl⟩ | exact hc.elim
  refine safe_prim h₁ (hready w₁) (T.plain _ _ hc) fun x w₂ ⟨inp, hf⟩ h₂ => ?_
  obtain ⟨s, -, rfl⟩ := World.fire_eq_some.mp hf
  have hr : Rely a.tid w ⟨s, w₁.log ++ [.ran a (.redis c) x]⟩ :=
    hr₁.trans (Rely.quiet (hquiet x).1 (hquiet x).2)
  cases x with
  | error err => exact he err _ hr h₂
  | ok r => exact hk r _ hr h₂

/-! ### The queue service -/

section
variable {b : Backend}

/-- A record is fetched. -/
theorem safe_get {k : Option Job → Thread} {e : JsError → Thread} (hb : T.b = .redis)
    (hsome : ∀ rec w', Rely a.tid w w' → Inv T w' → Refers T w' i (.parsed rec) →
      Seen a w' i (.parsed rec) → Safe (spec T entry) (k (some rec)) a w')
    (hnone : ∀ w', Rely a.tid w w' → Inv T w' → i ∉ ids w.log → Safe (spec T entry) (k none) a w') :
    Safe (spec T entry) (redis (.get (jobKey i)) k e) a w := by
  refine safe_redis (fun _ _ _ _ => hb) (T.plain _ _ trivial) (fun s => ⟨_, rfl⟩) ?_
  rintro w₁ r w₂ hr₁ h₁ h₂ hr rfl
  cases hr
  have hr₂ : Rely a.tid w₁ ⟨w₁.state, w₁.log ++ [.ran a (.redis (.get (jobKey i)))
      (.ok (w₁.state.redis.strings (jobKey i)))]⟩ := Rely.quiet rfl rfl
  cases hl : w₁.state.redis.strings (jobKey i) with
  | none =>
    rw [hl] at hr₂ h₂
    refine hnone _ (hr₁.trans hr₂) h₂ fun hi => ?_
    obtain ⟨job, hj⟩ := h₁.lookup_some (ids_mono hr₁.log hi)
    rw [hb] at hj
    cases hl.symm.trans hj
  | some job =>
    have hj : lookup T.b w₁.state i = some job := by rw [hb]; exact hl
    obtain ⟨x, hx, hxi⟩ := mem_ids.mp (h₁.known i job hj)
    subst hxi
    rw [hl] at hr₂ h₂
    refine hsome _ _ (hr₁.trans hr₂) h₂ ⟨hb, x, ?_, rfl, h₁.keeps hx hj⟩ ?_
    · exact (hr₂.log.filterMap _).subset hx
    · simp [Seen, readOf]

theorem safe_getJob {k : Option JobObj → Thread} {e : JsError → Thread} (hb : T.b = b)
    (h : Inv T w)
    (hsome : ∀ obj w', Rely a.tid w w' → Inv T w' → Refers T w' i obj → Seen a w' i obj →
      Safe (spec T entry) (k (some obj)) a w')
    (hnone : ∀ w', Rely a.tid w w' → Inv T w' → i ∉ ids w.log → Safe (spec T entry) (k none) a w') :
    Safe (spec T entry) (getJob b i k e) a w := by
  cases b with
  | memory =>
    refine safe_mem h trivial (T.plain _ _ trivial) fun inp r s hs h' => ?_
    cases hs
    have hr : Rely a.tid w ⟨w.state, w.log ++ [.ran a (.mem (.getJob i)) (w.state.mem.getJob i)]⟩ :=
      Rely.quiet rfl rfl
    cases hl : w.state.mem.jobs i with
    | none =>
      have hn : w.state.mem.getJob i = none := by simp [MemoryQueue.getJob, hl]
      rw [hn] at hr h' ⊢
      refine hnone _ hr h' fun hi => ?_
      obtain ⟨job, hj⟩ := h.lookup_some hi
      rw [hb] at hj
      cases hl.symm.trans hj
    | some job =>
      have hn : w.state.mem.getJob i = some (.stored i) := by simp [MemoryQueue.getJob, hl]
      have hi : i ∈ ids w.log := h.known i job (by rw [hb]; exact hl)
      rw [hn] at hr h' ⊢
      exact hsome _ _ hr h' ⟨hb, rfl, ids_mono hr.log hi⟩ trivial
  | redis =>
    exact safe_get hb
      (fun rec w₁ hr₁ _ ho hs w₂ hr₂ h₂ =>
        hsome (.parsed rec) w₂ (hr₁.trans hr₂) h₂ (ho.mono hr₂.log) (hs.mono hr₂.log))
      fun w₁ hr₁ _ hn w₂ hr₂ h₂ => hnone w₂ (hr₁.trans hr₂) h₂ hn

theorem safe_read {obj : JobObj} {k : Job → Thread} {e : JsError → Thread} (h : Inv T w)
    (ho : Refers T w i obj)
    (hk : ∀ job w', Rely a.tid w w' → Inv T w' →
      (∃ x ∈ enqueues w'.log, x.2.id = i ∧ T.keeps x.2 job) →
      (Seen a w i obj → (a, recordKey T.b i, job) ∈ reads w'.log) →
      Safe (spec T entry) (k job) a w') :
    Safe (spec T entry) (read obj k e) a w := by
  cases obj with
  | stored key =>
    obtain ⟨hb, rfl, hi⟩ := ho
    refine safe_mem h ⟨hb, hi⟩ (T.plain _ _ trivial) fun inp job s hs h' => ?_
    obtain ⟨job', hl, he⟩ := Option.map_eq_some_iff.mp hs
    cases he
    obtain ⟨x, hx, rfl⟩ := mem_ids.mp hi
    have hr : Rely a.tid w ⟨w.state, w.log ++ [.ran a (.mem (.load x.2.id)) job]⟩ :=
      Rely.quiet rfl rfl
    refine hk job _ hr h' ⟨x, ?_, rfl, h.keeps hx (by rw [hb]; exact hl)⟩ fun _ => ?_
    · exact (hr.log.filterMap _).subset hx
    · simp [hb, recordKey, readOf]
  | parsed rec =>
    obtain ⟨hb, hx⟩ := ho
    exact hk rec w (.refl _ _) h hx fun hs => by rw [hb]; exact hs

/-- The primitives by which a job is updated. -/
def UpdateOp (b : Backend) (i : String) (u : PartialJob) (o : Op) : Prop :=
  match b with
  | .memory => o = .mem (.updateJob i u)
  | .redis => ∃ rec now, o = .redis (.set (jobKey i) (Job.update rec u now))

/-- A copy is written back. -/
theorem safe_set (rec : Job) {k : Unit → Thread} {e : JsError → Thread} (hb : T.b = .redis)
    (hx : ∃ x ∈ enqueues w.log, x.2.id = i ∧ T.keeps x.2 rec)
    (ha : T.allowed a (.redis (.set (jobKey i) rec)))
    (hk : ∀ w', Rely a.tid w w' → Inv T w' →
      Event.ran (S := api) a (.redis (.set (jobKey i) rec)) (.ok ()) ∈ w'.log →
      Safe (spec T entry) (k ()) a w') :
    Safe (spec T entry) (redis (.set (jobKey i) rec) k e) a w := by
  obtain ⟨x, hx, rfl, hkeep⟩ := hx
  refine safe_redis (fun w' hlog _ _ => ?_) ha (fun s => ⟨(), rfl⟩) ?_
  · exact ⟨hb, x, (hlog.filterMap _).subset hx, rfl, hkeep⟩
  · rintro w₁ r w₂ hr₁ h₁ h₂ - rfl
    exact hk _ (hr₁.trans (Rely.quiet rfl rfl)) h₂ (by simp)

theorem safe_updateJob {u : PartialJob} {k : Unit → Thread} {e : JsError → Thread} (hb : T.b = b)
    (h : Inv T w) (hu : T.benign i u) (ha : ∀ o, UpdateOp b i u o → T.allowed a o)
    (hok : ∀ w', Rely a.tid w w' → Inv T w' → i ∈ ids w'.log → Wrote b a w'.log i u →
      Safe (spec T entry) (k ()) a w')
    (herr : ∀ w', Rely a.tid w w' → Inv T w' → i ∉ ids w.log →
      Safe (spec T entry) (e (jobNotFound i)) a w') :
    Safe (spec T entry) (updateJob b i u k e) a w := by
  cases b with
  | memory =>
    refine safe_mem h ⟨hb, hu⟩ (ha _ rfl) fun inp r s hs h' => ?_
    cases hs
    have hr : Rely a.tid w ⟨{ w.state with
        mem := (w.state.mem.updateJob i u (CodeHive.Js.Value.toISOString inp.ms)).2 },
        w.log ++ [.ran a (.mem (.updateJob i u))
          (w.state.mem.updateJob i u (CodeHive.Js.Value.toISOString inp.ms)).1]⟩ :=
      Rely.quiet rfl rfl
    cases hl : w.state.mem.jobs i with
    | none =>
      rw [updateJob_none hl] at hr h' ⊢
      refine herr _ hr h' fun hi => ?_
      obtain ⟨job, hj⟩ := h.lookup_some hi
      rw [hb] at hj
      cases hl.symm.trans hj
    | some job =>
      have hi : i ∈ ids w.log := h.known i job (by rw [hb]; exact hl)
      have hn : (w.state.mem.updateJob i u (CodeHive.Js.Value.toISOString inp.ms)).1 = .ok () := by
        simp [MemoryQueue.updateJob, hl]
      rw [hn] at hr h' ⊢
      exact hok _ hr h' (ids_mono hr.log hi) (List.mem_append_right _ List.mem_cons_self)
  | redis =>
    refine safe_getJob hb h (fun obj w₁ hr₁ h₁ ho _ w₂ hr₂ h₂ => ?_) fun w₁ hr₁ h₁ hn w₂ hr₂ h₂ =>
      herr w₂ (hr₁.trans hr₂) h₂ hn
    cases obj with
    | stored key => cases hb.symm.trans ho.1
    | parsed rec =>
      refine safe_isoNow h₂ fun now w₃ hr₃ h₃ => ?_
      have ho₃ : Refers T w₃ i (.parsed rec) := ho.mono (hr₂.trans hr₃).log
      have hi : i ∈ ids w₃.log := ho₃.known
      obtain ⟨-, x, hx, rfl, hkeep⟩ := ho₃
      refine safe_set (rec.update u now) hb ⟨x, hx, rfl, T.keeps_update now hu hkeep⟩
        (ha _ ⟨rec, now, rfl⟩) fun w₄ hr₄ h₄ he w₅ hr₅ h₅ => ?_
      exact hok w₅ (hr₁.trans (hr₂.trans (hr₃.trans (hr₄.trans hr₅)))) h₅
        (ids_mono (hr₄.trans hr₅).log hi) ⟨rec, now, hr₅.log.subset he⟩

/-- Fields of a record that is there are assigned. -/
theorem safe_assign {obj : JobObj} {u : PartialJob} {k : JobObj → Thread} {e : JsError → Thread}
    (h : Inv T w) (ho : Refers T w i obj) (hu : T.benign i u)
    (ha : T.b = .memory → T.allowed a (.mem (.assign i u)))
    (hk : ∀ obj w', Rely a.tid w w' → Inv T w' → Refers T w' i obj →
      Safe (spec T entry) (k obj) a w') :
    Safe (spec T entry) (assign obj u k e) a w := by
  cases obj with
  | stored key =>
    obtain ⟨hb, rfl, hi⟩ := ho
    refine safe_mem h ⟨hb, hi, hu⟩ (ha hb) fun inp r s hs h' => ?_
    have hr : Rely a.tid w ⟨s, w.log ++ [.ran a (.mem (.assign key u)) r]⟩ := Rely.quiet rfl rfl
    exact hk _ _ hr h' ⟨hb, rfl, ids_mono hr.log hi⟩
  | parsed rec =>
    obtain ⟨hb, x, hx, rfl, hkeep⟩ := ho
    exact hk _ w (.refl _ _) h ⟨hb, x, hx, rfl, T.keeps_assign _ _ _ hu hkeep⟩

theorem safe_updateResult {r : ExecutionResult} {k : Unit → Thread} {e : JsError → Thread}
    (hb : T.b = b) (h : Inv T w)
    (hu : ∀ now, T.benign i
      { result := some (some r), status := some r.status, updatedAt := some now })
    (ham : ∀ u, T.allowed a (.mem (.assign i u)))
    (har : ∀ rec, T.allowed a (.redis (.set (jobKey i) rec)))
    (hok : ∀ w', Rely a.tid w w' → Inv T w' → Safe (spec T entry) (k ()) a w')
    (herr : ∀ err w', Rely a.tid w w' → Inv T w' → Safe (spec T entry) (e err) a w') :
    Safe (spec T entry) (updateResult b i r k e) a w := by
  refine safe_getJob hb h (fun obj w₁ hr₁ h₁ ho _ w₂ hr₂ h₂ => ?_) fun w₁ hr₁ h₁ _ w₂ hr₂ h₂ =>
    herr _ w₂ (hr₁.trans hr₂) h₂
  refine safe_isoNow h₂ fun now w₃ hr₃ h₃ => ?_
  refine safe_assign h₃ (ho.mono (hr₂.trans hr₃).log) (hu now) (fun _ => ham _)
    fun obj w₄ hr₄ h₄ ho₄ => ?_
  have hr : Rely a.tid w w₄ := hr₁.trans (hr₂.trans (hr₃.trans hr₄))
  cases b with
  | memory => exact hok w₄ hr h₄
  | redis =>
    cases obj with
    | stored key => cases hb.symm.trans ho₄.1
    | parsed rec =>
      exact safe_set _ hb ho₄.2 (har rec) fun w₅ hr₅ h₅ _ w₆ hr₆ h₆ =>
        hok w₆ (hr.trans (hr₅.trans hr₆)) h₆

/-- The primitive by which a job is enqueued. -/
def enqueueOp : Backend → Job → Op
  | .memory, job => .mem (.enqueue job)
  | .redis, job => .redis (.multiSetLpush (jobKey job.id) job QUEUE_KEY job.id)

theorem safe_enqueue {request : ExecutionRequest} {k : JobObj → Thread} {e : JsError → Thread}
    (hb : T.b = b) (h : Inv T w) (hid : T.allowed a (.host .randomUUID))
    (ha : ∀ i now, T.allowed a (enqueueOp b (newJob i request now)))
    (hk : ∀ obj job w', w.log <+: w'.log →
      ownEnqueues w'.log a.tid = ownEnqueues w.log a.tid ++ [job] →
      ownPops w'.log a.tid = ownPops w.log a.tid → Inv T w' → Refers T w' job.id obj →
      Safe (spec T entry) (k obj) a w') :
    Safe (spec T entry) (enqueue b request k e) a w := by
  refine safe_prim h trivial hid fun id w₁ ⟨inp, hf⟩ h₁ => ?_
  obtain ⟨s, hs, rfl⟩ := World.fire_eq_some.mp hf
  have hfresh : id ∉ w.state.issued := by
    simp only [machine, exec, HostOp.exec] at hs
    split_ifs at hs with hi
    cases hs
    exact hi.2
  have hnew : id ∉ ids w.log := by
    intro hi
    obtain ⟨x, hx, rfl⟩ := mem_ids.mp hi
    exact hfresh (h.issued _ (h.owned x hx)).1
  have hr₁ : Rely a.tid w ⟨s, w.log ++ [.ran a (.host .randomUUID) id]⟩ := Rely.quiet rfl rfl
  have hissue : (a, id) ∈ issues (w.log ++ [.ran a (.host .randomUUID) id]) := by simp [issueOf]
  have hnew₁ : id ∉ ids (w.log ++ [.ran a (.host .randomUUID) id]) := by
    simpa [ids, enqueueOf] using hnew
  refine safe_isoNow h₁ fun now w₂ hr₂ h₂ => ?_
  cases b with
  | memory =>
    have hready : Ready T a w₂ (.mem (.enqueue (newJob id request now))) :=
      ⟨hb, (hr₂.log.filterMap _).subset hissue, hr₂.notMem_ids h₂ hissue hnew₁,
        T.keeps_new id request now⟩
    refine safe_mem h₂ hready (ha id now) fun inp r s hs h₃ => ?_
    refine hk _ (newJob id request now) _ ?_ ?_ ?_ h₃ ⟨hb, rfl, ?_⟩
    · exact (hr₁.trans hr₂).log.trans (List.prefix_append _ _)
    · rw [← (hr₁.trans hr₂).enqueues]; simp [ownEnqueues, enqueueOf]
    · rw [← (hr₁.trans hr₂).pops]; simp [ownPops, popOf]
    · exact mem_ids.mpr ⟨(a, newJob id request now), by simp [enqueueOf], rfl⟩
  | redis =>
    refine safe_redis (fun w₃ hlog hr₃ h₃ => ?_) (ha id now) (fun s => ⟨(), rfl⟩) ?_
    · exact ⟨hb, rfl, rfl, rfl, ((hr₂.log.trans hlog).filterMap _).subset hissue,
        (hr₂.trans hr₃).notMem_ids h₃ hissue hnew₁, T.keeps_new id request now⟩
    · rintro w₃ r w₄ hr₃ h₃ h₄ - rfl w₅ hr₅ h₅
      have hr : Rely a.tid w w₃ := hr₁.trans (hr₂.trans hr₃)
      have hlog := hr₅.log
      refine hk _ (newJob id request now) w₅ (hr.log.trans ((List.prefix_append _ _).trans hlog))
        ?_ ?_ h₅ ⟨hb, (a, newJob id request now), ?_, rfl, T.keeps_new id request now⟩
      · rw [hr₅.enqueues, ← hr.enqueues]; simp [ownEnqueues, enqueueOf]
      · rw [hr₅.pops, ← hr.pops]; simp [ownPops, popOf]
      · exact (hlog.filterMap _).subset (by simp [enqueueOf])

/-- The primitive by which an id is taken off the queue. -/
def dequeueOp : Backend → Op
  | .memory => .mem .dequeue
  | .redis => .redis (.rpop QUEUE_KEY)

theorem safe_dequeue {k : Option JobObj → Thread} {e : JsError → Thread} (hb : T.b = b)
    (h : Inv T w) (ha : T.allowed a (dequeueOp b))
    (hsome : ∀ i obj w', w.log <+: w'.log → ownEnqueues w'.log a.tid = ownEnqueues w.log a.tid →
      ownPops w'.log a.tid = ownPops w.log a.tid ++ [i] → Inv T w' → Refers T w' i obj →
      Safe (spec T entry) (k (some obj)) a w')
    (hnone : ∀ w', Rely a.tid w w' → Inv T w' → Safe (spec T entry) (k none) a w') :
    Safe (spec T entry) (dequeue b k e) a w := by
  cases b with
  | memory =>
    refine safe_mem h hb ha fun inp r s hs h₁ => ?_
    cases hs
    rw [h.dequeue hb] at h₁ ⊢
    cases hq : pending T.b w.state with
    | nil =>
      rw [hq] at h₁
      exact hnone _ (Rely.quiet rfl rfl) h₁
    | cons i rest =>
      have hi : i ∈ ids w.log := h.pending_mem (by rw [hq]; exact List.mem_cons_self)
      rw [hq] at h₁
      refine hsome i _ _ (List.prefix_append _ _) ?_ ?_ h₁ ⟨hb, rfl, ?_⟩
      · simp [ownEnqueues, enqueueOf]
      · simp [ownPops, popOf]
      · exact ids_mono (List.prefix_append _ _) hi
  | redis =>
    refine safe_redis (fun _ _ _ _ => ⟨hb, rfl⟩) ha (fun s => ⟨_, rfl⟩) ?_
    rintro w₁ popped w₂ hr₁ h₁ h₂ hr rfl w₃ hr₃ h₃
    have hq : (w₁.state.redis.lists QUEUE_KEY).getLast? = popped := Except.ok.inj hr
    cases popped with
    | none => exact hnone w₃ (hr₁.trans ((Rely.quiet rfl rfl).trans hr₃)) h₃
    | some i =>
      have hi : i ∈ ids w₁.log := h₁.pending_mem (by
        rw [hb]; simpa [pending] using List.mem_of_getLast? hq)
      have hi₃ : i ∈ ids w₃.log := ids_mono ((List.prefix_append _ _).trans hr₃.log) hi
      change Safe (spec T entry) ((if i = "" then pure none else getJob .redis i :
        Async (Option JobObj)) k e) a w₃
      rw [if_neg (h₁.ne_empty hi)]
      refine safe_getJob hb h₃ (fun obj w₄ hr₄ h₄ ho _ => ?_) fun _ _ _ hn => absurd hi₃ hn
      refine hsome i obj w₄ ?_ ?_ ?_ h₄ ho
      · exact hr₁.log.trans ((List.prefix_append _ _).trans (hr₃.trans hr₄).log)
      · rw [(hr₃.trans hr₄).enqueues, ← hr₁.enqueues]; simp [ownEnqueues, enqueueOf]
      · rw [(hr₃.trans hr₄).pops, ← hr₁.pops]; simp [ownPops, popOf]

end

end

/-! ### Progress -/

/-- There is always an id that was not given out yet. -/
theorem exists_fresh (used : List String) : ∃ id : String, id ≠ "" ∧ id ∉ used := by
  have : Infinite String := Infinite.of_injective
    (fun n => String.ofList (List.replicate n 'x')) fun m n h => by
      simpa using congrArg String.length h
  obtain ⟨id, hid⟩ := Infinite.exists_notMem_finset ("" :: used).toFinset
  simp only [List.toFinset_cons, Finset.mem_insert, List.mem_toFinset, not_or] at hid
  exact ⟨id, hid⟩

/-- **No primitive is ever stuck.** -/
theorem enabled {T : Terms} {entry : Task → Option Thread} : Enabled (spec T entry) := by
  intro a w o h hg
  obtain ⟨hready, -⟩ := hg
  refine ⟨trivial, ?_⟩
  cases o with
  | host o =>
    cases o with
    | randomUUID =>
      obtain ⟨id, hne, hfresh⟩ := exists_fresh w.state.issued
      exact ⟨{ uuid := id }, by simp [World.fire, exec, HostOp.exec, hne, hfresh]⟩
    | _ => exact ⟨{}, rfl⟩
  | mem c =>
    have hstored : ∀ key, T.b = .memory → key ∈ ids w.log →
        ∃ job, w.state.mem.jobs key = some job := by
      intro key hb hkey
      obtain ⟨job, hj⟩ := Inv.lookup_some h hkey
      rw [hb] at hj
      exact ⟨job, hj⟩
    cases c with
    | load key =>
      obtain ⟨job, hj⟩ := hstored key hready.1 hready.2
      exact ⟨{}, by simp [World.fire, exec, MemCall.exec, hj]⟩
    | assign key u =>
      obtain ⟨job, hj⟩ := hstored key hready.1 hready.2.1
      exact ⟨{}, by simp [World.fire, exec, MemCall.exec, hj]⟩
    | _ => exact ⟨{}, rfl⟩
  | redis c => exact ⟨{}, rfl⟩

end CodeHive.Api.Logic
