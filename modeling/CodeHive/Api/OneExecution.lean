import CodeHive.Api.Clients
import CodeHive.Api.Course
import CodeHive.Api.Dispatch
import CodeHive.Api.Quiescence
import CodeHive.Concurrency.Detached

/-! # One execution for each job

A submission detaches one call, the execution of the job that it has enqueued. So no job is executed
inline twice, whoever polls for it meanwhile (`one_execution`); and where the process goes on until
the API rests and the commands sent to Redis succeed, every job that is accepted is executed
(`executed_once`). -/

namespace CodeHive.Api.OneExecution

set_option autoImplicit false

open CodeHive.Js.Value CodeHive.Api.Types CodeHive.Api.Stores CodeHive.Api.Messages
open CodeHive.Api.Program CodeHive.Api.Queue CodeHive.Api.Executor CodeHive.Api.Routes
open CodeHive.Api.System CodeHive.Api.History CodeHive.Api.Invariant CodeHive.Api.Clients
open CodeHive.Api.Runs CodeHive.Api.Course CodeHive.Api.Dispatch CodeHive.Api.Quiescence
open CodeHive.Concurrency.Calls CodeHive.Concurrency.Pool CodeHive.Concurrency.Protocols
open CodeHive.Concurrency.Detached CodeHive.Concurrency.Resting CodeHive.Concurrency.Settling
open CodeHive.Lists.Slots

/-! ### A submission detaches one call -/

section
variable {b : Backend}

theorem keeps_redis (c : RedisCmd) : Keeps (redis c) :=
  ((keeps_call _).bind fun _ => keeps_settle _).later

theorem keeps_enqueue (request : ExecutionRequest) : Keeps (enqueue b request) := by
  have hnow : Keeps isoNow := Keeps.bind (keeps_call _) fun _ => keeps_pure _
  refine Keeps.bind (keeps_call _) fun id => hnow.bind fun now => ?_
  cases b with
  | memory => exact Keeps.bind (keeps_call _) fun _ => keeps_pure _
  | redis => exact (keeps_redis _).await.bind fun _ => keeps_pure _

theorem keeps_read (obj : JobObj) : Keeps (read obj) := by
  cases obj with
  | stored key => exact keeps_call (S := api) (Op.mem (.load key))
  | parsed job => exact keeps_pure _

/-- **A submission detaches at most one call.** -/
theorem once_postExecute (body : Json) : Once ((postExecute b body).toThread replied) := by
  refine Spends.toThread (Spends.tryCatch ?_ fun _ => single_pure _) _
  cases codeSubmitSchema body with
  | none => exact Spends.of_single (single_throw _)
  | some submit =>
    by_cases hl : submit.language ∈ SUPPORTED
    · simp only [hl, if_true]
      refine (keeps_enqueue _).await.then fun obj => (keeps_read obj).then fun job => ?_
      exact (spends_detach _ (single_executeJob _ _ _ _ _ _) _).bind fun _ => single_pure _
    · simp only [hl, if_false]
      exact Spends.of_single (single_throw _)

end

/-! ### Runs -/

section
variable {b : Backend} {c c' : Config (apiSystem b)}

/-- Nothing that call `t` has enqueued is being executed. -/
def Unstarted (c : Config (apiSystem b)) (t : ℕ) : Prop :=
  ∀ x ∈ enqueues c.world.log, x.1.tid = t → ¬ StartedInline c x.2.id

/-- **No job has two executions**, and a submission that may still detach one has not yet. -/
structure OneEach (c : Config (apiSystem b)) : Prop where
  once : ∀ (t : ℕ) (a : Actor) (p : Thread) (body : Json), c.pool[t]? = some (a, p) →
    a.tag = .request (.execute body) → Once p ∧ (p.Single ∨ Unstarted c t)
  unique : ∀ (t u : ℕ) (a d : Actor) (p q : Thread) (j : String), c.pool[t]? = some (a, p) →
    c.pool[u]? = some (d, q) → a.tag = .inline j → d.tag = .inline j → t = u

/-- A call that is made enqueues nothing. -/
theorem enqueues_start (w : World) (a : Actor) : enqueues (w.start a).log = enqueues w.log := by
  simp [World.start, enqueueOf]

/-- Only what has been enqueued is executed. -/
theorem mem_ids_of_started (hc : Reachable b c) {j : String} (h : StartedInline c j) :
    j ∈ ids c.world.log := by
  obtain ⟨t, a, p, hp, ha⟩ := h
  exact (onCourse hc).known t a p j hp ha

/-- The calls of a pool where call `t` has gone on. -/
theorem started_of_set {t : ℕ} {a : Actor} {p q : Thread} (hp : c.pool[t]? = some (a, p))
    (hpool : c'.pool = c.pool.set t (a, q)) {j : String} (h : StartedInline c' j) :
    StartedInline c j := by
  obtain ⟨u, d, r, hu, hd⟩ := h
  rw [hpool] at hu
  rcases getElem?_set_cases hu with ⟨-, hu⟩ | ⟨rfl, he⟩
  · exact ⟨u, d, r, hu, hd⟩
  · cases he
    exact ⟨u, a, p, hp, hd⟩

/-- A call goes on and enqueues a job that is not executed, if it enqueues one. -/
theorem OneEach.goes (h : OneEach c) {t : ℕ} {a : Actor} {p q : Thread}
    (hp : c.pool[t]? = some (a, p)) (hpool : c'.pool = c.pool.set t (a, q))
    (henq : ∀ x ∈ enqueues c'.world.log,
      x ∈ enqueues c.world.log ∨ (x.1.tid = t ∧ ¬ StartedInline c x.2.id))
    (honce : Once p → Once q) (hsingle : p.Single → q.Single) : OneEach c' := by
  have hun : ∀ u, Unstarted c u → Unstarted c' u := by
    intro u hu x hx hxu hstarted
    have hold := started_of_set hp hpool hstarted
    rcases henq x hx with hx | ⟨-, hnew⟩
    · exact hu x hx hxu hold
    · exact hnew hold
  refine ⟨fun u d r body hu hd => ?_, fun u v d e r s j hu hv hd he => ?_⟩
  · rw [hpool] at hu
    rcases getElem?_set_cases hu with ⟨-, hu⟩ | ⟨rfl, he⟩
    · obtain ⟨hr, hone⟩ := h.once u d r body hu hd
      exact ⟨hr, hone.imp id (hun u)⟩
    · cases he
      obtain ⟨hr, hone⟩ := h.once u _ p body hp hd
      exact ⟨honce hr, hone.imp hsingle (hun u)⟩
  · have hback : ∀ {w : ℕ} {f : Actor} {x : Thread}, c'.pool[w]? = some (f, x) →
        ∃ y, c.pool[w]? = some (f, y) := by
      intro w f x hw
      rw [hpool] at hw
      rcases getElem?_set_cases hw with ⟨-, hw⟩ | ⟨rfl, he⟩
      · exact ⟨x, hw⟩
      · cases he
        exact ⟨p, hp⟩
    obtain ⟨r', hu⟩ := hback hu
    obtain ⟨s', hv⟩ := hback hv
    exact h.unique u v d e r' s' j hu hv hd he

/-- A request arrives. -/
theorem OneEach.arrive (h : OneEach c) (hc : Reachable b c) {tag : Task} {p : Thread}
    (hp : apiEntry b tag = some p) : OneEach { c with
      world := c.world.start (c.fresh tag)
      pool := c.pool ++ [(c.fresh tag, .yield p)] } := by
  have hlog := enqueues_start c.world (c.fresh tag)
  have hback : ∀ (u : ℕ) (d : Actor) (r : Thread) (j : String),
      (c.pool ++ [(c.fresh tag, .yield p)])[u]? = some (d, r) → d.tag = .inline j →
      c.pool[u]? = some (d, r) := by
    intro u d r j hu hd
    rcases getElem?_concat_cases hu with hu | ⟨-, he⟩
    · exact hu
    · cases he
      have htag : tag = .inline j := hd
      rw [htag] at hp
      cases hp
  refine ⟨fun u d r body hu hd => ?_, fun u v d e r s j hu hv hd he =>
    h.unique u v d e r s j (hback u d r j hu hd) (hback v e s j hv he) hd he⟩
  rcases getElem?_concat_cases hu with hu | ⟨hlen, he⟩
  · obtain ⟨hr, hone⟩ := h.once u d r body hu hd
    refine ⟨hr, hone.imp id fun hun x hx hxu => ?_⟩
    rw [hlog] at hx
    rintro ⟨v, e, s, hv, he⟩
    exact hun x hx hxu ⟨v, e, s, hback v e s _ hv he, he⟩
  · cases he
    have htag : tag = .request (.execute body) := hd
    rw [htag] at hp
    cases hp
    refine ⟨once_postExecute body, .inr fun x hx hxu => ?_⟩
    rw [hlog] at hx
    obtain ⟨q, hq⟩ := hc.of_enqueue hx
    have hlt : x.1.tid < c.pool.length := (List.getElem?_eq_some_iff.mp hq).1
    omega

/-- A submission detaches the execution of its job. -/
theorem OneEach.fork (h : OneEach c) (hc : Reachable b c) {t : ℕ} {a : Actor} {tag : Task}
    {child p : Thread} (hp : c.pool[t]? = some (a, .fork tag child p)) :
    OneEach { c with
      world := c.world.start (c.fresh tag)
      pool := c.pool.set t (a, p) ++ [(c.fresh tag, .yield child)] } := by
  obtain ⟨j, rfl, hj⟩ := forked (onCourse hc).conforms hp
  obtain ⟨x, hx, hxt, hxj⟩ := enqueue_of_known hj
  rw [(onCourse hc).conforms.wf.tid t a _ hp] at hxt
  -- the call has not detached anything yet
  obtain ⟨body, hbody⟩ : Handlers.Submits a := by
    obtain ⟨q, hq⟩ := hc.of_enqueue hx
    rw [hxt, hp] at hq
    cases hq
    exact hc.owners.1 x hx
  obtain ⟨⟨hchild, hrest⟩, hone⟩ := h.once t a _ body hp hbody
  have hun : Unstarted c t := hone.resolve_left fun hsingle => hsingle
  have hnone : ¬ StartedInline c j := hxj ▸ hun x hx hxt
  have hlog := enqueues_start c.world (c.fresh (.inline j))
  have hcases : ∀ (u : ℕ) (d : Actor) (r : Thread),
      (c.pool.set t (a, p) ++ [(c.fresh (.inline j), .yield child)])[u]? = some (d, r) →
      (u ≠ t ∧ c.pool[u]? = some (d, r)) ∨ (u = t ∧ d = a ∧ r = p) ∨
        u = c.pool.length ∧ d.tag = .inline j := by
    intro u d r hu
    rcases getElem?_concat_cases hu with hu | ⟨hlen, he⟩
    · rcases getElem?_set_cases hu with ⟨hne, hu⟩ | ⟨rfl, he⟩
      · exact .inl ⟨hne, hu⟩
      · cases he
        exact .inr (.inl ⟨rfl, rfl, rfl⟩)
    · cases he
      rw [List.length_set] at hlen
      exact .inr (.inr ⟨hlen, rfl⟩)
  -- an execution that is there now was there, or is the one of `j`
  have hinline : ∀ (u : ℕ) (d : Actor) (r : Thread) (i : String),
      (c.pool.set t (a, p) ++ [(c.fresh (.inline j), .yield child)])[u]? = some (d, r) →
      d.tag = .inline i →
      (i ≠ j ∧ c.pool[u]? = some (d, r)) ∨ (i = j ∧ u = c.pool.length) := by
    intro u d r i hu hd
    rcases hcases u d r hu with ⟨-, hold⟩ | ⟨-, rfl, -⟩ | ⟨hlen, htag⟩
    · refine .inl ⟨fun hij => ?_, hold⟩
      rw [hij] at hd
      exact hnone ⟨u, d, r, hold, hd⟩
    · rw [hbody] at hd
      cases hd
    · rw [hd] at htag
      cases htag
      exact .inr ⟨rfl, hlen⟩
  refine ⟨fun u d r body' hu hd => ?_, fun u v d e r s i hu hv hd he => ?_⟩
  · rcases hcases u d r hu with ⟨hne, hu⟩ | ⟨rfl, rfl, rfl⟩ | ⟨-, htag⟩
    · obtain ⟨hr, hone'⟩ := h.once u d r body' hu hd
      refine ⟨hr, hone'.imp id fun hun' y hy hyu => ?_⟩
      rw [hlog] at hy
      rintro ⟨v, e, s, hv, he⟩
      rcases hinline v e s _ hv he with ⟨-, hv⟩ | ⟨hyj, -⟩
      · exact hun' y hy hyu ⟨v, e, s, hv, he⟩
      · -- nobody else has enqueued what `t` has
        have hsame : x = y := List.inj_on_of_nodup_map hc.inv.nodup hx hy (hxj.trans hyj.symm)
        rw [← hsame, hxt] at hyu
        exact hne hyu.symm
    · exact ⟨once_of_single hrest, .inl hrest⟩
    · rw [hd] at htag
      cases htag
  · rcases hinline u d r i hu hd with ⟨hij, hu⟩ | ⟨hij, hlen⟩
    · rcases hinline v e s i hv he with ⟨-, hv⟩ | ⟨hij', -⟩
      · exact h.unique u v d e r s i hu hv hd he
      · exact absurd hij' hij
    · rcases hinline v e s i hv he with ⟨hij', -⟩ | ⟨-, hlen'⟩
      · exact absurd hij hij'
      · rw [hlen, hlen']

/-- What call `a` enqueues is not executed yet. -/
theorem unstarted_of_op (hc : Reachable b c) {t : ℕ} {a : Actor} {o : Op} {k : o.Answer → Thread}
    {r : o.Answer} (hp : c.pool[t]? = some (a, .op o k)) {x : Actor × Job}
    (hx : enqueueOf (.ran a o r) = some x) : x.1.tid = t ∧ ¬ StartedInline c x.2.id := by
  have hready := (hc.guar hp).1
  have hnew : x.1 = a ∧ x.2.id ∉ ids c.world.log := by
    unfold enqueueOf at hx
    split at hx
    · next he =>
      cases he
      cases hx
      exact ⟨rfl, hready.2.2.1⟩
    · next he =>
      cases he
      cases hx
      exact ⟨rfl, hready.2.2.2.2.2.1⟩
    · cases hx
  refine ⟨?_, fun hst => hnew.2 (mem_ids_of_started hc hst)⟩
  rw [hnew.1]
  exact (onCourse hc).conforms.wf.tid t a _ hp

/-- **The steps of the loop keep it.** -/
theorem OneEach.step (h : OneEach c) (hc : Reachable b c) {l : Label Task (apiSystem b).Input}
    (hs : c.step l = some c') : OneEach c' := by
  cases stepped_of_step hs with
  | arrive hrun hp => exact h.arrive hc hp
  | resume hrun hp => exact h.goes hp rfl (fun x hx => .inl hx) (fun hp => hp) fun hp => hp
  | @op t a o k i r w hrun hp hf =>
    refine h.goes hp rfl (fun x hx => ?_) (fun hp => hp r) fun hp => hp r
    obtain ⟨s, -, rfl⟩ := World.fire_eq_some.mp hf
    rw [enqueues_concat] at hx
    rcases List.mem_append.mp hx with hx | hx
    · exact .inl hx
    · exact .inr (unstarted_of_op hc hp (Option.mem_toList.mp hx))
  | fork hrun hp =>
    obtain ⟨honce, hunique⟩ := h.fork hc hp
    exact ⟨honce, hunique⟩
  | pause hrun hp hsus => exact ⟨h.once, h.unique⟩

theorem oneEach (hc : Reachable b c) : OneEach c := by
  induction hc with
  | refl =>
    exact ⟨fun t a p body hp _ => by simp [Config.init] at hp,
      fun t u a d p q j hp _ _ _ => by simp [Config.init] at hp⟩
  | step hr _ hs ih => exact ih.step hr hs

/-- **No job is executed inline twice.** -/
theorem one_execution (hc : Reachable b c) {t u : ℕ} {a d : Actor} {p q : Thread} {j : String}
    (ht : c.pool[t]? = some (a, p)) (hu : c.pool[u]? = some (d, q)) (ha : a.tag = .inline j)
    (hd : d.tag = .inline j) : t = u := (oneEach hc).unique t u a d p q j ht hu ha hd

/-- Every job that has been enqueued has been executed, and once. -/
def ExecutedOnce (c : Config (apiSystem b)) : Prop :=
  ∀ i ∈ ids c.world.log, ∃! t : ℕ, ∃ (a : Actor) (out : Outcome),
    c.pool[t]? = some (a, .done out) ∧ a.tag = .inline i

theorem executedOnce_of_stuck (hc : Reachable b c) (hstuck : Stuck OwnStep c) :
    ExecutedOnce c := by
  intro i hi
  have hsettled := (atRest_of_stuck hc hstuck).settled
  obtain ⟨x, hx, rfl⟩ := mem_ids.mp hi
  obtain ⟨p, hp⟩ := hc.of_enqueue hx
  obtain ⟨out, rfl⟩ := hsettled _ _ p hp
  obtain ⟨d, q, hq, hd⟩ := execution_of_answered hc hx hp
  obtain ⟨out', rfl⟩ := hsettled _ _ q hq
  refine ⟨d.tid, ⟨d, out', hq, hd⟩, ?_⟩
  rintro u ⟨e, out'', hu, he⟩
  exact one_execution hc hu hq he hd

/-- **Every job is executed inline exactly once**: left alone, the API comes to rest if nothing ends
its process, and there each job has one execution, which has settled. -/
theorem executed_once (hc : Reachable b c) : ComesToRest OwnStep c ExecutedOnce :=
  comes_of_stuck hc fun _ hc' hstuck => executedOnce_of_stuck hc' hstuck

end

/-- A job has been accepted and is polled for; its execution, call 1, has still to run. -/
theorem executed_once_run : ∃ c, (start .memory).run (submission 0 ++ poll 2) = some c ∧
    (pops c.world.log).map (·.2) = ["job"] ∧ ComesToRest OwnStep c ExecutedOnce := by
  obtain ⟨c, hc⟩ : ∃ c, (start .memory).run (submission 0 ++ poll 2) = some c :=
    Option.isSome_iff_exists.mp rfl
  have hpops : ((start .memory).run (submission 0 ++ poll 2)).map
      (fun c => (pops c.world.log).map (·.2)) = some ["job"] := rfl
  rw [hc, Option.map_some, Option.some_inj] at hpops
  exact ⟨c, hc, hpops, executed_once (reaches_of_run hc)⟩

end CodeHive.Api.OneExecution
