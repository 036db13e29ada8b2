import CodeHive.Api.Logic

/-! # Nothing is lost or duplicated in the Redis queue

Any number of clients share one Redis, and their single commands interleave in any order. What they
take off the queue, followed by what is still in it, is at any time what they have put into it; no
two of them are given the same job, and none is given an id without its record. -/

namespace CodeHive.Api.Conservation

set_option autoImplicit false

open CodeHive.Api.Types CodeHive.Api.Stores CodeHive.Api.Messages CodeHive.Api.Program
open CodeHive.Api.Queue CodeHive.Api.System CodeHive.Api.History CodeHive.Api.Invariant
open CodeHive.Api.Logic
open CodeHive.Concurrency.Calls CodeHive.Concurrency.Pool CodeHive.Concurrency.RelyGuarantee

/-- The calls of the clients: the five functions of the queue service. An update does not rename the
job; none of the API does. -/
def queueCalls : Call → Bool
  | .enqueue _ => true
  | .dequeue => true
  | .getJob _ => true
  | .updateJob i u => decide (u.id.getD i = i)
  | .updateResult _ _ => true
  | .executeJob _ _ _ _ _ => false

/-- Clients that share one Redis. -/
abbrev redisClients : System api Task Outcome := clients .redis queueCalls

/-- What a client has been given: nothing was there, or it is the record under the id that was taken
off the queue. -/
def Given (a : Actor) (w : World) (out : Outcome) : Prop :=
  (out = .returned (.ok none) ∧ ownPops w.log a.tid = []) ∨
  ∃ job, out = .returned (.ok (some job)) ∧ ownPops w.log a.tid = [job.id]

/-- What holds when a call of a client has settled. -/
def Served (a : Actor) (out : Outcome) (w : World) : Prop :=
  a.tag = .call .dequeue → Given a w out

/-- **The terms of the clients.** -/
def terms : Terms where
  b := .redis
  benign i u := u.id.getD i = i
  keeps job rec := rec.id = job.id
  benign_updatedAt _ _ := rfl
  keeps_new _ _ _ := rfl
  keeps_assign job rec u hu hk := by
    have hid : (rec.assign u).id = u.id.getD rec.id := rfl
    rw [hid, hk, hu]
  allowed a o := (o = .mem .dequeue ∨ ∃ list, o = .redis (.rpop list)) → a.tag = .call .dequeue
  plain a o ho := by
    rintro (rfl | ⟨list, rfl⟩) <;> exact ho.elim
  post := Served

section
variable {entry : Task → Option Thread} {a : Actor} {w : World}

/-- The calls of which nothing is said. -/
theorem safe_returned {out : Outcome} {call : Call} (ha : a.tag = .call call)
    (hne : call ≠ .dequeue) : Safe (spec terms entry) (.done out) a w := fun w' _ _ h => by
  rw [ha] at h
  cases h
  exact absurd rfl hne

theorem safe_readOption {i : String} {obj : JobObj} {k : Option Job → Thread}
    {e : JsError → Thread} (h : Inv terms w) (ho : Refers terms w i obj)
    (hk : ∀ job w', Rely a.tid w w' → Inv terms w' → job.id = i →
      Safe (spec terms entry) (k (some job)) a w') :
    Safe (spec terms entry) (readOption (some obj) k e) a w := by
  refine safe_read h ho fun job w' hr h' hx _ => ?_
  obtain ⟨x, -, hxi, hkeep⟩ := hx
  exact hk job w' hr h' (Eq.trans hkeep hxi)

theorem safe_dequeueCall (ha : a.tag = .call .dequeue) (hf : Fresh a w) (h : Inv terms w) :
    Safe (spec terms entry) ((perform .redis .dequeue).toThread .returned) a w := by
  refine safe_dequeue (b := .redis) rfl h (fun _ => ha)
    (fun i obj w₁ hlog hen hpop h₁ ho => ?_) fun w₁ hr₁ h₁ w₂ hr₂ _ _ => ?_
  · refine safe_readOption h₁ ho fun job w₂ hr₂ h₂ hid w₃ hr₃ _ _ => ?_
    refine Or.inr ⟨job, rfl, ?_⟩
    rw [(hr₂.trans hr₃).pops, hpop, hf.pops, hid]; rfl
  · exact Or.inl ⟨rfl, (hr₁.trans hr₂).pops.trans hf.pops⟩

/-- **Every call of a client is safe.** -/
theorem entries : Entries (spec terms (clientEntry .redis queueCalls)) := by
  intro tag p hp c w htag h hnew w' hr h'
  cases tag with
  | call call =>
    have hf : Fresh c w' := (Fresh.start hnew).mono hr
    simp only [clientEntry] at hp
    split_ifs at hp with hcall
    cases hp
    have hdone : call ≠ .dequeue → ∀ out w₁,
        Safe (spec terms (clientEntry .redis queueCalls)) (.done out) c w₁ :=
      fun hne out w₁ => safe_returned htag hne
    cases call with
    | enqueue request =>
      exact safe_enqueue (b := .redis) rfl h' nofun (fun _ _ => nofun)
        fun obj job w₁ _ _ _ h₁ ho => safe_readOption h₁ ho fun job w₂ _ _ _ => hdone nofun _ w₂
    | dequeue => exact safe_dequeueCall htag hf h'
    | getJob i =>
      exact safe_getJob (b := .redis) rfl h'
        (fun obj w₁ _ h₁ ho _ => safe_readOption h₁ ho fun job w₂ _ _ _ => hdone nofun _ w₂)
        fun w₁ _ _ _ => hdone nofun _ w₁
    | updateJob i u =>
      have hu : u.id.getD i = i := of_decide_eq_true hcall
      refine safe_updateJob (b := .redis) rfl h' hu (fun o ho => ?_)
        (fun w₁ _ _ _ _ => hdone nofun _ w₁) fun w₁ _ _ _ => hdone nofun _ w₁
      obtain ⟨rec, now, rfl⟩ := ho
      exact nofun
    | updateResult i r =>
      exact safe_updateResult (b := .redis) rfl h' (fun _ => rfl) (fun _ => nofun) (fun _ => nofun)
        (fun w₁ _ _ => hdone nofun _ w₁) fun _ w₁ _ _ => hdone nofun _ w₁
    | executeJob jobId language code stdin timeoutSec => cases hcall
  | request request => cases hp
  | inline jobId => cases hp

end

/-! ### Conservation -/

section
variable {c : Config redisClients}

/-- `c` is reached by some interleaving of the commands of some clients. -/
abbrev Reachable (c : Config redisClients) : Prop :=
  Reaches (AnyStep redisClients) (Config.init redisClients Store.empty) c

theorem reachable_ok (h : Reachable c) : Ok (spec terms (clientEntry .redis queueCalls)) c :=
  (Ok.init (Inv.empty _)).reaches entries (h.mono fun _ _ _ _ _ _ _ _ _ _ _ => trivial)

/-- A dequeue that took an id off the queue is given its record. -/
theorem given_of_pop (hc : Reachable c) {t : ℕ} {a : Actor} {i : String} {out : Outcome}
    (ha : a.tag = .call .dequeue) (hi : (a, i) ∈ pops c.world.log)
    (ht : c.pool[t]? = some (a, .done out)) :
    ∃ job, out = .returned (.ok (some job)) ∧ job.id = i := by
  have hown : i ∈ ownPops c.world.log a.tid := mem_ownPops.mpr ⟨a, rfl, hi⟩
  rcases (reachable_ok hc).post ht ha with ⟨-, hnil⟩ | ⟨job, rfl, hone⟩
  · rw [hnil] at hown; cases hown
  · rw [hone, List.mem_singleton] at hown
    exact ⟨job, rfl, hown.symm⟩

/-- A record that a dequeue was given was taken off the queue by it. -/
theorem pop_of_given (hc : Reachable c) {t : ℕ} {a : Actor} {job : Job}
    (ha : a.tag = .call .dequeue)
    (ht : c.pool[t]? = some (a, .done (.returned (.ok (some job))))) :
    ∃ a' : Actor, a'.tid = t ∧ (a', job.id) ∈ pops c.world.log := by
  rcases (reachable_ok hc).post ht ha with ⟨hout, -⟩ | ⟨job', hout, hone⟩
  · cases hout
  · cases hout
    have hown : job.id ∈ ownPops c.world.log a.tid := by rw [hone]; exact List.mem_cons_self
    obtain ⟨d, hd, hpop⟩ := mem_ownPops.mp hown
    exact ⟨d, hd.trans ((reachable_ok hc).wf.tid t a _ ht), hpop⟩

/-- **Conservation of the Redis queue**: (a) the ids taken off the queue, in order, followed by the
list read from its tail, are the ids enqueued, in order; (b) no two dequeues return the same job;
(c) a dequeue that has taken an id returns, and nothing but the record with that id. -/
theorem queue_conservation (hc : Reachable c) :
    (pops c.world.log).map (·.2) ++ (c.world.state.redis.lists QUEUE_KEY).reverse =
      ids c.world.log ∧
    (∀ (t t' : ℕ) (a a' : Actor) (job job' : Job),
      a.tag = .call .dequeue → c.pool[t]? = some (a, .done (.returned (.ok (some job)))) →
      a'.tag = .call .dequeue → c.pool[t']? = some (a', .done (.returned (.ok (some job')))) →
      job.id = job'.id → t = t') ∧
    ∀ (t : ℕ) (a : Actor) (p : Thread) (i : String),
      a.tag = .call .dequeue → c.pool[t]? = some (a, p) → (a, i) ∈ pops c.world.log →
      (∀ out, p = .done out → ∃ job, out = .returned (.ok (some job)) ∧ job.id = i) ∧
      ∃ c' job, Reaches (AnyStep redisClients) c c' ∧
        c'.pool[t]? = some (a, .done (.returned (.ok (some job)))) ∧ job.id = i := by
  have hok := reachable_ok hc
  refine ⟨hok.inv.fifo, fun t t' a a' job job' ha ht ha' ht' hid => ?_, fun t a p i ha ht hi => ?_⟩
  · obtain ⟨x, rfl, hx⟩ := pop_of_given hc ha ht
    obtain ⟨y, rfl, hy⟩ := pop_of_given hc ha' ht'
    exact congrArg (fun x => x.1.tid) (hok.inv.pop_unique hx hy hid)
  · refine ⟨fun out hp => given_of_pop hc ha hi (hp ▸ ht), ?_⟩
    obtain ⟨c', out, hr, -, hdone⟩ := hok.finish entries enabled ht
    have hi' : (a, i) ∈ pops c'.world.log := (hr.extends.log.filterMap _).subset hi
    have hc' : Reachable c' := hc.trans hr.any
    obtain ⟨job, rfl, hid⟩ := given_of_pop hc' ha hi' hdone
    exact ⟨c', job, hr.any, hdone, hid⟩

end

/-- One client enqueues, two dequeue at the same time, and one of them has taken the id. -/
def twoDequeues : List (Label Task Input) :=
  .arrive (.call (.enqueue ⟨"", [], none, none, none, none⟩)) :: .arrive (.call .dequeue) ::
    .arrive (.call .dequeue) :: turn 0 3 {} ++ turn 0 2 {} ++ turn 0 1 {} ++ turn 1 1 {} ++
    turn 2 1 {} ++ turn 1 2 {}

theorem queue_conservation_run : ∃ c a p,
    (Config.init redisClients Store.empty).run twoDequeues = some c ∧ c.pool[1]? = some (a, p) ∧
    ∃ c' job, Reaches (AnyStep redisClients) c c' ∧
      c'.pool[1]? = some (a, .done (.returned (.ok (some job)))) ∧ job.id = "id" := by
  obtain ⟨c, hc⟩ : ∃ c, (Config.init redisClients Store.empty).run twoDequeues = some c :=
    Option.isSome_iff_exists.mp rfl
  have hp : ∃ a p, ((Config.init redisClients Store.empty).run twoDequeues).bind
      (fun c => c.pool[1]?) = some (a, p) ∧ a = ⟨1, .call .dequeue, 1⟩ := ⟨_, _, rfl, rfl⟩
  have hpops : ((Config.init redisClients Store.empty).run twoDequeues).map
      (fun c => pops c.world.log) = some [(⟨1, .call .dequeue, 1⟩, "id")] := rfl
  rw [hc] at hp hpops
  obtain ⟨a, p, hp, rfl⟩ := hp
  rw [Option.map_some, Option.some.injEq] at hpops
  refine ⟨c, _, p, hc, hp, ?_⟩
  exact ((queue_conservation (reaches_of_run hc)).2.2 1 _ p "id" rfl hp
    (by rw [hpops]; exact List.mem_cons_self)).2

end CodeHive.Api.Conservation
