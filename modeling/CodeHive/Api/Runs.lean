import CodeHive.Api.Handlers
import CodeHive.Api.Records

/-! # Runs of the API

A process of the API starts with empty stores. Whatever requests arrive and however their handlers
interleave, the invariant holds, an answered request has achieved what its handler is for, and every
call can be run to its end. -/

namespace CodeHive.Api.Runs

set_option autoImplicit false

open CodeHive.Js.Value CodeHive.Api.Types CodeHive.Api.Stores CodeHive.Api.Messages
open CodeHive.Api.Program CodeHive.Api.Queue CodeHive.Api.System CodeHive.Api.History
open CodeHive.Api.Invariant CodeHive.Api.Logic CodeHive.Api.Handlers
open CodeHive.Concurrency.Calls CodeHive.Concurrency.Pool CodeHive.Concurrency.RelyGuarantee

/-- A process of the API before its first request. -/
abbrev start (b : Backend) : Config (apiSystem b) := Config.init (apiSystem b) Store.empty

/-- `c` is reached by some interleaving of some requests. -/
abbrev Reachable (b : Backend) (c : Config (apiSystem b)) : Prop :=
  Reaches (AnyStep (apiSystem b)) (start b) c

theorem start_ok (b : Backend) : Ok (spec (terms b) (apiEntry b)) (start b) := .init (Inv.empty _)

section
variable {b : Backend} {c c' : Config (apiSystem b)}

/-- **The API keeps its specification.** -/
theorem Reachable.ok (h : Reachable b c) : Ok (spec (terms b) (apiEntry b)) c :=
  (start_ok b).reaches (entries b) (h.mono fun _ _ _ _ _ _ _ _ _ _ _ => trivial)

theorem Reachable.inv (h : Reachable b c) : Inv (terms b) c.world := h.ok.inv

/-- What a settled call has achieved. -/
theorem Reachable.achieved (h : Reachable b c) {t : ℕ} {a : Actor} {out : Outcome}
    (ht : c.pool[t]? = some (a, .done out)) : Achieved b a out c.world := h.ok.post ht

/-- A request that has settled has been answered. -/
theorem Reachable.replied (h : Reachable b c) {t : ℕ} {a : Actor} {out : Outcome} {r : Request}
    (ha : a.tag = .request r) (ht : c.pool[t]? = some (a, .done out)) :
    ∃ reply, out = .reply reply := by
  have hp := h.achieved ht
  cases out with
  | reply reply => exact ⟨reply, rfl⟩
  | settled x => cases r <;> simp [Achieved, ha] at hp
  | returned x => cases r <;> simp [Achieved, ha] at hp

/-- What the next primitive of a call needs and what it may be. -/
theorem Reachable.guar (h : Reachable b c) {t : ℕ} {a : Actor} {o : Op} {k : o.Answer → Thread}
    (ht : c.pool[t]? = some (a, .op o k)) : Ready (terms b) a c.world o ∧ Permits a o :=
  h.ok.guar ht

/-- **Every call can be run to its end.** -/
theorem Reachable.finish (h : Reachable b c) {t : ℕ} {a : Actor} {p : Thread}
    (ht : c.pool[t]? = some (a, p)) :
    ∃ c' out, Reaches (AnyStep (apiSystem b)) c c' ∧ c'.running = none ∧
      c'.pool[t]? = some (a, .done out) := by
  obtain ⟨c', out, hr, hrun, hdone⟩ := h.ok.finish (entries b) enabled ht
  exact ⟨c', out, hr.any, hrun, hdone⟩

/-- What a call may perform leaves enqueueing to submissions and taking off the queue to polls. -/
theorem owners_fire {a : Actor} {w w' : World} {o : Op} {i : Input} {r : o.Answer}
    (hp : Permits a o) (h : (∀ x ∈ enqueues w.log, Submits x.1) ∧ ∀ x ∈ pops w.log, Polls x.1)
    (hf : w.fire a o i = some (r, w')) :
    (∀ x ∈ enqueues w'.log, Submits x.1) ∧ ∀ x ∈ pops w'.log, Polls x.1 := by
  obtain ⟨s, -, rfl⟩ := World.fire_eq_some.mp hf
  simp only [enqueues_concat, pops_concat, List.mem_append, Option.mem_toList]
  constructor
  · rintro x (hx | hx)
    · exact h.1 x hx
    · unfold enqueueOf at hx
      split at hx
      · next he => cases he; exact (Option.some.inj hx) ▸ hp.1
      · next he => cases he; exact (Option.some.inj hx) ▸ hp.1
      · cases hx
  · rintro x (hx | hx)
    · exact h.2 x hx
    · unfold popOf at hx
      split at hx
      · next he => cases he; exact (Option.some.inj hx) ▸ hp
      · next he => cases he; exact (Option.some.inj hx) ▸ hp
      · cases hx

/-- Only submissions enqueue, and only polls take ids off the queue. -/
theorem Reachable.owners (h : Reachable b c) :
    (∀ x ∈ enqueues c.world.log, Submits x.1) ∧ ∀ x ∈ pops c.world.log, Polls x.1 := by
  refine (start_ok b).keeps (g := fun _ _ _ => True) (entries b) (fun _ _ _ _ => trivial)
    (J := fun w => (∀ x ∈ enqueues w.log, Submits x.1) ∧ ∀ x ∈ pops w.log, Polls x.1)
    (by simp [Config.init, enqueues, pops]) (fun w a hJ => ?_)
    (fun a w o i r w' _ hg _ hJ hf => owners_fire hg.2 hJ hf)
    (h.mono fun _ _ _ _ _ _ _ _ _ _ _ => trivial)
  simpa [World.start, enqueueOf, popOf] using hJ

/-- The call an event belongs to is in the pool. -/
theorem Reachable.of_enqueue (h : Reachable b c) {x : Actor × Job}
    (hx : x ∈ enqueues c.world.log) : ∃ p, c.pool[x.1.tid]? = some (x.1, p) := by
  obtain ⟨e, he, hex⟩ := List.mem_filterMap.mp hx
  rw [enqueueOf_actor hex]
  exact h.ok.wf.log e he

theorem Reachable.of_pop (h : Reachable b c) {x : Actor × String}
    (hx : x ∈ pops c.world.log) : ∃ p, c.pool[x.1.tid]? = some (x.1, p) := by
  obtain ⟨e, he, hex⟩ := List.mem_filterMap.mp hx
  rw [popOf_actor hex]
  exact h.ok.wf.log e he

/-- A call made after `c` was reached, and what had happened by then. -/
theorem later_born (hr : Reaches (AnyStep (apiSystem b)) c c') {t : ℕ} {a : Actor}
    {p : Thread} (ht : c'.pool[t]? = some (a, p)) (hlater : c.pool.length ≤ t) :
    c.world.log <+: c'.world.log.take a.born :=
  List.prefix_take_iff.mpr ⟨hr.extends.log, hr.extends.later t a p ht hlater⟩

end

/-! ### Pieces of schedules, in memory -/

/-- A submission that is answered; the inline execution that it starts is call `t + 1`. -/
def submission (t : ℕ) : List (Label Task Input) :=
  .arrive (.request (.execute (.obj [("language", .str "python"), ("code", .str "print(1)")]))) ::
    turn t 4 { uuid := "job" } ++ turn t 5 {}

/-- An inline execution, to its end. -/
def inlineExecution (t : ℕ) : List (Label Task Input) := turn t 5 {} ++ turn t 4 {} ++ turn t 3 {}

/-- A poll that is given a job. -/
def poll (t : ℕ) : List (Label Task Input) :=
  .arrive (.request (.jobsNext "w")) :: turn t 2 {} ++ turn t 3 {} ++ turn t 2 {}

/-- A status request that is answered. -/
def question (t : ℕ) : List (Label Task Input) :=
  .arrive (.request (.status "job")) :: turn t 2 {} ++ turn t 2 {}

end CodeHive.Api.Runs
