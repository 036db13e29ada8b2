import CodeHive.Api.Runs

/-! # A submitted job can be asked for

After `POST /api/execute` has answered 202 with an id, every later `GET /api/status` for it is
answered 200 with a result of that id: the record is there, it is the record of that job, and so is
its result, whichever calls rewrite it meanwhile, also from copies read before. -/

namespace CodeHive.Api.ReadYourWrites

set_option autoImplicit false

open CodeHive.Js.Value CodeHive.Api.Types CodeHive.Api.Stores CodeHive.Api.Messages
open CodeHive.Api.Program CodeHive.Api.Queue CodeHive.Api.Routes CodeHive.Api.System
open CodeHive.Api.History CodeHive.Api.Invariant CodeHive.Api.Handlers CodeHive.Api.Runs
open CodeHive.Concurrency.Calls CodeHive.Concurrency.Pool

/-- 200, with a body whose id is `i` and whose status is one of the five. -/
def Answers (i : String) (out : Outcome) : Prop :=
  ∃ r, out = .reply ⟨200, .result r⟩ ∧ r.id = i ∧
    r.status ∈ [Status.queued, .running, .completed, .failed, .timeout]

/-- The record of job `i` is its own, and so is the result in it. -/
def Own (i : String) (job : Job) : Prop := job.id = i ∧ ∀ r, job.result = some r → r.id = i

theorem own_of_keeps {job rec : Job} (h : Keeps job rec) : Own job.id rec := ⟨h.id, h.result⟩

theorem Own.statusResult {i : String} {job : Job} (h : Own i job) : (statusResult job).id = i := by
  unfold Routes.statusResult
  cases hr : job.result with
  | none => exact h.1
  | some r => exact h.2 r hr

theorem mem_statuses (s : Status) :
    s ∈ [Status.queued, .running, .completed, .failed, .timeout] := by
  cases s <;> simp

section
variable {b : Backend} {c c' : Config (apiSystem b)}

/-- What a submission enqueued before it answered. -/
theorem submitted_mem (hc : Reachable b c) {t : ℕ} {a : Actor} {body : Json}
    {i language : String} (ha : a.tag = .request (.execute body))
    (ht : c.pool[t]? = some (a, .done (.reply ⟨202, .queued i language⟩))) :
    i ∈ ids c.world.log := by
  have h := hc.achieved ht
  simp only [Achieved, ha] at h
  rcases h with ⟨job, lang, hr, hown, -⟩ | ⟨h400, -⟩
  · obtain ⟨rfl, -⟩ : i = job.id ∧ language = lang := by simpa using hr
    have hmem : job ∈ ownEnqueues c.world.log a.tid := by rw [hown]; exact List.mem_cons_self
    obtain ⟨d, -, hd⟩ := mem_ownEnqueues.mp hmem
    exact mem_ids.mpr ⟨_, hd, rfl⟩
  · exact absurd h400 (by simp)

/-- What a status request that has been answered was told. -/
theorem status_answers (hc : Reachable b c) {u : ℕ} {a : Actor} {i : String} {out : Outcome}
    (ha : a.tag = .request (.status i)) (hi : i ∈ ids (c.world.log.take a.born))
    (hu : c.pool[u]? = some (a, .done out)) : Answers i out := by
  obtain ⟨reply, rfl⟩ := hc.replied ha hu
  have h := hc.achieved hu
  simp only [Achieved, ha] at h
  rcases h with ⟨job, rfl, -, x, -, rfl, hkeep⟩ | ⟨hn, -⟩
  · exact ⟨_, rfl, (own_of_keeps hkeep).statusResult, mem_statuses _⟩
  · exact absurd hi hn

/-- **Read your writes.** Once a submission has been answered 202 with id `i`, every status request
for `i` made later is answered, and with nothing but 200 and a result of `i`; and at any time the
record under an id is its own. -/
theorem read_your_writes (b : Backend) {c : Config (apiSystem b)} (hc : Reachable b c) :
    (∀ (t : ℕ) (a : Actor) (body : Json) (i language : String),
      a.tag = .request (.execute body) →
      c.pool[t]? = some (a, .done (.reply ⟨202, .queued i language⟩)) →
      ∀ c', Reaches (AnyStep (apiSystem b)) c c' →
      ∀ (u : ℕ) (a' : Actor) (p : Thread), c.pool.length ≤ u → a'.tag = .request (.status i) →
        c'.pool[u]? = some (a', p) →
        (∀ out, p = .done out → Answers i out) ∧
        ∃ c'' out, Reaches (AnyStep (apiSystem b)) c' c'' ∧
          c''.pool[u]? = some (a', .done out) ∧ Answers i out) ∧
    ∀ i job, lookup b c.world.state i = some job → Own i job := by
  constructor
  · intro t a body i language ha ht c' hc' u a' p hlater ha' hu
    have hi := submitted_mem hc ha ht
    have hc₁ : Reachable b c' := hc.trans hc'
    have hi' : i ∈ ids (c'.world.log.take a'.born) := ids_mono (later_born hc' hu hlater) hi
    refine ⟨fun out hp => status_answers hc₁ ha' hi' (hp ▸ hu), ?_⟩
    obtain ⟨c'', out, hr, -, hdone⟩ := hc₁.finish hu
    refine ⟨c'', out, hr, hdone, status_answers (hc₁.trans hr) ha' ?_ hdone⟩
    exact ids_mono (later_born (hc'.trans hr) hdone hlater) hi
  · intro i job hl
    obtain ⟨x, hx, rfl⟩ := mem_ids.mp (hc.inv.known i job hl)
    exact own_of_keeps (hc.inv.keeps hx hl)

end

theorem read_your_writes_run : ∃ c c' a' p, (start .memory).run (submission 0) = some c ∧
    c.run (question 2) = some c' ∧ c'.pool[2]? = some (a', p) ∧
    ∃ c'' out, Reaches (AnyStep (apiSystem .memory)) c' c'' ∧
      c''.pool[2]? = some (a', .done out) ∧ Answers "job" out := by
  obtain ⟨c, hc⟩ : ∃ c, (start .memory).run (submission 0) = some c :=
    Option.isSome_iff_exists.mp rfl
  have hreply : ((start .memory).run (submission 0)).bind (fun c => c.pool[0]?) =
      some (⟨0, .request (.execute (.obj [("language", .str "python"), ("code", .str "print(1)")])), 0⟩,
        .done (.reply ⟨202, .queued "job" "python"⟩)) := rfl
  have hlen : ((start .memory).run (submission 0)).map (fun c => c.pool.length) = some 2 := rfl
  have hask : (((start .memory).run (submission 0)).bind
      fun c => c.run (question 2)).isSome = true := rfl
  have hp : ((((start .memory).run (submission 0)).bind fun c => c.run (question 2)).bind
      fun c => c.pool[2]?).map (fun x => x.1) = some ⟨2, .request (.status "job"), 8⟩ := rfl
  rw [hc, Option.bind_some] at hreply hask hp
  rw [hc, Option.map_some, Option.some.injEq] at hlen
  obtain ⟨c', hc'⟩ := Option.isSome_iff_exists.mp hask
  rw [hc', Option.bind_some, Option.map_eq_some_iff] at hp
  obtain ⟨⟨a', p⟩, hp, rfl⟩ := hp
  refine ⟨c, c', _, p, hc, hc', hp, ?_⟩
  exact ((read_your_writes .memory (reaches_of_run hc)).1 0 _ _ "job" "python" rfl hreply c'
    (reaches_of_run hc') 2 _ p (by omega) rfl hp).2

end CodeHive.Api.ReadYourWrites
