import CodeHive.Api.Alone
import CodeHive.Api.Records

/-! # The two backends are one store

For a client that makes one call after the other, both backends are the same abstract machine: a map
from ids to jobs and a line of ids, the oldest first (`JobQueue`). The in-memory queue shares its
objects with its callers and appends to an array; Redis keeps texts under prefixed keys and a list
that grows at its head. `Represents` relates either store to the abstract state, and every single
call keeps it. -/

namespace CodeHive.Api.SameStore

set_option autoImplicit false

open CodeHive.Js.Value CodeHive.Api.Types CodeHive.Api.Stores CodeHive.Api.Messages
open CodeHive.Api.Program CodeHive.Api.Queue CodeHive.Api.System CodeHive.Api.History
open CodeHive.Api.Records CodeHive.Api.Alone
open CodeHive.Concurrency.Calls CodeHive.Concurrency.Pool CodeHive.Concurrency.Solo

/-- A call, and the environment it meets: the time, and the id it is given. -/
abbrev Step := Call × Input

/-- **A call of the queue service on backend `b`**, made while nothing else happens. -/
def serve (b : Backend) (x : Step) (s : Store) : Option (Outcome × Store) :=
  alone (M := machine) (fun _ => x.2) ((perform b x.1).toThread .returned) s

/-! ### The abstract machine -/

/-- Jobs by their ids, and the ids that wait, the oldest first. -/
structure JobQueue where
  jobs : String → Option Job
  fifo : List String

namespace JobQueue

def empty : JobQueue := ⟨fun _ => none, []⟩

/-- The record under `i` becomes `job`; nothing else changes. -/
def put (q : JobQueue) (i : String) (job : Job) : JobQueue :=
  { q with jobs := Function.update q.jobs i (some job) }

/-- An update of a job that is there; of an unknown one it fails and changes nothing. -/
def update (q : JobQueue) (i : String) (u : PartialJob) (now : String) : Outcome × JobQueue :=
  match q.jobs i with
  | none => (.returned (.error (jobNotFound i)), q)
  | some job => (.returned (.ok none), q.put i (job.update u now))

/-- **What a call means.** -/
def serve (x : Step) (q : JobQueue) : Outcome × JobQueue :=
  let now := toISOString x.2.ms
  match x.1 with
  | .enqueue request =>
    let job := newJob x.2.uuid request now
    (.returned (.ok (some job)), { q.put x.2.uuid job with fifo := q.fifo ++ [x.2.uuid] })
  | .dequeue =>
    match q.fifo with
    | [] => (.returned (.ok none), q)
    | i :: rest => (.returned (.ok (q.jobs i)), { q with fifo := rest })
  | .getJob i => (.returned (.ok (q.jobs i)), q)
  | .updateJob i u => q.update i u now
  | .updateResult i r => q.update i { result := some (some r), status := some r.status } now
  | .executeJob _ _ _ _ _ => (.returned (.ok none), q)

end JobQueue

/-- The call is one of the queue service. -/
def OfQueue : Call → Prop
  | .executeJob _ _ _ _ _ => False
  | _ => True

/-- The ids that the enqueues of a sequence are given. -/
def given (calls : List Step) : List String :=
  calls.filterMap fun x =>
    match x.1 with
    | .enqueue _ => some x.2.uuid
    | _ => none

/-- A sequence of calls of the queue service, with ids that are fresh and not empty. -/
structure Admitted (calls : List Step) : Prop where
  queue : ∀ x ∈ calls, OfQueue x.1
  fresh : (given calls).Nodup
  nonempty : "" ∉ given calls

/-- **The store of backend `b` represents the abstract state** after the calls `before`. -/
structure Represents (b : Backend) (before : List Step) (s : Store) (q : JobQueue) : Prop where
  jobs : ∀ i, lookup b s i = q.jobs i
  fifo : pending b s = q.fifo
  issued : ∀ i ∈ s.issued, i ∈ given before
  stored : ∀ i ∈ q.fifo, i ≠ "" ∧ ∃ job, q.jobs i = some job

/-! ### Single calls -/

section
variable {b : Backend} {before : List Step} {s : Store} {q : JobQueue} {inp : Input}

theorem given_concat (x : Step) : given (before ++ [x]) = given before ++ given [x] :=
  List.filterMap_append

theorem Represents.later (h : Represents b before s q) (x : Step) :
    Represents b (before ++ [x]) s q where
  jobs := h.jobs
  fifo := h.fifo
  issued i hi := by rw [given_concat]; exact List.mem_append_left _ (h.issued i hi)
  stored := h.stored

/-- An update is a record put in place. -/
theorem Represents.put (h : Represents b before s q) {i : String} {job : Job} {s' : Store}
    (hs : Updated b s s' i job) : Represents b before s' (q.put i job) where
  jobs j := by rw [hs.lookup, h.jobs]; simp [JobQueue.put, Function.update_apply]
  fifo := hs.pending.trans h.fifo
  issued := by rw [hs.issued]; exact h.issued
  stored j hj := by
    obtain ⟨hne, job', hj'⟩ := h.stored j hj
    refine ⟨hne, ?_⟩
    by_cases hij : j = i
    · exact ⟨job, by simp [JobQueue.put, hij]⟩
    · exact ⟨job', by simp [JobQueue.put, hij, hj']⟩

/-- A call is served as it settles. -/
theorem serve_of_settles {call : Call} {r : Except JsError (Option Job)} {s' : Store}
    (h : Settles (M := machine) (fun _ => inp) (perform b call) s r s') :
    serve b (call, inp) s = some (.returned r, s') := h.toThread _

theorem serve_enqueue (h : Represents b before s q) {request : ExecutionRequest}
    (hx : Admitted (before ++ [(.enqueue request, inp)])) :
    ∃ s', serve b (.enqueue request, inp) s = some ((q.serve (.enqueue request, inp)).1, s') ∧
      Represents b (before ++ [(.enqueue request, inp)]) s'
        (q.serve (.enqueue request, inp)).2 := by
  have hgiven : given (before ++ [(.enqueue request, inp)]) = given before ++ [inp.uuid] :=
    given_concat _
  have hne : inp.uuid ≠ "" := fun he => hx.nonempty (by rw [hgiven, he]; simp)
  have hfresh : inp.uuid ∉ s.issued := by
    intro hi
    have hnodup := hx.fresh
    rw [hgiven, List.nodup_append] at hnodup
    exact hnodup.2.2 _ (h.issued _ hi) _ (List.mem_singleton_self _) rfl
  have hput : ∀ s', (∀ j, lookup b s' j = if j = inp.uuid then
        some (newJob inp.uuid request (toISOString inp.ms)) else lookup b s j) →
      pending b s' = pending b s ++ [inp.uuid] → s'.issued = inp.uuid :: s.issued →
      Represents b (before ++ [(.enqueue request, inp)]) s'
        (q.serve (.enqueue request, inp)).2 := by
    intro s' hl hp hi
    refine ⟨fun j => ?_, ?_, fun j hj => ?_, fun j hj => ?_⟩
    · rw [hl, h.jobs]; simp [JobQueue.serve, JobQueue.put, Function.update_apply]
    · rw [hp, h.fifo]; rfl
    · rw [hi] at hj
      rw [hgiven]
      rcases List.mem_cons.mp hj with rfl | hj
      · simp
      · exact List.mem_append_left _ (h.issued j hj)
    · by_cases hij : j = inp.uuid
      · exact ⟨hij ▸ hne, _, by rw [hij]; exact Function.update_self _ _ _⟩
      · rcases List.mem_append.mp hj with hj | hj
        · obtain ⟨hjne, job, hjob⟩ := h.stored j hj
          exact ⟨hjne, job, (Function.update_of_ne hij _ _).trans hjob⟩
        · exact absurd (List.mem_singleton.mp hj) hij
  obtain ⟨s', hs, hl, hp, hi⟩ := settles_enqueue (s := s) b request hne hfresh
  have hrecord : lookup b s' inp.uuid = some (newJob inp.uuid request (toISOString inp.ms)) := by
    rw [hl, if_pos rfl]
  exact ⟨s', serve_of_settles (hs.bind (settles_readOption_held hrecord)), hput s' hl hp hi⟩

theorem serve_dequeue (h : Represents b before s q) :
    ∃ s', serve b (.dequeue, inp) s = some ((q.serve (.dequeue, inp)).1, s') ∧
      Represents b (before ++ [(.dequeue, inp)]) s' (q.serve (.dequeue, inp)).2 := by
  have hfifo := h.fifo
  cases hq : q.fifo with
  | nil =>
    rw [hq] at hfifo
    have hserve : q.serve (.dequeue, inp) = (.returned (.ok none), q) := by
      simp [JobQueue.serve, hq]
    rw [hserve]
    exact ⟨s, serve_of_settles ((settles_dequeue_empty hfifo).bind (Settles.pure _ _ _)),
      h.later _⟩
  | cons i rest =>
    rw [hq] at hfifo
    obtain ⟨hne, job, hjob⟩ := h.stored i (by rw [hq]; exact List.mem_cons_self)
    have hserve : q.serve (.dequeue, inp) =
        (.returned (.ok (some job)), { q with fifo := rest }) := by
      simp [JobQueue.serve, hq, hjob]
    have hjobs := h.jobs i
    rw [hjob] at hjobs
    have hpop : ∀ s', (∀ j, lookup b s' j = lookup b s j) → pending b s' = rest →
        s'.issued = s.issued →
        Represents b (before ++ [(.dequeue, inp)]) s' { q with fifo := rest } := fun s' hl hp hi =>
      ⟨fun j => (hl j).trans (h.jobs j), hp, fun j hj => (h.later _).issued j (hi ▸ hj),
        fun j hj => h.stored j (by rw [hq]; exact List.mem_cons_of_mem _ hj)⟩
    rw [hserve]
    obtain ⟨s', hs, hl, hp, hi⟩ := settles_dequeue inp hfifo hne hjobs
    have hrecord : lookup b s' i = some job := (hl i).trans hjobs
    exact ⟨s', serve_of_settles (hs.bind (settles_readOption_held hrecord)), hpop s' hl hp hi⟩

/-- What `getJob` returns is the record. -/
theorem serve_getJob (b : Backend) (s : Store) (i : String) (inp : Input) :
    serve b (.getJob i, inp) s = some (.returned (.ok (lookup b s i)), s) := by
  cases hl : lookup b s i with
  | none => exact serve_of_settles ((settles_missing hl).bind (Settles.pure _ _ _))
  | some job => exact serve_of_settles ((settles_found hl).bind (settles_readOption_held hl))

/-- **An update of an unknown id** raises, and leaves the whole store as it is. -/
theorem serve_unknown (b : Backend) {s : Store} {i : String} (hl : lookup b s i = none)
    (inp : Input) (call : Call)
    (hcall : (∃ u, call = .updateJob i u) ∨ ∃ r, call = .updateResult i r) :
    serve b (call, inp) s = some (.returned (.error (jobNotFound i)), s) := by
  rcases hcall with ⟨u, rfl⟩ | ⟨r, rfl⟩
  · exact serve_of_settles (settles_updateJob_missing hl u).bind_error
  · exact serve_of_settles (settles_updateResult_missing hl r).bind_error

/-- An update of a known id returns, and the record is the updated one. -/
theorem serve_known (b : Backend) {s : Store} {i : String} {job : Job}
    (hl : lookup b s i = some job) (inp : Input) (call : Call) (u : PartialJob)
    (hcall : call = .updateJob i u ∨ ∃ r : ExecutionResult, call = .updateResult i r ∧
      u = { result := some (some r), status := some r.status }) :
    ∃ s', serve b (call, inp) s = some (.returned (.ok none), s') ∧
      Updated b s s' i (job.update u (toISOString inp.ms)) := by
  rcases hcall with rfl | ⟨r, rfl, rfl⟩
  · obtain ⟨s', hs, hup⟩ := settles_updateJob inp hl u
    exact ⟨s', serve_of_settles (hs.bind (Settles.pure _ _ _)), hup⟩
  · obtain ⟨s', hs, hup⟩ := settles_updateResult inp hl r
    exact ⟨s', serve_of_settles (hs.bind (Settles.pure _ _ _)), hup⟩

/-- **One call.** Both backends answer as the abstract machine does, and represent its state. -/
theorem serve_refines (b : Backend) (before : List Step) (x : Step) (s : Store) (q : JobQueue)
    (hx : Admitted (before ++ [x])) (h : Represents b before s q) :
    ∃ s', serve b x s = some ((q.serve x).1, s') ∧
      Represents b (before ++ [x]) s' (q.serve x).2 := by
  obtain ⟨call, inp⟩ := x
  have hup : ∀ i u, ((∃ u', call = .updateJob i u') ∨ ∃ r, call = .updateResult i r) →
      (call = .updateJob i u ∨ ∃ r : ExecutionResult, call = .updateResult i r ∧
        u = { result := some (some r), status := some r.status }) →
      ∃ s', serve b (call, inp) s = some ((q.update i u (toISOString inp.ms)).1, s') ∧
        Represents b (before ++ [(call, inp)]) s' (q.update i u (toISOString inp.ms)).2 := by
    intro i u hcall hu
    cases hq : q.jobs i with
    | none =>
      have hupdate : q.update i u (toISOString inp.ms) =
          (.returned (.error (jobNotFound i)), q) := by simp [JobQueue.update, hq]
      rw [hupdate]
      exact ⟨s, serve_unknown b ((h.jobs i).trans hq) inp call hcall, h.later _⟩
    | some job =>
      have hupdate : q.update i u (toISOString inp.ms) =
          (.returned (.ok none), q.put i (job.update u (toISOString inp.ms))) := by
        simp [JobQueue.update, hq]
      obtain ⟨s', hs, hup⟩ := serve_known b ((h.jobs i).trans hq) inp call u hu
      rw [hupdate]
      exact ⟨s', hs, (h.put hup).later _⟩
  cases call with
  | enqueue request => exact serve_enqueue h hx
  | dequeue => exact serve_dequeue h
  | getJob i => exact ⟨s, by rw [serve_getJob, h.jobs]; rfl, h.later _⟩
  | updateJob i u => exact hup i u (Or.inl ⟨u, rfl⟩) (Or.inl rfl)
  | updateResult i r => exact hup i _ (Or.inr ⟨r, rfl⟩) (Or.inr ⟨r, rfl, rfl⟩)
  | executeJob jobId language code stdin timeoutSec =>
    exact (hx.queue _ (List.mem_append_right _ List.mem_cons_self)).elim

theorem Admitted.left {calls calls' : List Step} (h : Admitted (calls ++ calls')) :
    Admitted calls := by
  have hgiven : given (calls ++ calls') = given calls ++ given calls' := List.filterMap_append
  have hfresh := h.fresh
  have hnonempty := h.nonempty
  rw [hgiven] at hfresh hnonempty
  exact ⟨fun x hx => h.queue x (List.mem_append_left _ hx), (List.nodup_append.mp hfresh).1,
    fun hmem => hnonempty (List.mem_append_left _ hmem)⟩

/-- A sequence of calls, made of an empty store. -/
theorem session_represents (b : Backend) {calls : List Step} (hc : Admitted calls) :
    ∃ s, session (serve b) calls Store.empty = some ((trace JobQueue.serve calls .empty).1, s) ∧
      Represents b calls s (trace JobQueue.serve calls .empty).2 := by
  refine session_refines (R := Represents b) (A := Admitted) (fun _ _ h => Admitted.left h)
    (serve_refines b) calls [] Store.empty .empty hc ⟨fun i => ?_, ?_, ?_, ?_⟩
  · cases b <;> rfl
  · cases b <;> rfl
  · simp [Store.empty]
  · simp [JobQueue.empty]

/-- **The two backends are the same store.** Every sequence of calls of the queue service is
answered by either backend just as the abstract machine answers it, call by call, and leaves the
store representing its state; and an update of an unknown id raises and leaves the whole store as it
is. -/
theorem same_store (calls : List Step) (hc : Admitted calls) :
    (∀ b, ∃ s, session (serve b) calls Store.empty =
        some ((trace JobQueue.serve calls .empty).1, s) ∧
      Represents b calls s (trace JobQueue.serve calls .empty).2) ∧
    ∀ (b : Backend) (s : Store) (i : String) (inp : Input) (call : Call), lookup b s i = none →
      ((∃ u, call = .updateJob i u) ∨ ∃ r, call = .updateResult i r) →
      serve b (call, inp) s = some (.returned (.error (jobNotFound i)), s) := by
  constructor
  · exact fun b => session_represents b hc
  · exact fun b s i inp call hl hcall => serve_unknown b hl inp call hcall

/-- In the pool: a call of a client that arrives while nothing else runs and is left alone. -/
theorem serve_reaches {b : Backend} {c : Config (clients b fun _ => true)} {x : Step}
    {out : Outcome} {s : Store} (hrun : c.running = none)
    (h : serve b x c.world.state = some (out, s)) :
    ∃ c', Reaches (AnyStep (clients b fun _ => true)) c c' ∧ c'.running = none ∧
      c'.pool[c.pool.length]? = some (c.fresh (.call x.1), .done out) ∧ c'.world.state = s :=
  alone_arrives hrun rfl h

end

/-- Two jobs are enqueued; one is taken off the queue, updated and asked for; an unknown one is
updated. -/
def someCalls : List Step :=
  [(.enqueue ⟨"", [], none, none, none, none⟩, { uuid := "a" }),
    (.enqueue ⟨"", [], none, none, none, none⟩, { uuid := "b" }),
    (.dequeue, {}), (.updateJob "a" { status := some .running }, {}), (.getJob "a", {}),
    (.updateJob "c" { status := some .running }, {})]

theorem same_store_run : ∃ outs s s', outs.length = 6 ∧
    session (serve .memory) someCalls Store.empty = some (outs, s) ∧
    session (serve .redis) someCalls Store.empty = some (outs, s') ∧
    serve .redis (.updateJob "c" {}, {}) Store.empty =
      some (.returned (.error (jobNotFound "c")), Store.empty) := by
  have hc : Admitted someCalls :=
    ⟨by simp [someCalls, OfQueue], by decide, by decide⟩
  have h := same_store someCalls hc
  obtain ⟨s, hs, -⟩ := h.1 .memory
  obtain ⟨s', hs', -⟩ := h.1 .redis
  exact ⟨_, s, s', rfl, hs, hs', h.2 .redis Store.empty "c" {} _ rfl (Or.inl ⟨{}, rfl⟩)⟩

end CodeHive.Api.SameStore
