import CodeHive.Api.Runs
import CodeHive.Api.WsObserver

/-! # The live feed

The API and its WebSocket clients in one process. The feed is to tell every client of every change
of a status that is stored. Nobody calls `emitExecutionUpdate`, though: none of the three modules
that write a status imports the bus, so the steps of the API leave the observer alone. -/

namespace CodeHive.Api.LiveFeed

set_option autoImplicit false

open CodeHive.Api.Types CodeHive.Api.Stores CodeHive.Api.Messages CodeHive.Api.Program
open CodeHive.Api.Queue CodeHive.Api.System CodeHive.Api.History CodeHive.Api.Runs
open CodeHive.Api.WsObserver
open CodeHive.Concurrency.Pool (Config)
open CodeHive.Concurrency.Interleaving

/-! ### The process -/

structure State (b : Backend) where
  api : Config (apiSystem b)
  observer : WsObserver.State

/-- The process is started. -/
def State.init (b : Backend) : State b := ⟨start b, .init⟩

inductive Event where
  /-- A job has another status than before. -/
  | changed (jobId : String) (status : Status)
  | observed (e : WsObserver.Event)

inductive Label where
  /-- The API goes on. -/
  | api (l : Concurrency.Pool.Label Task Input)
  | client (x : ClientStep)

/-- The jobs whose stored status is another after a step, with the new one. -/
def statusChanges {b : Backend} (c c' : Config (apiSystem b)) : List (String × Status) :=
  (ids c'.world.log).filterMap fun i =>
    match lookup b c'.world.state i with
    | some job =>
      if (lookup b c.world.state i).map (·.status) = some job.status then none
      else some (i, job.status)
    | none => none

/-- **The API with its clients.** -/
def process (b : Backend) : Automaton (State b) Label Event where
  step s
    | .api l => (s.api.step l).map fun c =>
      ({ s with api := c }, (statusChanges s.api c).map fun x => .changed x.1 x.2)
    | .client x => some ({ s with observer := s.observer.client x }, [])

/-! ### What the feed is for -/

/-- The `status` of an event. -/
def statusText : Status → String
  | .queued => "queued"
  | .running => "running"
  | .completed => "completed"
  | .failed => "failed"
  | .timeout => "timeout"

/-- The changes of a job, in order. -/
def changesOf (jobId : String) (es : List Event) : List Status :=
  es.filterMap fun
    | .changed i status => if i = jobId then some status else none
    | .observed _ => none

/-- What the observer has done. -/
def observedOf : Event → Option WsObserver.Event
  | .changed _ _ => none
  | .observed e => some e

def observed (es : List Event) : List WsObserver.Event := es.filterMap observedOf

/-- The updates of a job that client `u` is sent, in order. -/
def updatesOf (u : ℕ) (jobId : String) (es : List Event) : List String :=
  ((sentTo u (observed es)).filter (·.jobId = jobId)).map (·.status)

/-- **The feed of client `u` is exact**: of every job that it wants it is told every change, once
and in order, and of no other. -/
def Exact (u : ℕ) (jobFilter : Option String) (es : List Event) : Prop :=
  ∀ jobId, updatesOf u jobId es =
    if wants jobFilter jobId then (changesOf jobId es).map statusText else []

/-- A client connects. -/
def State.connect {b : Backend} (s : State b) (jobFilter : Option String) : State b :=
  { s with observer := s.observer.connect jobFilter }

/-! ### Runs -/

section
variable {b : Backend} {s s' : State b} {es after : List Event}

/-- **The changes of a step are all there are**, if the API is in a state that it can be in. -/
theorem mem_statusChanges {c c' : Config (apiSystem b)} (hc' : Reachable b c') {i : String}
    {status : Status} : (i, status) ∈ statusChanges c c' ↔
      (lookup b c'.world.state i).map (·.status) = some status ∧
        (lookup b c.world.state i).map (·.status) ≠ some status := by
  unfold statusChanges
  rw [List.mem_filterMap]
  constructor
  · rintro ⟨j, -, h⟩
    split at h
    · next job hjob =>
      split at h
      · cases h
      · next hne =>
        cases h
        exact ⟨by rw [hjob]; rfl, hne⟩
    · cases h
  · rintro ⟨h, hne⟩
    obtain ⟨job, hjob, rfl⟩ := Option.map_eq_some_iff.mp h
    refine ⟨i, hc'.inv.known i job hjob, ?_⟩
    rw [hjob]
    exact if_neg hne

/-- The observer is a part of the process. -/
theorem observer_part (b : Backend) : Part (process b) observer State.observer observedOf where
  step s l s' new hs := by
    cases l with
    | api l =>
      obtain ⟨c, -, h⟩ := Option.map_eq_some_iff.mp hs
      cases h
      refine Or.inl ⟨rfl, ?_⟩
      rw [List.filterMap_map]
      exact List.filterMap_none _
    | client x =>
      cases hs
      exact Or.inr ⟨.client x, rfl⟩

/-- **Nothing is emitted.** -/
theorem emittedIn_observed (h : Reaches (process b) s es s') : emittedIn (observed es) = [] := by
  refine h.keeps (I := fun es _ => emittedIn (observed es) = []) rfl ?_
  intro es s l s' new _ hnil hs
  have hnew : emittedIn (observed new) = [] := by
    cases l with
    | api l =>
      obtain ⟨c, -, h⟩ := Option.map_eq_some_iff.mp hs
      cases h
      unfold observed emittedIn
      rw [List.filterMap_map, List.filterMap_filterMap]
      exact List.filterMap_none _
    | client x =>
      cases hs
      rfl
  unfold observed at hnil hnew ⊢
  rw [List.filterMap_append, emittedIn_append, hnil, hnew]
  rfl

/-- **So nothing is sent to a client that stays connected and open.** -/
theorem updatesOf_eq_nil (hs : Reaches (process b) (.init b) es s) {jobFilter : Option String}
    (h : Reaches (process b) (s.connect jobFilter) after s')
    (ho : IsOpen s.observer.next s'.observer) (jobId : String) :
    updatesOf s.observer.next jobId after = [] := by
  have hbefore : Reaches observer .init (observed es) s.observer := (observer_part b).reaches hs
  have hafter : Reaches observer (s.observer.connect jobFilter) (observed after) s'.observer :=
    (observer_part b).reaches h
  unfold updatesOf
  rw [sentTo_eq hbefore hafter ho, emittedIn_observed h]
  rfl

/-- **The feed of a client that connects and stays connected and open is exact exactly when no
change of a status that it wants is stored meanwhile.** -/
theorem exact_iff (b : Backend) {es after : List Event} {s s' : State b}
    {jobFilter : Option String} (hs : Reaches (process b) (.init b) es s)
    (h : Reaches (process b) (s.connect jobFilter) after s')
    (ho : IsOpen s.observer.next s'.observer) :
    Exact s.observer.next jobFilter after ↔
      ∀ jobId, wants jobFilter jobId = true → changesOf jobId after = [] := by
  refine forall_congr' fun jobId => ?_
  rw [updatesOf_eq_nil hs h ho]
  by_cases hw : wants jobFilter jobId = true
  · rw [if_pos hw, eq_comm, List.map_eq_nil_iff]
    exact ⟨fun h _ => h, fun h => h hw⟩
  · rw [if_neg hw]
    exact iff_of_true rfl fun h => absurd h hw

end

/-! ### Two clients -/

/-- A submission, in the process. -/
def submitted : List Label := (submission 0).map .api

/-- **A client without a filter is not told of a submission**, which changes the status of the job
twice. -/
theorem submission_untold : ∃ s' after,
    (process .memory).run ((State.init .memory).connect none) submitted = some (s', after) ∧
    IsOpen 0 s'.observer ∧ changesOf "job" after = [.queued, .running] ∧
    updatesOf 0 "job" after = [] ∧ ¬ Exact 0 none after := by
  obtain ⟨⟨s', after⟩, hrun⟩ : ∃ x, (process .memory).run ((State.init .memory).connect none)
      submitted = some x := Option.isSome_iff_exists.mp rfl
  have hclients : ((process .memory).run ((State.init .memory).connect none) submitted).map
      (fun x => x.1.observer.clients) = some [⟨0, .OPEN, none⟩] := rfl
  have hchanges : ((process .memory).run ((State.init .memory).connect none) submitted).map
      (fun x => changesOf "job" x.2) = some [.queued, .running] := rfl
  have hupdates : ((process .memory).run ((State.init .memory).connect none) submitted).map
      (fun x => updatesOf 0 "job" x.2) = some [] := rfl
  rw [hrun, Option.map_some, Option.some.injEq] at hclients hchanges hupdates
  refine ⟨s', after, hrun, ⟨_, hclients ▸ List.mem_cons_self, rfl, rfl⟩, hchanges, hupdates, ?_⟩
  intro h
  have hjob := h "job"
  rw [hupdates, hchanges] at hjob
  cases hjob

/-- A client that waits for another job is told nothing, as it should be. -/
theorem other_told : ∃ s' after,
    (process .memory).run ((State.init .memory).connect (some "other")) submitted =
      some (s', after) ∧ Exact 0 (some "other") after := by
  obtain ⟨⟨s', after⟩, hrun⟩ : ∃ x, (process .memory).run
      ((State.init .memory).connect (some "other")) submitted = some x :=
    Option.isSome_iff_exists.mp rfl
  have hclients : ((process .memory).run ((State.init .memory).connect (some "other"))
      submitted).map (fun x => x.1.observer.clients) = some [⟨0, .OPEN, some "other"⟩] := rfl
  have hchanges : ((process .memory).run ((State.init .memory).connect (some "other"))
      submitted).map (fun x => changesOf "other" x.2) = some [] := rfl
  rw [hrun, Option.map_some, Option.some.injEq] at hclients hchanges
  have hopen : IsOpen 0 s'.observer := ⟨_, hclients ▸ List.mem_cons_self, rfl, rfl⟩
  refine ⟨s', after, hrun, (exact_iff .memory .refl (reaches_of_run hrun) hopen).mpr ?_⟩
  intro jobId hw
  have hother : jobId = "other" := by
    have hor := hw
    simp only [wants, Bool.or_eq_true, decide_eq_true_eq] at hor
    rcases hor with hempty | hother
    · exact absurd hempty (by decide)
    · exact hother.symm
  rw [hother]
  exact hchanges

end CodeHive.Api.LiveFeed
