import CodeHive.Orchestrator.Conservation
import CodeHive.Orchestrator.FinalResults

/-! # Accepted and unknown

Between its acceptance and its result a job is known to the dispatcher only: a status request that
comes before the result is stored is told that there is no such job. A job that is taken with
`Dequeue` never has a result here. -/

namespace CodeHive.Orchestrator.UnknownJobs

set_option autoImplicit false

open CodeHive.Concurrency.Interleaving CodeHive.Go.Sync CodeHive.Lists.Slots
open CodeHive.Orchestrator.Types CodeHive.Orchestrator.Runner CodeHive.Orchestrator.JobFlow
open CodeHive.Orchestrator.Outcomes CodeHive.Orchestrator.Conservation
open CodeHive.Orchestrator.ApiServer CodeHive.Orchestrator.Submissions
open CodeHive.Orchestrator.StatusAnswers CodeHive.Orchestrator.FinalResults

/-- Status request `k` came when `P` held of the history. -/
def AskedWhen (P : History → Prop) (es : History) (k : ℕ) (id : String) : Prop :=
  ∃ es₀ es₁, es = es₀ ++ .asked k id :: es₁ ∧ P es₀

/-- Some submission has been answered 202 with this id. -/
def Returned (id : String) (es : History) : Prop := ∃ h, .accepted h (acceptance id) ∈ es

/-- A result has been stored under this id. -/
def Stored (id : String) (es : History) : Prop := ∃ h r, .stored h id r ∈ es

/-- There is a row for this id: it was there from the start, or has been saved. -/
def HasRow (rows : Rows) (id : String) (es : History) : Prop :=
  (Map.Load rows id).isSome ∨ ∃ h r, .saved h r ∈ es ∧ r.ID = id

/-- The database has answered status request `k` and had a row. -/
def RowFound (db : Option Rows) (es : History) (k : ℕ) (id : String) : Prop :=
  ∃ es₀ rows, es = es₀ ++ [.queried k false] ∧ db = some rows ∧ HasRow rows id es₀

/-- **There is a result when status request `k` looks for it**: one was stored under its id when it
came, or the database has a row for it when it is asked, and does not fail. -/
def ResultThere (db : Option Rows) (es : History) (k : ℕ) (id : String) : Prop :=
  AskedWhen (Stored id) es k id ∨ RowFound db es k id

/-- The reply says that the job is queued or running. -/
def Pending (reply : Reply) : Prop :=
  ∃ r, reply.body = .result r ∧ (r.Status = JobStatusQueued ∨ r.Status = JobStatusRunning)

/-- **An accepted job is never unknown**: no status request that comes after an id was returned is
answered 404, and until there is a result it is told that the job is queued or running. -/
def NeverUnknown (db : Option Rows) (es : History) : Prop :=
  ∀ es₁ k id reply es₂, es = es₁ ++ .told k id reply :: es₂ → AskedWhen (Returned id) es₁ k id →
    reply.code ≠ 404 ∧ (¬ ResultThere db es₁ k id → Pending reply)

section
variable {n : ℕ} {db : Option Rows} {es : History} {s : Server}

/-! ### Status requests have numbers of their own -/

/-- A status request is the next one, and its coming is the first that is seen of it. -/
theorem asked_new {s' : Server} {new es₁ es₂ : History} {k : ℕ} {id : String}
    (hm : ApiServer.Move s s' new) (hnew : new = es₁ ++ .asked k id :: es₂) :
    k = s.queries.length ∧ es₁ = [] ∧ k < s'.queries.length := by
  have hmem : .asked k id ∈ new := hnew ▸ List.mem_append_right _ List.mem_cons_self
  cases hm with
  | hit hload =>
    cases es₁ with
    | nil => cases hnew; exact ⟨rfl, rfl, by simp [Server.tell]⟩
    | cons e es₁ => simp [Server.tell, List.cons_eq_append_iff] at hnew
  | miss hload hdb =>
    cases es₁ with
    | nil => cases hnew; exact ⟨rfl, rfl, by simp [Server.tell]⟩
    | cons e es₁ => simp [Server.tell, List.cons_eq_append_iff] at hnew
  | ask hload hdb =>
    cases es₁ with
    | nil => cases hnew; exact ⟨rfl, rfl, by simp⟩
    | cons e es₁ => simp at hnew
  | collect hx hp => cases hmem
  | drop hx hp => cases hmem
  | _ => simp at hmem

theorem queries_le {s' : Server} {new : History} (hm : ApiServer.Move s s' new) :
    s.queries.length ≤ s'.queries.length := by
  cases hm <;> simp [Server.enroll, Server.tell]

theorem asked_lt (h : Reaches server (start n db) es s) :
    ∀ k id, .asked k id ∈ es → k < s.queries.length := by
  refine h.keeps (I := fun es s => ∀ k id, .asked k id ∈ es → k < s.queries.length)
    (fun _ _ he => (by cases he)) fun es s l s' new _ ih hs k id he => ?_
  rcases List.mem_append.mp he with he | he
  · exact Nat.lt_of_lt_of_le (ih k id he) (queries_le (move_of_step hs))
  · obtain ⟨a, b, hnew⟩ := List.append_of_mem he
    exact (asked_new (move_of_step hs) hnew).2.2

/-- **A status request comes once.** -/
theorem asked_once (h : Reaches server (start n db) es s) {a b : History} {k : ℕ} {id : String}
    (hes : es = a ++ .asked k id :: b) (id' : String) : .asked k id' ∉ a := by
  refine h.each (Q := fun a e => ∀ k id, e = .asked k id → ∀ id', .asked k id' ∉ a)
    (fun es s l s' new hr hs a e b hnew k id he id' hmem => ?_) a _ b hes k id rfl id'
  subst he
  obtain ⟨rfl, rfl, -⟩ := asked_new (move_of_step hs) hnew
  rw [List.append_nil] at hmem
  exact Nat.lt_irrefl _ (asked_lt hr _ _ hmem)

theorem asked_unique (h : Reaches server (start n db) es s) {a b a' b' : History} {k : ℕ}
    {id id' : String} (hes : es = a ++ .asked k id :: b) (hes' : es = a' ++ .asked k id' :: b') :
    a = a' := by
  rcases List.append_eq_append_iff.mp (hes.symm.trans hes') with ⟨c, rfl, hc⟩ | ⟨c, rfl, hc⟩
  · cases c with
    | nil => exact (List.append_nil a).symm
    | cons e c =>
      cases hc
      exact absurd (List.mem_append_right _ List.mem_cons_self) (asked_once h hes' id)
  · cases c with
    | nil => exact List.append_nil a'
    | cons e c =>
      cases hc
      exact absurd (List.mem_append_right _ List.mem_cons_self) (asked_once h hes id')

/-! ### What a status request is told -/

theorem stored_iff {id : String} : Stored id es ↔ lastStored es id ≠ none := by
  constructor
  · rintro ⟨h, r, he⟩ hnone
    exact not_stored_of_lastStored hnone he
  · intro hne
    obtain ⟨r, hr⟩ := Option.ne_none_iff_exists'.mp hne
    obtain ⟨h, he⟩ := stored_of_lastStored hr
    exact ⟨h, r, he⟩

theorem load_SaveResult (rows : Rows) (r : ExecutionResult) (id : String) :
    (Map.Load (Rows.SaveResult rows r) id).isSome ↔ (Map.Load rows id).isSome ∨ r.ID = id := by
  rw [Rows.SaveResult, Map.Load_Store]
  by_cases hid : id = r.ID
  · simp [hid]
  · simp [hid, Ne.symm hid]

/-- The rows after a history are those from the start and those saved. -/
theorem load_rowsAfter (rows : Rows) (id : String) (es : History) :
    (Map.Load (rowsAfter es rows) id).isSome ↔ HasRow rows id es := by
  induction es generalizing rows with
  | nil => exact ⟨Or.inl, fun h => h.elim (fun h => h) fun ⟨_, _, he, _⟩ => by cases he⟩
  | cons e es ih =>
    cases e with
    | saved k r =>
      rw [show rowsAfter (.saved k r :: es) rows = rowsAfter es (Rows.SaveResult rows r) from rfl, ih]
      simp only [HasRow, load_SaveResult, List.mem_cons]
      constructor
      · rintro ((hrow | hid) | ⟨h, r', he, hid⟩)
        · exact Or.inl hrow
        · exact Or.inr ⟨k, r, Or.inl rfl, hid⟩
        · exact Or.inr ⟨h, r', Or.inr he, hid⟩
      · rintro (hrow | ⟨h, r', he | he, hid⟩)
        · exact Or.inl (Or.inl hrow)
        · cases he
          exact Or.inl (Or.inr hid)
        · exact Or.inr ⟨h, r', he, hid⟩
    | _ => simpa [HasRow, rowsAfter, savedOf, List.filterMap_cons] using ih rows

theorem rowReply_code (row : Option ExecutionResult) : (rowReply row).code ≠ 404 ↔ row.isSome := by
  cases row <;> simp [rowReply, writeError]

/-- A request that came when nothing was stored under its id did not come when something was. -/
theorem not_askedWhen_stored (h : Reaches server (start n db) es s) {es₀ rest : History} {k : ℕ}
    {id : String} (hpre : es₀ ++ .asked k id :: rest <+: es) (hlast : lastStored es₀ id = none) :
    ¬ AskedWhen (Stored id) (es₀ ++ .asked k id :: rest) k id := by
  rintro ⟨a, b, hab, hstored⟩
  obtain ⟨later, hes⟩ := hpre
  have hfirst : es = es₀ ++ .asked k id :: (rest ++ later) := by simp [← hes]
  have hsecond : es = a ++ .asked k id :: (b ++ later) := by simp [← hes, hab]
  rw [asked_unique h hsecond hfirst] at hstored
  exact stored_iff.mp hstored hlast

/-- The database has a row to answer with exactly where it does not fail and there is one. -/
theorem rowFound_iff {es₀ : History} {rows : Rows} {k : ℕ} {id : String} {fails : Bool} :
    (Rows.GetResult (rowsAfter (es₀ ++ [.queried k fails]) rows) id fails).isSome ↔
      RowFound (some rows) (es₀ ++ [.queried k fails]) k id := by
  have hrow : (Map.Load (rowsAfter (es₀ ++ [.queried k fails]) rows) id).isSome ↔
      HasRow rows id es₀ := by
    rw [rowsAfter_append, ← load_rowsAfter]
    rfl
  constructor
  · intro hsome
    cases fails with
    | true => cases hsome
    | false => exact ⟨es₀, rows, rfl, rfl, hrow.mp hsome⟩
  · rintro ⟨x, rows', hx, hrows, hhas⟩
    obtain ⟨rfl, hqueried⟩ := List.append_inj' hx rfl
    cases hqueried
    cases hrows
    exact hrow.mpr hhas

/-- **A status request is answered 404 exactly where there is no result.** -/
theorem told_iff (h : Reaches server (start n db) es s) {es₁ es₂ : History} {k : ℕ} {id : String}
    {reply : Reply} (hes : es = es₁ ++ .told k id reply :: es₂) :
    reply.code ≠ 404 ↔ ResultThere db es₁ k id := by
  have hpre : es₁ <+: es := hes ▸ List.prefix_append _ _
  cases told h hes with
  | hit es₀ r hes₁ hlast hreply =>
    rw [hreply]
    refine iff_of_true (by simp) (Or.inl ⟨es₀, [], hes₁, stored_iff.mpr ?_⟩)
    rw [hlast]
    simp
  | miss es₀ hes₁ hlast hdb hreply =>
    subst hes₁
    rw [hreply]
    refine iff_of_false (fun hne => hne rfl) ?_
    rintro (hleft | ⟨x, rows, -, hrows, -⟩)
    · exact not_askedWhen_stored h hpre hlast hleft
    · rw [hdb] at hrows
      cases hrows
  | row es₀ rest fails rows hes₁ hlast hdb hreply =>
    rw [hreply, rowReply_code, hes₁, hdb, rowFound_iff]
    have hnot : ¬ AskedWhen (Stored id) (es₀ ++ .asked k id :: (rest ++ [.queried k fails])) k id :=
      not_askedWhen_stored h (by simpa [hes₁] using hpre) hlast
    refine ⟨Or.inr, fun hthere => hthere.resolve_left ?_⟩
    simpa using hnot

/-- **A job taken with `Dequeue` never has a result** in the results map. -/
theorem not_stored_of_dequeued (h : Reaches server (start n db) es s) {k : ℕ}
    (hd : .runner (.dequeued k) ∈ es) (id : String) (r : ExecutionResult) :
    .stored k id r ∉ es := by
  intro he
  obtain ⟨x, -, -, -, hdel, -⟩ := (inv h).stored he
  have hr := runner_reaches h
  have hsettled := settled hr
  have hres : r ∈ resultsFor k (es.filterMap runnerEvent) := by
    rw [hsettled.buffered k]
    exact List.mem_append_left _ (mem_deliveries.mpr (mem_runner.mpr hdel))
  have hfinished : k ∈ finished (es.filterMap runnerEvent) :=
    List.mem_map.mpr ⟨(k, r), List.mem_filterMap.mpr ⟨_, mem_resultsFor.mp hres, rfl⟩, rfl⟩
  have hdequeued : k ∈ dequeues (es.filterMap runnerEvent) :=
    List.mem_filterMap.mpr ⟨_, mem_runner.mpr hd, rfl⟩
  have hle := count_le_one (flow hr) k
  have h₁ := List.count_pos_iff.mpr hfinished
  have h₂ := List.count_pos_iff.mpr hdequeued
  omega

end

/-- **An accepted job is never unknown** in a run exactly where every status request for a returned
id comes when there is a result. -/
theorem never_unknown_iff {n : ℕ} {db : Option Rows} {es : History} {s : Server}
    (h : Reaches server (start n db) es s) : NeverUnknown db es ↔
      ∀ es₁ k id reply es₂, es = es₁ ++ .told k id reply :: es₂ →
        AskedWhen (Returned id) es₁ k id → ResultThere db es₁ k id := by
  constructor
  · exact fun hk es₁ k id reply es₂ hes ha => (told_iff h hes).mp (hk es₁ k id reply es₂ hes ha).1
  · intro hk es₁ k id reply es₂ hes ha
    have hthere := hk es₁ k id reply es₂ hes ha
    exact ⟨(told_iff h hes).mpr hthere, fun hnot => absurd hthere hnot⟩

/-- What is seen of a submission with id `a`. -/
def acceptedHistory : History :=
  [.received 0 "a" 1, .runner (.sent 0), .submitted 0 "a", .accepted 0 (acceptance "a")]

/-- What is seen of its execution, and of the collection of its result. -/
def executedHistory : History :=
  [.runner (.received 0 0), .runner (.execute 0 0), .runner (.executed 0 0 (output "1")),
    .runner (.result 0 (result "a" "1")), .runner (.delivered 0 (result "a" "1")),
    .stored 0 "a" (result "a" "1")]

theorem never_unknown_run : ∃ es s, server.run (start 1 none) (submission 0 "a" ++
      (execution 0 "1").map .runner ++ collection 0 ++ [.status "GET" "a"]) = some (s, es) ∧
    .told 0 "a" ⟨200, .result (result "a" "1")⟩ ∈ es ∧ NeverUnknown none es := by
  have hrun : ∃ s, server.run (start 1 none) (submission 0 "a" ++ (execution 0 "1").map .runner ++
      collection 0 ++ [.status "GET" "a"]) = some (s, (acceptedHistory ++ executedHistory ++
        [.asked 0 "a"]) ++ [.told 0 "a" ⟨200, .result (result "a" "1")⟩]) := ⟨_, rfl⟩
  obtain ⟨s, hs⟩ := hrun
  refine ⟨_, s, hs, by simp, (never_unknown_iff (reaches_of_run hs)).mpr ?_⟩
  intro es₁ k id reply es₂ hes _
  have hnot : .told k id reply ∉ acceptedHistory ++ executedHistory ++ [.asked 0 "a"] := by
    simp [acceptedHistory, executedHistory]
  have hlast : es₁ = acceptedHistory ++ executedHistory ++ [.asked 0 "a"] ∧
      (.told k id reply : ApiServer.Event) = .told 0 "a" ⟨200, .result (result "a" "1")⟩ := by
    rcases List.append_eq_append_iff.mp hes with ⟨c, rfl, hc⟩ | ⟨c, hc, htold⟩
    · cases c with
      | nil => cases hc; exact ⟨List.append_nil _, rfl⟩
      | cons e c => simp at hc
    · cases c with
      | nil => cases htold; exact ⟨by rw [hc, List.append_nil], rfl⟩
      | cons e c =>
        cases htold
        exact absurd (hc ▸ List.mem_append_right _ List.mem_cons_self) hnot
  obtain ⟨rfl, htold⟩ := hlast
  cases htold
  exact Or.inl ⟨_, [], rfl, 0, result "a" "1", by simp [executedHistory]⟩

/-- **A status request right after the acceptance** is told that there is no such job. -/
theorem accepted_unknown : ∃ es s, Reaches server (start 1 none) es s ∧
    es = acceptedHistory ++ [.asked 0 "a", .told 0 "a" (writeError 404 "job not found")] ∧
    ¬ NeverUnknown none es := by
  have hrun : ∃ s, server.run (start 1 none) (submission 0 "a" ++ [.status "GET" "a"]) = some (s,
      acceptedHistory ++ [.asked 0 "a", .told 0 "a" (writeError 404 "job not found")]) := ⟨_, rfl⟩
  obtain ⟨s, hs⟩ := hrun
  refine ⟨_, s, reaches_of_run hs, rfl, fun hk => ?_⟩
  refine (hk (acceptedHistory ++ [.asked 0 "a"]) 0 "a" (writeError 404 "job not found") []
    (by simp) ⟨acceptedHistory, [], rfl, 0, ?_⟩).1 rfl
  simp [acceptedHistory]

end CodeHive.Orchestrator.UnknownJobs
