import CodeHive.Orchestrator.StatusAnswers

/-! # Results are final

On a server without a database whose accepted ids are distinct, a result that has been told is told
again by every later status request, and it is the outcome of the one submission accepted under its
id. -/

namespace CodeHive.Orchestrator.FinalResults

set_option autoImplicit false

open CodeHive.Concurrency.Interleaving CodeHive.Go.Sync CodeHive.Lists.Slots
open CodeHive.Orchestrator.Types CodeHive.Orchestrator.Runner CodeHive.Orchestrator.Outcomes
open CodeHive.Orchestrator.ApiServer CodeHive.Orchestrator.Submissions
open CodeHive.Orchestrator.StatusAnswers

/-- The accepted ids are pairwise distinct. A submission whose job has been sent is accepted: nothing
but the answer 202 is left to its handler. -/
def DistinctIds (es : History) : Prop :=
  ∀ h h' id, .submitted h id ∈ es → .submitted h' id ∈ es → h = h'

/-- `r` says of the request what `Execute` has returned; `Duration` and `UpdatedAt` are the clock's. -/
structure Tells (r : ExecutionResult) (req : ExecutionRequest) (out : Output) : Prop where
  ID : r.ID = req.ID
  CreatedAt : r.CreatedAt = req.CreatedAt
  Stdout : r.Stdout = out.stdout
  Stderr : r.Stderr = out.stderr
  ExitCode : r.ExitCode = out.exitCode
  Completed : out.execErr = none → r.Status = JobStatusCompleted ∧ r.Error = ""
  Failed : ∀ err, out.execErr = some err → r.Status = JobStatusFailed ∧ r.Error = err

/-- **`r` is the outcome of executing the request of submission `h`.** -/
def OutcomeOf (es : History) (s : Server) (h : ℕ) (r : ExecutionResult) : Prop :=
  ∃ x worker out, s.submissions[h]? = some x ∧ .runner (.executed worker h out) ∈ es ∧
    Tells r x.req out

section
variable {n : ℕ} {db : Option Rows} {es : History} {s : Server} {h : ℕ} {id : String}
  {r : ExecutionResult}

theorem mem_runner {e : Runner.Event} : e ∈ es.filterMap runnerEvent ↔ .runner e ∈ es :=
  mem_filterMap_iff fun e' e => by cases e' <;> simp [runnerEvent]

/-- The result that `executeJob` sends. -/
theorem tells_resultOf (req : ExecutionRequest) (out : Output) (elapsed : Duration) (now : Time) :
    Tells (resultOf req out elapsed now) req out where
  ID := rfl
  CreatedAt := rfl
  Stdout := rfl
  Stderr := rfl
  ExitCode := rfl
  Completed h := by simp [resultOf, h]
  Failed err h := by simp [resultOf, h]

/-- What the result channel of a submission delivers is its outcome. -/
theorem outcome_of_delivered (hr : Reaches server (start n db) es s) {x : Submission}
    (hx : s.submissions[h]? = some x) (hd : .runner (.delivered h r) ∈ es) :
    OutcomeOf es s h r := by
  have hsettled := settled (runner_reaches hr)
  have hdel : r ∈ deliveries h (es.filterMap runnerEvent) :=
    mem_deliveries.mpr (mem_runner.mpr hd)
  have hres : r ∈ resultsFor h (es.filterMap runnerEvent) := by
    rw [hsettled.buffered h]
    exact List.mem_append_left _ hdel
  obtain ⟨j, worker, out, elapsed, now, hj, he, rfl⟩ := hsettled.sent h r (mem_resultsFor.mp hres)
  obtain ⟨-, -, j', hj', hreq⟩ := (inv hr).own h x hx
  obtain rfl : j = j' := Option.some.inj (hj.symm.trans hj')
  refine ⟨x, worker, out, hx, mem_runner.mp he, ?_⟩
  rw [← hreq]
  exact tells_resultOf ..

/-- An outcome has the id of its submission, and an end status. -/
theorem OutcomeOf.status {x : Submission} (ho : OutcomeOf es s h r)
    (hx : s.submissions[h]? = some x) :
    r.ID = x.req.ID ∧ (r.Status = JobStatusCompleted ∨ r.Status = JobStatusFailed) := by
  obtain ⟨y, worker, out, hy, -, ht⟩ := ho
  obtain rfl : x = y := Option.some.inj (hx.symm.trans hy)
  refine ⟨ht.ID, ?_⟩
  cases herr : out.execErr with
  | none => exact Or.inl (ht.Completed herr).1
  | some err => exact Or.inr (ht.Failed err herr).1

/-- **Nothing replaces a stored result** where the accepted ids are distinct. -/
theorem stored_unique (hi : Inv es s) (hd : DistinctIds es) {h' : ℕ} {r' : ExecutionResult}
    (he : .stored h id r ∈ es) (he' : .stored h' id r' ∈ es) : h = h' ∧ r = r' := by
  obtain ⟨x, -, -, hsub, -, hone⟩ := hi.stored he
  obtain ⟨x', -, -, hsub', -, hone'⟩ := hi.stored he'
  obtain rfl := hd h h' id hsub hsub'
  rw [hone] at hone'
  cases hone'
  exact ⟨rfl, rfl⟩

/-- What was stored last was stored. -/
theorem stored_of_lastStored (hr : lastStored es id = some r) : ∃ h, .stored h id r ∈ es :=
  mem_storedUnder.mp (List.mem_of_getLast? hr)

theorem not_stored_of_lastStored (hr : lastStored es id = none) : .stored h id r ∉ es := fun he => by
  rw [lastStored, List.getLast?_eq_none_iff] at hr
  have hmem := mem_storedUnder.mpr ⟨h, he⟩
  rw [hr] at hmem
  cases hmem

/-- A status request that is told a result found it in the results map. -/
theorem told_hit (hr : Reaches server (start n none) es s) {es₁ es₂ : History} {k : ℕ}
    {reply : Reply} (hes : es = es₁ ++ .told k id reply :: es₂) :
    ∃ es₀, es₁ = es₀ ++ [.asked k id] ∧ ((∃ r, lastStored es₀ id = some r ∧
      reply = ⟨200, .result r⟩) ∨ (lastStored es₀ id = none ∧ reply.code = 404)) := by
  cases told hr hes with
  | hit es₀ r hes hlast hreply => exact ⟨es₀, hes, Or.inl ⟨r, hlast, hreply⟩⟩
  | miss es₀ hes hlast hdb hreply => exact ⟨es₀, hes, Or.inr ⟨hlast, congrArg Reply.code hreply⟩⟩
  | row es₀ es₁ fails rows hes hlast hdb hreply => cases hdb

end

/-- **Orchestrator results are final and not mixed up**: where the accepted ids are distinct and a
status request for `id` is answered 200 with `r`, so is every later one; and `r` has this id and an
end status, and is the outcome of executing the one submission accepted under `id`. -/
theorem results_final {n : ℕ} {es : History} {s : Server}
    (hr : Reaches server (start n none) es s) (hd : DistinctIds es) {es₁ es₂ : History} {k : ℕ}
    {id : String} {r : ExecutionResult} (hes : es = es₁ ++ .told k id ⟨200, .result r⟩ :: es₂) :
    (∀ k' reply, .told k' id reply ∈ es₂ → reply = ⟨200, .result r⟩) ∧ r.ID = id ∧
      (r.Status = JobStatusCompleted ∨ r.Status = JobStatusFailed) ∧
      ∃ h, .submitted h id ∈ es ∧ (∀ h', .submitted h' id ∈ es → h' = h) ∧ OutcomeOf es s h r := by
  have hi := inv hr
  obtain ⟨es₀, rfl, ⟨r', hlast, hreply⟩ | ⟨-, hcode⟩⟩ := told_hit hr hes
  · cases hreply
    obtain ⟨h, hstored⟩ := stored_of_lastStored hlast
    have hmem : .stored h id r ∈ es := by
      rw [hes]
      exact List.mem_append_left _ (List.mem_append_left _ hstored)
    obtain ⟨x, hx, hid, hsub, hdel, -⟩ := hi.stored hmem
    have ho := outcome_of_delivered hr hx hdel
    obtain ⟨hID, hstatus⟩ := ho.status hx
    refine ⟨fun k' reply hk' => ?_, hID.trans hid, hstatus, h, hsub,
      fun h' hh' => hd h' h id hh' hsub, ho⟩
    -- the later request finds what was stored, and that is `r`
    obtain ⟨a, b, rfl⟩ := List.append_of_mem hk'
    have hes' : es = ((es₀ ++ [.asked k id]) ++ .told k id ⟨200, .result r⟩ :: a) ++
        .told k' id reply :: b := by simp [hes]
    obtain ⟨es₃, hes₃, ⟨r', hlast', rfl⟩ | ⟨hnone, -⟩⟩ := told_hit hr hes'
    · obtain ⟨h', hstored'⟩ := stored_of_lastStored hlast'
      have hmem' : .stored h' id r' ∈ es := by
        rw [hes', hes₃]
        exact List.mem_append_left _ (List.mem_append_left _ hstored')
      rw [(stored_unique hi hd hmem hmem').2]
    · have hmem₃ : .stored h id r ∈ es₃ ++ [.asked k' id] := by
        rw [← hes₃]
        simp [hstored]
      have hstored₃ : .stored h id r ∈ es₃ := by simpa using hmem₃
      exact absurd hstored₃ (not_stored_of_lastStored hnone)
  · cases hcode

/-- The id of a submission whose job has been sent. -/
def submissionOf : ApiServer.Event → Option (ℕ × String)
  | .submitted h id => some (h, id)
  | _ => none

theorem distinctIds_of_nodup {es : History}
    (hkeys : ((es.filterMap submissionOf).map Prod.fst).Nodup)
    (hids : ((es.filterMap submissionOf).map Prod.snd).Nodup) : DistinctIds es := by
  have hmem : ∀ h id, .submitted h id ∈ es → (h, id) ∈ es.filterMap submissionOf := fun h id he =>
    List.mem_filterMap.mpr ⟨_, he, rfl⟩
  exact fun h h' id he he' => (nodup_values_iff hkeys).mp hids h h' id (hmem h id he) (hmem h' id he')

/-- Two submissions are accepted and executed; the second id is asked for before and after the result
of the first is stored. -/
def schedule (id id' : String) : List ApiServer.Label :=
  submission 0 id ++ submission 1 id' ++ (execution 0 "1" ++ execution 1 "2").map .runner ++
    collection 1 ++ [.status "GET" id'] ++ collection 0 ++ [.status "GET" id']

/-- The result of a submission with id `id`. -/
def result (id stdout : String) : ExecutionResult :=
  resultOf (withDefaults (request id) 1 2) (output stdout) 1 2

/-- A history, cut at one of its events. -/
theorem cut {es : History} {m : ℕ} {e : ApiServer.Event} (h : es[m]? = some e) :
    es = es.take m ++ e :: es.drop (m + 1) := by
  obtain ⟨hm, rfl⟩ := List.getElem?_eq_some_iff.mp h
  rw [← List.drop_eq_getElem_cons hm, List.take_append_drop]

theorem results_final_run : ∃ es s, server.run (start 2 none) (schedule "a" "b") = some (s, es) ∧
    ∃ es₁ es₂, es = es₁ ++ .told 0 "b" ⟨200, .result (result "b" "2")⟩ :: es₂ ∧
      .told 1 "b" ⟨200, .result (result "b" "2")⟩ ∈ es₂ ∧
      (∀ k' reply, .told k' "b" reply ∈ es₂ → reply = ⟨200, .result (result "b" "2")⟩) ∧
      (result "b" "2").ID = "b" := by
  have hrun : ∃ es s, server.run (start 2 none) (schedule "a" "b") = some (s, es) ∧
      ((es.filterMap submissionOf).map Prod.fst).Nodup ∧
      ((es.filterMap submissionOf).map Prod.snd).Nodup ∧
      es[19]? = some (.told 0 "b" ⟨200, .result (result "b" "2")⟩) ∧
      es[23]? = some (.told 1 "b" ⟨200, .result (result "b" "2")⟩) :=
    ⟨_, _, rfl, by decide, by decide, rfl, rfl⟩
  obtain ⟨es, s, hs, hkeys, hids, h₁, h₂⟩ := hrun
  have hfinal := results_final (reaches_of_run hs) (distinctIds_of_nodup hkeys hids) (cut h₁)
  refine ⟨es, s, hs, _, _, cut h₁, ?_, hfinal.1, hfinal.2.1⟩
  exact List.mem_of_getElem? (i := 3) (by rw [List.getElem?_drop]; exact h₂)

end CodeHive.Orchestrator.FinalResults
