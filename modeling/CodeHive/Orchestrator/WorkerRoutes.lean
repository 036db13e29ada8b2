import CodeHive.Go.Strings
import CodeHive.Orchestrator.WorkerApi

/-! # The routes of the worker API

`handleWorkerActions` splits the path of a request and hands it to a handler. Its length checks are
lower bounds, and a segment `next` where a job id may stand is taken for the word; so some requests
that are none of the documented ones reach a handler, and the results of some jobs do not. -/

namespace CodeHive.Orchestrator.WorkerRoutes

set_option autoImplicit false

open CodeHive.Js.Value CodeHive.Go.Strings
open CodeHive.Orchestrator.Types CodeHive.Orchestrator.Runner CodeHive.Orchestrator.WorkerApi

/-! ### The switches -/

/-- What `handleWorkerActions` ends in. -/
inductive Action where
  | writeError (status : ℕ) (msg : String)
  | handleHeartbeat (workerID : String)
  | handleDequeue (workerID : String)
  | handleResult (workerID jobID : String)
  deriving DecidableEq

/-- The switches over the segments of the path. -/
def actionOf (method : String) : List String → Action
  | workerID :: action :: rest =>
    if workerID = "" then .writeError 400 "invalid path"
    else if action = "heartbeat" then
      if method ≠ "POST" then .writeError 405 "method not allowed" else .handleHeartbeat workerID
    else if action = "jobs" then
      match rest with
      | [] => .writeError 400 "missing job action"
      | subAction :: rest =>
        if subAction = "next" then
          if method ≠ "GET" then .writeError 405 "method not allowed" else .handleDequeue workerID
        else if rest.head? ≠ some "result" then .writeError 400 "invalid job path"
        else if method ≠ "POST" then .writeError 405 "method not allowed"
        else .handleResult workerID subAction
    else .writeError 404 "unknown action"
  | _ => .writeError 400 "invalid path"

/-- `handleWorkerActions`, up to the call of a handler. -/
def handleWorkerActions (method path : String) : Action :=
  actionOf method (Split (TrimPrefix path "/api/workers/") '/')

/-- The handler that is called. -/
def Action.run (time : TimeText) (body : Option Json) (now : Time) (s : State) :
    Action → Response × State
  | .writeError status msg => (WorkerApi.writeError status msg, s)
  | .handleHeartbeat workerID =>
    let (reply, d) := WorkerApi.handleHeartbeat time workerID body now s.d
    (reply, { s with d := d })
  | .handleDequeue _ => WorkerApi.handleDequeue time s
  | .handleResult _ jobID =>
    let (reply, d) := WorkerApi.handleResult time jobID body now s.d
    (reply, { s with d := d })

/-! ### Which requests reach a handler -/

/-- **The segments that lead to a handler**, and what may follow them. -/
inductive Leads (method : String) (parts : List String) : Action → Prop where
  | heartbeat {w : String} (rest : List String) (hparts : parts = w :: "heartbeat" :: rest)
      (hw : w ≠ "") (hmethod : method = "POST") : Leads method parts (.handleHeartbeat w)
  | dequeue {w : String} (rest : List String) (hparts : parts = w :: "jobs" :: "next" :: rest)
      (hw : w ≠ "") (hmethod : method = "GET") : Leads method parts (.handleDequeue w)
  | result {w j : String} (rest : List String)
      (hparts : parts = w :: "jobs" :: j :: "result" :: rest) (hw : w ≠ "") (hj : j ≠ "next")
      (hmethod : method = "POST") : Leads method parts (.handleResult w j)
  | error {status : ℕ} (msg : String) (hstatus : 400 ≤ status) :
      Leads method parts (.writeError status msg)

section
variable {method w j : String} {parts : List String}

theorem leads (method : String) (parts : List String) :
    Leads method parts (actionOf method parts) := by
  unfold actionOf
  split
  · next w action rest =>
    by_cases hw : w = ""
    · rw [if_pos hw]
      exact .error _ (by decide)
    rw [if_neg hw]
    by_cases hbeat : action = "heartbeat"
    · rw [if_pos hbeat]
      by_cases hmethod : method = "POST"
      · rw [if_neg (not_not.mpr hmethod)]
        exact .heartbeat rest (by rw [hbeat]) hw hmethod
      · rw [if_pos hmethod]
        exact .error _ (by decide)
    rw [if_neg hbeat]
    by_cases hjobs : action = "jobs"
    · rw [if_pos hjobs]
      split
      · exact .error _ (by decide)
      · next j rest =>
        by_cases hnext : j = "next"
        · rw [if_pos hnext]
          by_cases hmethod : method = "GET"
          · rw [if_neg (not_not.mpr hmethod)]
            exact .dequeue rest (by rw [hjobs, hnext]) hw hmethod
          · rw [if_pos hmethod]
            exact .error _ (by decide)
        rw [if_neg hnext]
        by_cases hresult : rest.head? = some "result"
        · rw [if_neg (not_not.mpr hresult)]
          obtain ⟨rest, rfl⟩ := List.head?_eq_some_iff.mp hresult
          by_cases hmethod : method = "POST"
          · rw [if_neg (not_not.mpr hmethod)]
            exact .result rest (by rw [hjobs]) hw hnext hmethod
          · rw [if_pos hmethod]
            exact .error _ (by decide)
        · rw [if_pos hresult]
          exact .error _ (by decide)
    · rw [if_neg hjobs]
      exact .error _ (by decide)
  · exact .error _ (by decide)

theorem actionOf_heartbeat_iff : actionOf method parts = .handleHeartbeat w ↔
    method = "POST" ∧ w ≠ "" ∧ ∃ rest, parts = w :: "heartbeat" :: rest := by
  constructor
  · intro h
    have hleads : Leads method parts (.handleHeartbeat w) := h ▸ leads method parts
    cases hleads with
    | heartbeat rest hparts hw hmethod => exact ⟨hmethod, hw, rest, hparts⟩
  · rintro ⟨rfl, hw, rest, rfl⟩
    simp [actionOf, hw]

theorem actionOf_dequeue_iff : actionOf method parts = .handleDequeue w ↔
    method = "GET" ∧ w ≠ "" ∧ ∃ rest, parts = w :: "jobs" :: "next" :: rest := by
  constructor
  · intro h
    have hleads : Leads method parts (.handleDequeue w) := h ▸ leads method parts
    cases hleads with
    | dequeue rest hparts hw hmethod => exact ⟨hmethod, hw, rest, hparts⟩
  · rintro ⟨rfl, hw, rest, rfl⟩
    simp [actionOf, hw]

theorem actionOf_result_iff : actionOf method parts = .handleResult w j ↔
    method = "POST" ∧ w ≠ "" ∧ j ≠ "next" ∧
      ∃ rest, parts = w :: "jobs" :: j :: "result" :: rest := by
  constructor
  · intro h
    have hleads : Leads method parts (.handleResult w j) := h ▸ leads method parts
    cases hleads with
    | result rest hparts hw hj hmethod => exact ⟨hmethod, hw, hj, rest, hparts⟩
  · rintro ⟨rfl, hw, hj, rest, rfl⟩
    simp [actionOf, hw, hj]

end

/-! ### The paths -/

/-- A non-empty segment of a path. -/
def Segment (s : String) : Prop := s ≠ "" ∧ '/' ∉ s.toList

instance (s : String) : Decidable (Segment s) :=
  inferInstanceAs (Decidable (s ≠ "" ∧ '/' ∉ s.toList))

/-- Where a worker asks for a job. -/
def nextPath (w : String) : String := "/api/workers/" ++ (w ++ "/jobs/next")

/-- Where a worker posts the result of a job, as `main.rs` builds it. -/
def resultPath (w j : String) : String := "/api/workers/" ++ (w ++ "/jobs/" ++ j ++ "/result")

/-- Where a worker says that it is alive. -/
def heartbeatPath (w : String) : String := "/api/workers/" ++ (w ++ "/heartbeat")

/-- The segments that `handleWorkerActions` sees. -/
theorem handleWorkerActions_eq (method rest : String) :
    handleWorkerActions method ("/api/workers/" ++ rest) = actionOf method (Split rest '/') := by
  unfold handleWorkerActions
  rw [TrimPrefix_append]

/-- A path is printed from its segments. -/
theorem path_iff {x rest : String} {parts : List String} (hx : x = Join parts '/')
    (hparts : parts ≠ []) :
    ((∀ part ∈ parts, '/' ∉ part.toList) ∧ "/api/workers/" ++ rest = "/api/workers/" ++ x) ↔
      Split rest '/' = parts := by
  rw [String.append_right_inj, Split_eq_iff hparts, hx, and_comm]

theorem nextPath_iff {w rest : String} :
    (Segment w ∧ "/api/workers/" ++ rest = nextPath w) ↔
      w ≠ "" ∧ Split rest '/' = [w, "jobs", "next"] := by
  have hx : w ++ "/jobs/next" = Join [w, "jobs", "next"] '/' := by
    simp [Join_cons, Join_singleton, String.append_assoc]
  rw [← path_iff hx (List.cons_ne_nil _ _), Segment, nextPath, and_assoc]
  simp

theorem heartbeatPath_iff {w rest : String} :
    (Segment w ∧ "/api/workers/" ++ rest = heartbeatPath w) ↔
      w ≠ "" ∧ Split rest '/' = [w, "heartbeat"] := by
  have hx : w ++ "/heartbeat" = Join [w, "heartbeat"] '/' := by
    simp [Join_cons, Join_singleton, String.append_assoc]
  rw [← path_iff hx (List.cons_ne_nil _ _), Segment, heartbeatPath, and_assoc]
  simp

theorem resultPath_iff {w j rest : String} :
    (Segment w ∧ Segment j ∧ "/api/workers/" ++ rest = resultPath w j) ↔
      w ≠ "" ∧ j ≠ "" ∧ Split rest '/' = [w, "jobs", j, "result"] := by
  have hx : w ++ "/jobs/" ++ j ++ "/result" = Join [w, "jobs", j, "result"] '/' := by
    have hjobs : "/jobs/" = String.ofList ['/'] ++ "jobs" ++ String.ofList ['/'] := by decide
    have hresult : "/result" = String.ofList ['/'] ++ "result" := by decide
    rw [Join_cons (by simp), Join_cons (by simp), Join_cons (by simp), Join_singleton, hjobs,
      hresult]
    simp only [String.append_assoc]
  rw [← path_iff hx (List.cons_ne_nil _ _), Segment, Segment, resultPath]
  simp only [List.mem_cons, List.not_mem_nil, or_false, forall_eq_or_imp, forall_eq]
  constructor
  · rintro ⟨⟨hw, hw'⟩, ⟨hj, hj'⟩, hpath⟩
    exact ⟨hw, hj, ⟨hw', by decide, hj', by decide⟩, hpath⟩
  · rintro ⟨hw, hj, ⟨hw', -, hj', -⟩, hpath⟩
    exact ⟨⟨hw, hw'⟩, ⟨hj, hj'⟩, hpath⟩

/-! ### The results of jobs -/

/-- **The path of a result leads to its job**, unless the id of the job is the word `next` or holds
a slash. -/
theorem handleResult_resultPath_iff {w j : String} (hw : w ≠ "") (hw' : '/' ∉ w.toList)
    (hj : j ≠ "") :
    handleWorkerActions "POST" (resultPath w j) = .handleResult w j ↔
      j ≠ "next" ∧ '/' ∉ j.toList := by
  unfold resultPath
  rw [handleWorkerActions_eq, actionOf_result_iff]
  constructor
  · rintro ⟨-, -, hnext, rest, hrest⟩
    have hmem : j ∈ Split (w ++ "/jobs/" ++ j ++ "/result") '/' := by
      rw [hrest]
      simp
    exact ⟨hnext, not_mem_of_mem_Split j hmem⟩
  · rintro ⟨hnext, hslash⟩
    obtain ⟨-, -, hsplit⟩ := resultPath_iff.mp ⟨⟨hw, hw'⟩, ⟨hj, hslash⟩, rfl⟩
    exact ⟨rfl, hw, hnext, [], hsplit⟩

theorem handleResult_resultPath_iff_job : '/' ∉ "job-1".toList ∧
    handleWorkerActions "POST" (resultPath "w" "job-1") = .handleResult "w" "job-1" :=
  ⟨by decide, (handleResult_resultPath_iff (by decide) (by decide) (by decide)).mpr (by decide)⟩

/-- A job whose id is `next`: its result is answered as if a job had been asked for. -/
theorem resultPath_next : ¬ ∀ w j : String, w ≠ "" → '/' ∉ w.toList → j ≠ "" →
    handleWorkerActions "POST" (resultPath w j) = .handleResult w j := by
  intro h
  have heval : handleWorkerActions "POST" (resultPath "w" "next") =
      .writeError 405 "method not allowed" := by decide +kernel
  have hclaim := h "w" "next" (by decide) (by decide) (by decide)
  exact absurd (heval.symm.trans hclaim) (by decide)

/-! ### The documented requests -/

/-- A request is treated as documented: each handler is called for the requests of its own form and
for no others, and what has none of the forms is answered with an error and changes nothing. -/
structure FollowsGrammar (method path : String) : Prop where
  dequeue : ∀ w, handleWorkerActions method path = .handleDequeue w ↔
    method = "GET" ∧ Segment w ∧ path = nextPath w
  result : ∀ w j, handleWorkerActions method path = .handleResult w j ↔
    method = "POST" ∧ Segment w ∧ Segment j ∧ path = resultPath w j
  heartbeat : ∀ w, handleWorkerActions method path = .handleHeartbeat w ↔
    method = "POST" ∧ Segment w ∧ path = heartbeatPath w
  otherwise : (∀ w, ¬ (method = "GET" ∧ Segment w ∧ path = nextPath w)) →
    (∀ w j, ¬ (method = "POST" ∧ Segment w ∧ Segment j ∧ path = resultPath w j)) →
    (∀ w, ¬ (method = "POST" ∧ Segment w ∧ path = heartbeatPath w)) →
    ∀ time body now s,
      400 ≤ ((handleWorkerActions method path).run time body now s).1.code ∧
        ((handleWorkerActions method path).run time body now s).2 = s

/-- The requests that are treated otherwise, by method and segments. -/
inductive Misread : String → List String → Prop where
  /-- A job is taken out of the queue, whatever follows `next`. -/
  | next (w x : String) (xs : List String) (hw : w ≠ "") :
      Misread "GET" (w :: "jobs" :: "next" :: x :: xs)
  /-- A result is stored, whatever follows `result`. -/
  | result (w j x : String) (xs : List String) (hw : w ≠ "") (hj : j ≠ "next") :
      Misread "POST" (w :: "jobs" :: j :: "result" :: x :: xs)
  /-- A result is stored for the empty job id. -/
  | noJob (w : String) (hw : w ≠ "") : Misread "POST" [w, "jobs", "", "result"]
  /-- The result of the job `next` is refused. -/
  | nextJob (w : String) (hw : w ≠ "") : Misread "POST" [w, "jobs", "next", "result"]
  /-- A heartbeat is recorded, whatever follows `heartbeat`. -/
  | heartbeat (w x : String) (xs : List String) (hw : w ≠ "") :
      Misread "POST" (w :: "heartbeat" :: x :: xs)

section
variable {method rest : String}

/-- None of the misread requests is treated as documented. -/
theorem FollowsGrammar.not_misread (h : FollowsGrammar method ("/api/workers/" ++ rest)) :
    ¬ Misread method (Split rest '/') := by
  have hact := handleWorkerActions_eq method rest
  intro hmis
  generalize hparts : Split rest '/' = parts at hact hmis
  cases hmis with
  | next w x xs hw =>
    have hcall := hact.trans (actionOf_dequeue_iff.mpr ⟨rfl, hw, x :: xs, rfl⟩)
    obtain ⟨-, hform⟩ := nextPath_iff.mp ((h.dequeue w).mp hcall).2
    exact absurd (hparts.symm.trans hform) (by simp)
  | result w j x xs hw hj =>
    have hcall := hact.trans (actionOf_result_iff.mpr ⟨rfl, hw, hj, x :: xs, rfl⟩)
    obtain ⟨-, -, hform⟩ := resultPath_iff.mp ((h.result w j).mp hcall).2
    exact absurd (hparts.symm.trans hform) (by simp)
  | noJob w hw =>
    have hcall := hact.trans (actionOf_result_iff.mpr ⟨rfl, hw, by decide, [], rfl⟩)
    exact absurd rfl (resultPath_iff.mp ((h.result w "").mp hcall).2).2.1
  | nextJob w hw =>
    have hform := resultPath_iff.mpr ⟨hw, by decide, hparts⟩
    have hcall := hact.symm.trans ((h.result w "next").mpr ⟨rfl, hform⟩)
    exact absurd rfl (actionOf_result_iff.mp hcall).2.2.1
  | heartbeat w x xs hw =>
    have hcall := hact.trans (actionOf_heartbeat_iff.mpr ⟨rfl, hw, x :: xs, rfl⟩)
    obtain ⟨-, hform⟩ := heartbeatPath_iff.mp ((h.heartbeat w).mp hcall).2
    exact absurd (hparts.symm.trans hform) (by simp)

section
variable (hmis : ¬ Misread method (Split rest '/'))

include hmis

theorem handleDequeue_of_not_misread (w : String) :
    handleWorkerActions method ("/api/workers/" ++ rest) = .handleDequeue w ↔
      method = "GET" ∧ Segment w ∧ "/api/workers/" ++ rest = nextPath w := by
  rw [handleWorkerActions_eq, actionOf_dequeue_iff, nextPath_iff]
  refine and_congr_right fun hmethod => and_congr_right fun hw => ⟨?_, fun h => ⟨[], h⟩⟩
  rintro ⟨_ | ⟨x, xs⟩, h⟩
  · exact h
  · rw [h, hmethod] at hmis
    exact absurd (.next w x xs hw) hmis

theorem handleResult_of_not_misread (w j : String) :
    handleWorkerActions method ("/api/workers/" ++ rest) = .handleResult w j ↔
      method = "POST" ∧ Segment w ∧ Segment j ∧ "/api/workers/" ++ rest = resultPath w j := by
  rw [handleWorkerActions_eq, actionOf_result_iff, resultPath_iff]
  refine and_congr_right fun hmethod => and_congr_right fun hw => ⟨?_, ?_⟩
  · rintro ⟨hj, _ | ⟨x, xs⟩, h⟩
    · refine ⟨?_, h⟩
      rintro rfl
      rw [h, hmethod] at hmis
      exact hmis (.noJob w hw)
    · rw [h, hmethod] at hmis
      exact absurd (.result w j x xs hw hj) hmis
  · rintro ⟨-, h⟩
    refine ⟨?_, [], h⟩
    rintro rfl
    rw [h, hmethod] at hmis
    exact hmis (.nextJob w hw)

theorem handleHeartbeat_of_not_misread (w : String) :
    handleWorkerActions method ("/api/workers/" ++ rest) = .handleHeartbeat w ↔
      method = "POST" ∧ Segment w ∧ "/api/workers/" ++ rest = heartbeatPath w := by
  rw [handleWorkerActions_eq, actionOf_heartbeat_iff, heartbeatPath_iff]
  refine and_congr_right fun hmethod => and_congr_right fun hw => ⟨?_, fun h => ⟨[], h⟩⟩
  rintro ⟨_ | ⟨x, xs⟩, h⟩
  · exact h
  · rw [h, hmethod] at hmis
    exact absurd (.heartbeat w x xs hw) hmis

end

/-- **A request is treated as documented unless its path goes on after its last word, or `next` or
nothing stands where the id of a job belongs.** -/
theorem followsGrammar_iff (method rest : String) :
    FollowsGrammar method ("/api/workers/" ++ rest) ↔ ¬ Misread method (Split rest '/') := by
  refine ⟨fun h => h.not_misread, fun hmis => ⟨handleDequeue_of_not_misread hmis,
    handleResult_of_not_misread hmis, handleHeartbeat_of_not_misread hmis, ?_⟩⟩
  intro hn hr hb time body now s
  have hleads := leads method (Split rest '/')
  rw [← handleWorkerActions_eq] at hleads
  cases ha : handleWorkerActions method ("/api/workers/" ++ rest) with
  | handleHeartbeat w => exact absurd ((handleHeartbeat_of_not_misread hmis w).mp ha) (hb w)
  | handleDequeue w => exact absurd ((handleDequeue_of_not_misread hmis w).mp ha) (hn w)
  | handleResult w j => exact absurd ((handleResult_of_not_misread hmis w j).mp ha) (hr w j)
  | writeError status msg =>
    rw [ha] at hleads
    cases hleads with
    | error _ hstatus => exact ⟨hstatus, rfl⟩

end

/-- A job is taken out of the queue by a request for a path that is none of the documented ones. -/
theorem not_followsGrammar_next : ¬ ∀ method rest : String,
    FollowsGrammar method ("/api/workers/" ++ rest) := by
  intro h
  have hcall : handleWorkerActions "GET" ("/api/workers/" ++ "w/jobs/next/status") =
      .handleDequeue "w" := by decide +kernel
  obtain ⟨-, -, hpath⟩ := ((h "GET" "w/jobs/next/status").dequeue "w").mp hcall
  exact absurd hpath (by decide)

end CodeHive.Orchestrator.WorkerRoutes
