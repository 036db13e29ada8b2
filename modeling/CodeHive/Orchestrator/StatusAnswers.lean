import CodeHive.Orchestrator.Submissions

/-! # What status requests are told

A status request is told the result that was stored last under its id when it looked into the
results map; where there was none, it is told the row that the database has then, if any. -/

namespace CodeHive.Orchestrator.StatusAnswers

set_option autoImplicit false

open CodeHive.Concurrency.Interleaving CodeHive.Go.Sync CodeHive.Lists.Slots
open CodeHive.Orchestrator.Types CodeHive.Orchestrator.Runner CodeHive.Orchestrator.ApiServer
open CodeHive.Orchestrator.Submissions

/-- The result that was stored last under `id`. -/
def lastStored (es : History) (id : String) : Option ExecutionResult :=
  (es.filterMap (storedUnder id)).getLast?

def savedOf : ApiServer.Event → Option ExecutionResult
  | .saved _ r => some r
  | _ => none

/-- The database after the history `es`. -/
def rowsAfter (es : History) (rows : Rows) : Rows := (es.filterMap savedOf).foldl Rows.SaveResult rows

/-- **How a status request is answered**, after the history `es`: from the results map at once, or
later from the database. -/
inductive Answered (db : Option Rows) (es : History) (k : ℕ) (id : String) (reply : Reply) : Prop where
  | hit (es₀ : History) (r : ExecutionResult) (hes : es = es₀ ++ [.asked k id])
      (hr : lastStored es₀ id = some r) (hreply : reply = ⟨200, .result r⟩)
  | miss (es₀ : History) (hes : es = es₀ ++ [.asked k id]) (hr : lastStored es₀ id = none)
      (hdb : db = none) (hreply : reply = writeError 404 "job not found")
  | row (es₀ es₁ : History) (fails : Bool) (rows : Rows)
      (hes : es = es₀ ++ .asked k id :: es₁ ++ [.queried k fails])
      (hr : lastStored es₀ id = none) (hdb : db = some rows)
      (hreply : reply = rowReply (Rows.GetResult (rowsAfter es rows) id fails))

/-- What the history says of the database and of the requests that wait for it. -/
structure Asked (db : Option Rows) (es : History) (s : Server) : Prop where
  rows : s.db = db.map (rowsAfter es)
  pending : ∀ (k : ℕ) (id : String), s.queries[k]? = some (.querying id) →
    ∃ es₀ es₁, es = es₀ ++ .asked k id :: es₁ ∧ lastStored es₀ id = none ∧ s.db.isSome

section
variable {n : ℕ} {db : Option Rows} {es new : History} {s s' : Server}

theorem rowsAfter_append (es es' : History) (rows : Rows) :
    rowsAfter (es ++ es') rows = rowsAfter es' (rowsAfter es rows) := by
  rw [rowsAfter, List.filterMap_append, List.foldl_append]
  rfl

/-- A move that leaves the database alone, and lets no status request wait for it. -/
theorem Asked.keep (ha : Asked db es s) (hdb : s'.db = s.db)
    (hq : ∀ (k : ℕ) (id : String), s'.queries[k]? = some (.querying id) →
      s.queries[k]? = some (.querying id)) (hnew : new.filterMap savedOf = []) :
    Asked db (es ++ new) s' where
  rows := by
    have hrows : rowsAfter (es ++ new) = rowsAfter es := by
      funext rows
      rw [rowsAfter, List.filterMap_append, hnew, List.append_nil]
      rfl
    rw [hdb, hrows]
    exact ha.rows
  pending k id hk := by
    obtain ⟨es₀, es₁, rfl, hr, hsome⟩ := ha.pending k id (hq k id hk)
    exact ⟨es₀, es₁ ++ new, by simp, hr, hdb ▸ hsome⟩

theorem querying_of_concat {qs : List Query} {k : ℕ} {id : String}
    (h : (qs ++ [.answered])[k]? = some (.querying id)) : qs[k]? = some (.querying id) := by
  rcases getElem?_concat_cases h with h | ⟨-, h⟩
  · exact h
  · cases h

theorem Asked.ask (ha : Asked db es s) {id : String} (hr : lastStored es id = none)
    (hdb : s.db.isSome) :
    Asked db (es ++ [.asked s.queries.length id])
      { s with queries := s.queries ++ [.querying id] } where
  rows := by
    have hkeep : Asked db (es ++ [.asked s.queries.length id]) s := ha.keep rfl (fun _ _ h => h) rfl
    exact hkeep.rows
  pending k i hk := by
    rcases getElem?_concat_cases hk with hk | ⟨rfl, hq⟩
    · obtain ⟨es₀, es₁, rfl, hr, hsome⟩ := ha.pending k i hk
      exact ⟨es₀, es₁ ++ [.asked s.queries.length id], by simp, hr, hsome⟩
    · cases hq
      exact ⟨es, [], rfl, hr, hdb⟩

theorem Asked.move (ha : Asked db es s) (hi : Inv es s) (hm : ApiServer.Move s s' new) :
    Asked db (es ++ new) s' := by
  cases hm with
  | refuse reply => exact ha.keep rfl (fun _ _ h => h) rfl
  | enroll body now₁ now₂ now₃ => exact ha.keep rfl (fun _ _ h => h) rfl
  | submit hx hp hs => exact ha.keep rfl (fun _ _ h => h) rfl
  | collect hx hp => exact ha.keep rfl (fun _ _ h => h) rfl
  | accept hx hp => exact ha.keep rfl (fun _ _ h => h) rfl
  | deliver hx hp hr => exact ha.keep rfl (fun _ _ h => h) rfl
  | store hx hp => exact ha.keep rfl (fun _ _ h => h) rfl
  | drop hx hp => exact ha.keep rfl (fun _ _ h => h) rfl
  | @save h x result hx hp =>
    refine ⟨?_, fun k id hk => ?_⟩
    · have hrows : rowsAfter (es ++ [.saved h result]) =
          (fun rows => Rows.SaveResult rows result) ∘ rowsAfter es := by
        funext rows
        rw [rowsAfter_append]
        rfl
      rw [hrows, ← Option.map_map, ← ha.rows]
      rfl
    · obtain ⟨es₀, es₁, rfl, hr, hsome⟩ := ha.pending k id hk
      exact ⟨es₀, es₁ ++ [.saved h result], by simp, hr, by simpa using hsome⟩
  | hit hr => exact ha.keep rfl (fun _ _ h => querying_of_concat h) rfl
  | miss hr hdb => exact ha.keep rfl (fun _ _ h => querying_of_concat h) rfl
  | ask hr hdb => exact ha.ask (by rw [lastStored, ← hi.results]; exact hr) hdb
  | row fails hk =>
    refine ha.keep rfl (fun k id h => ?_) rfl
    rcases getElem?_set_cases h with ⟨-, h⟩ | ⟨-, h⟩
    · exact h
    · cases h
  | @runner l r res hl hs =>
    refine ha.keep rfl (fun _ _ h => h) (List.filterMap_eq_nil_iff.mpr fun e he => ?_)
    obtain ⟨e, -, rfl⟩ := List.mem_map.mp he
    rfl

theorem asked (h : Reaches server (start n db) es s) : Asked db es s := by
  refine h.keeps ?_ fun es s l s' new hr ha hs => ha.move (inv hr) (move_of_step hs)
  refine ⟨?_, fun _ _ hk => by cases hk⟩
  cases db <;> rfl

/-- Two events, of which the second is `e`. -/
theorem eq_of_pair {a b e : ApiServer.Event} {es₁ es₂ : History} (h : [a, b] = es₁ ++ e :: es₂)
    (ha : a ≠ e) : es₁ = [a] ∧ b = e := by
  cases es₁ with
  | nil => cases h; exact absurd rfl ha
  | cons x es₁ =>
    cases es₁ with
    | nil => cases h; exact ⟨rfl, rfl⟩
    | cons y es₁ => simp at h

/-- **In every run, each status request is answered so.** -/
theorem told (h : Reaches server (start n db) es s) {es₁ es₂ : History} {k : ℕ} {id : String}
    {reply : Reply} (hes : es = es₁ ++ .told k id reply :: es₂) :
    Answered db es₁ k id reply := by
  refine h.each (Q := fun es₁ e => ∀ k id reply, e = .told k id reply → Answered db es₁ k id reply)
    ?_ es₁ _ es₂ hes k id reply rfl
  intro es s l s' new hr hs es₁ e es₂ hnew k id reply he
  subst he
  have hi := inv hr
  have ha := asked hr
  have hmem : .told k id reply ∈ new := hnew ▸ List.mem_append_right _ List.mem_cons_self
  cases move_of_step hs with
  | @hit i r hload =>
    obtain ⟨rfl, htold⟩ := eq_of_pair hnew (by simp)
    cases htold
    exact .hit es r rfl (by rw [lastStored, ← hi.results]; exact hload) rfl
  | @miss i hload hdb =>
    obtain ⟨rfl, htold⟩ := eq_of_pair hnew (by simp)
    cases htold
    refine .miss es rfl (by rw [lastStored, ← hi.results]; exact hload) ?_ rfl
    simpa [hdb] using ha.rows.symm
  | @row k' i fails hk =>
    obtain ⟨rfl, htold⟩ := eq_of_pair hnew (by simp)
    cases htold
    obtain ⟨es₀, es₁, rfl, hlast, hsome⟩ := ha.pending _ _ hk
    have hrows := ha.rows
    cases db with
    | none => rw [hrows] at hsome; cases hsome
    | some rows =>
      refine .row es₀ es₁ fails rows rfl hlast rfl ?_
      rw [hrows, rowsAfter_append (es₀ ++ _)]
      rfl
  | refuse reply => simp at hmem
  | enroll body now₁ now₂ now₃ => simp at hmem
  | submit hx hp hs => simp at hmem
  | collect hx hp => cases hmem
  | accept hx hp => simp at hmem
  | deliver hx hp hr => simp at hmem
  | store hx hp => simp at hmem
  | drop hx hp => cases hmem
  | save hx hp => simp at hmem
  | ask hload hdb => simp at hmem
  | runner hl hs => simp at hmem

end

end CodeHive.Orchestrator.StatusAnswers
