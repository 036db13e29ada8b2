import CodeHive.Api.Listing
import CodeHive.Api.Wire

/-! # Two views of a job

The dashboard reads the items of `GET /api/executions` and the reply of `GET /api/status/:id` as the
same `ExecutionResult`. The first are records of the queue, which keep the result inside. -/

namespace CodeHive.Api.Views

set_option autoImplicit false

open CodeHive.Js.Value CodeHive.Api.Types CodeHive.Api.Stores CodeHive.Api.Messages
open CodeHive.Api.Program CodeHive.Api.Queue CodeHive.Api.Routes CodeHive.Api.System
open CodeHive.Api.History CodeHive.Api.Invariant CodeHive.Api.Runs CodeHive.Api.Wire
open CodeHive.Api.Alone CodeHive.Api.Listing
open CodeHive.Concurrency.Calls CodeHive.Concurrency.Pool CodeHive.Concurrency.Solo

/-- The fields that the dashboard needs of an `ExecutionResult`. -/
def resultFields : List String :=
  ["id", "status", "stdout", "stderr", "exitCode", "startedAt", "finishedAt"]

/-- Two objects agree on these fields. -/
def AgreeOn (fields : List String) (v v' : Json) : Prop := ∀ f ∈ fields, v.get f = v'.get f

/-- **The list view and the status view agree**: every item of every page has what the status
request for its id replies. -/
def ViewsAgree (b : Backend) (s : Store) : Prop :=
  ∀ env limit offset items total,
    ask b env (.executions limit offset) s = some (.reply ⟨200, .executions items total⟩) →
    ∀ item ∈ items, ∃ r, ask b env (.status item.id) s = some (.reply ⟨200, .result r⟩) ∧
      AgreeOn resultFields (stringifyJob item) (stringifyResult r)

/-! ### The fields -/

/-- An item has none of the fields of its result. -/
theorem get_stringifyJob (job : Job) {f : String} (hf : f ∈ resultFields.drop 2) :
    (stringifyJob job).get f = none := by
  have hcases : f = "stdout" ∨ f = "stderr" ∨ f = "exitCode" ∨ f = "startedAt" ∨
      f = "finishedAt" := by simpa [resultFields] using hf
  rcases hcases with rfl | rfl | rfl | rfl | rfl <;> rfl

/-- An object has the properties that are listed. -/
theorem isSome_get {fields : List (String × Json)} {f : String} (hf : f ∈ fields.map Prod.fst) :
    (Json.get f (.obj fields)).isSome := by
  obtain ⟨x, hx, rfl⟩ := List.mem_map.mp hf
  unfold Json.get
  rw [Option.isSome_map, List.find?_isSome]
  exact ⟨x, List.mem_reverse.mpr hx, beq_self_eq_true x.1⟩

/-- A reply has all of them. -/
theorem get_stringifyResult (r : ExecutionResult) {f : String} (hf : f ∈ resultFields) :
    ((stringifyResult r).get f).isSome := by
  unfold stringifyResult
  refine isSome_get ?_
  have hcases : f = "id" ∨ f = "status" ∨ f = "stdout" ∨ f = "stderr" ∨ f = "exitCode" ∨
      f = "startedAt" ∨ f = "finishedAt" := by simpa [resultFields] using hf
  rcases hcases with rfl | rfl | rfl | rfl | rfl | rfl | rfl <;> simp

/-- **No item agrees with any reply.** -/
theorem not_agreeOn (job : Job) (r : ExecutionResult) :
    ¬ AgreeOn resultFields (stringifyJob job) (stringifyResult r) := by
  intro h
  have hstdout := h "stdout" (by decide)
  rw [get_stringifyJob job (by decide)] at hstdout
  have hsome : ((stringifyResult r).get "stdout").isSome := get_stringifyResult r (by decide)
  rw [← hstdout] at hsome
  exact absurd hsome (by decide)

/-! ### The states -/

section
variable {b : Backend} {c : Config (apiSystem b)}

/-- The first id that waits is on a page of its own. -/
theorem exists_item (hc : Reachable b c) (h : pending b c.world.state ≠ []) :
    ∃ env limit offset item total, ask b env (.executions limit offset) c.world.state =
      some (.reply ⟨200, .executions [item] total⟩) := by
  obtain ⟨i, hi⟩ := List.exists_mem_of_ne_nil _ h
  obtain ⟨j, l, hl⟩ := List.exists_cons_of_ne_nil (List.ne_nil_of_mem (mem_listing.mpr hi))
  have hj : (listing b c.world.state)[0]? = some j := by rw [hl]; rfl
  have hknown : j ∈ ids c.world.log := by
    rw [← hc.inv.fifo]
    exact List.mem_append_right _ (mem_listing.mp (List.mem_of_getElem? hj))
  obtain ⟨x, hx, rfl⟩ := mem_ids.mp hknown
  obtain ⟨job, hjob, -⟩ := hc.inv.stored x hx
  have hzero : 0 < 2 ^ 32 := by decide
  exact ⟨fun _ => default, _, _, job, _, ask_page _ hzero hj hjob⟩

/-- **The views agree exactly where nothing waits in the queue**, so that no page has an item. -/
theorem viewsAgree_iff (b : Backend) (c : Config (apiSystem b)) (hc : Reachable b c) :
    ViewsAgree b c.world.state ↔ pending b c.world.state = [] := by
  constructor
  · intro h
    by_contra hne
    obtain ⟨env, limit, offset, item, total, hask⟩ := exists_item hc hne
    obtain ⟨r, -, hagree⟩ := h env limit offset [item] total hask item List.mem_cons_self
    exact not_agreeOn item r hagree
  · intro hempty env limit offset items total hask item hitem
    obtain ⟨i, hi, -⟩ := (page_of_ask hask).2 item hitem
    rw [hempty] at hi
    exact absurd hi List.not_mem_nil

end

/-! ### Two states -/

/-- No call is running, and every request has been answered. -/
def quiet {b : Backend} (c : Config (apiSystem b)) : Bool :=
  c.running.isNone && c.pool.all fun x =>
    match x.1.tag, x.2 with
    | .request _, .done _ => true
    | .request _, _ => false
    | _, _ => true

/-- **A submitted job waits**: what the list says of it is not what its status is. -/
theorem waiting_disagrees : ∃ c, (start .memory).run (submission 0) = some c ∧ quiet c = true ∧
    ¬ ViewsAgree .memory c.world.state := by
  obtain ⟨c, hc⟩ : ∃ c, (start .memory).run (submission 0) = some c :=
    Option.isSome_iff_exists.mp rfl
  have hquiet : ((start .memory).run (submission 0)).map quiet = some true := rfl
  have hpending : ((start .memory).run (submission 0)).map
      (fun c => pending .memory c.world.state) = some ["job"] := rfl
  rw [hc, Option.map_some, Option.some.injEq] at hquiet hpending
  refine ⟨c, hc, hquiet, fun h => ?_⟩
  obtain ⟨env, limit, offset, item, total, hask⟩ :=
    exists_item (reaches_of_run hc) (by rw [hpending]; exact List.cons_ne_nil _ _)
  obtain ⟨r, -, hagree⟩ := h env limit offset [item] total hask item List.mem_cons_self
  exact not_agreeOn item r hagree

/-- A poll has taken the only job: the pages are empty. -/
theorem polled_agrees : ∃ c, (start .memory).run (submission 0 ++ poll 2) = some c ∧
    ViewsAgree .memory c.world.state := by
  obtain ⟨c, hc⟩ : ∃ c, (start .memory).run (submission 0 ++ poll 2) = some c :=
    Option.isSome_iff_exists.mp rfl
  have hpending : ((start .memory).run (submission 0 ++ poll 2)).map
      (fun c => pending .memory c.world.state) = some [] := rfl
  rw [hc, Option.map_some, Option.some.injEq] at hpending
  exact ⟨c, hc, (viewsAgree_iff .memory c (reaches_of_run hc)).mpr hpending⟩

end CodeHive.Api.Views
