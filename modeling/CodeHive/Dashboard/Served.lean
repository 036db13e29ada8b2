import CodeHive.Api.ReadYourWrites
import CodeHive.Dashboard.Executions
import CodeHive.Dashboard.Stores

/-! # The page and the API

The page of executions with a process of the API that answers its requests, among those of others.
A request arrives once and its reply is delivered once, and either may be lost. What the page goes
through is a run of the page: the API tells of the execution that it is asked for. -/

namespace CodeHive.Dashboard.Served

set_option autoImplicit false

open CodeHive.Js.Value CodeHive.Api.Types CodeHive.Api.Stores CodeHive.Api.Messages
open CodeHive.Api.Program CodeHive.Api.Queue CodeHive.Api.Routes CodeHive.Api.System
open CodeHive.Api.History CodeHive.Api.Handlers CodeHive.Api.Runs CodeHive.Api.ReadYourWrites
open CodeHive.Concurrency.Calls (Async gives_call gives_pure gives_settle gives_throw)
open CodeHive.Concurrency.Pool (Config stepped_of_step)
open CodeHive.Concurrency.Interleaving
open CodeHive.Dashboard.Stores (property)
open CodeHive.Dashboard.Executions (Page Stepped concerns page truthful truthful_failed)

/-! ### The client of the API -/

/-- The body of `submitCode`. -/
def payload (data : Executions.ExecutionRequest) : Json :=
  .obj ([("language", .str data.language), ("code", .str data.code)] ++
    property "stdin" (data.stdin.map .str))

/-- The request that a task waits for. -/
def requestOf : Executions.Task → Option Request
  | .submitting data => some (.execute (payload data))
  | .polling id _ => some (.status id)
  | .showing id => some (.status id)
  | _ => none

/-- `request`, given a response: its body, or the message of the error that is thrown. `text` is the
text of a response. -/
def request (text : Reply → String) (r : Reply) : Except String Body :=
  if 200 ≤ r.code ∧ r.code < 300 then .ok r.body else .error s!"API {r.code}: {text r}"

/-- What `submitCode` makes of a response: an id, or what is thrown. `none`: the API sends no such
reply. -/
def submitCode (text : Reply → String) (r : Reply) : Option (Except (Option String) String) :=
  match request text r with
  | .ok (.queued id _) => some (.ok id)
  | .ok _ => none
  | .error message => some (.error (some message))

/-- What `getExecution` makes of a response: an execution, or it rejects. -/
def getExecution (text : Reply → String) (r : Reply) : Option (Option ExecutionResult) :=
  match request text r with
  | .ok (.result exec) => some (some exec)
  | .ok _ => none
  | .error _ => some none

/-- What a response makes of task `k`. -/
def respond (text : Reply → String) (k : ℕ) (r : Reply) : Executions.Task → Option Executions.Label
  | .submitting _ => (submitCode text r).map (.submitted k)
  | .polling _ _ => (getExecution text r).map (.answered k)
  | .showing _ => (getExecution text r).map (.answered k)
  | _ => none

/-- What a request that fails makes of task `k`; `message` is that of the error. -/
def reject (k : ℕ) (message : Option String) : Executions.Task → Option Executions.Label
  | .submitting _ => some (.submitted k (.error message))
  | .polling _ _ => some (.answered k none)
  | .showing _ => some (.answered k none)
  | _ => none

/-! ### The site -/

/-- `wire k` is the call of the API that answers the request of task `k`, once that has arrived. -/
structure Site (b : Backend) where
  page : Page
  api : Config (apiSystem b)
  wire : ℕ → Option ℕ

/-- The page is opened, and the API is started. -/
def Site.init (b : Backend) : Site b := ⟨.init, start b, fun _ => none⟩

inductive Label where
  /-- Something is done at the page, or a timer fires. -/
  | page (l : Executions.Label)
  /-- The API goes on, or is asked by someone else. -/
  | api (l : Concurrency.Pool.Label Task Input)
  /-- The request of task `k` arrives. -/
  | arrive (k : ℕ)
  /-- The reply to task `k` is delivered. -/
  | deliver (k : ℕ)
  /-- The request of task `k` fails. -/
  | fail (k : ℕ) (message : Option String)

/-- The task that waits for the response. -/
def respondsTo : Executions.Label → Option ℕ
  | .submitted k _ => some k
  | .answered k _ => some k
  | _ => none

/-- What the page sees of a step. -/
def seen {b : Backend} (text : Reply → String) (s : Site b) : Label → Option Executions.Label
  | .page l => if respondsTo l = none then some l else none
  | .api _ => none
  | .arrive _ => none
  | .deliver k => do
    let task ← s.page.tasks[k]?
    let t ← s.wire k
    match s.api.pool[t]? with
    | some (_, .done (.reply r)) => respond text k r task
    | _ => none
  | .fail k message => do reject k message (← s.page.tasks[k]?)

/-- The wire when task `k` has got its response. -/
def hangUp (wire : ℕ → Option ℕ) : Option ℕ → ℕ → Option ℕ
  | some k => Function.update wire k none
  | none => wire

/-- The request of task `k` arrives, if it has not. -/
def Site.arrive {b : Backend} (s : Site b) (k : ℕ) : Option (Site b) := do
  let r ← requestOf (← s.page.tasks[k]?)
  if s.wire k = none then
    let c ← s.api.step (.arrive (.request r))
    return { s with api := c, wire := Function.update s.wire k (some s.api.pool.length) }
  else none

/-- The page goes on with what it sees. -/
def Site.proceed {b : Backend} (s : Site b) (l : Executions.Label) : Option (Site b) :=
  (s.page.step l).map fun p => { s with page := p, wire := hangUp s.wire (respondsTo l) }

/-- **The page with the API.** -/
def site (b : Backend) (text : Reply → String) : Automaton (Site b) Label Empty where
  step s l :=
    (match l with
      | .api l => (s.api.step l).map fun c => { s with api := c }
      | .arrive k => s.arrive k
      | l => (seen text s l).bind s.proceed).map fun s' => (s', [])

/-- The steps that the page sees. -/
def pageSteps {b : Backend} (text : Reply → String) (tr : List (Site b × Label)) :
    List (Page × Executions.Label) :=
  tr.filterMap fun x => (seen text x.1 x.2).map fun l => (x.1.page, l)

/-- A task that waits for a response goes on with nothing else. -/
theorem respondsTo_of_waits {p p' : Page} {l : Executions.Label} {k : ℕ} {task : Executions.Task}
    (h : Stepped p l p') (hk : p.tasks[k]? = some task) (hr : (requestOf task).isSome)
    (hl : concerns l = some k) : respondsTo l = some k := by
  cases h with
  | timeout hs =>
    obtain rfl := Option.some.inj hl
    rw [hs] at hk
    cases hk
    cases hr
  | _ => exact hl

/-! ### Replies -/

/-- What `getStatus` sends: a result, or an error. -/
def Sent (out : Outcome) : Prop :=
  ∃ r, out = .reply r ∧ ((∃ exec, r = ⟨200, .result exec⟩) ∨ ∃ e message, r.body = .error e message)

theorem ends_getStatus (b : Backend) (id : String) :
    ((getStatus b id).toThread replied : Thread).Ends Sent := by
  have herror : ∀ err, Sent (.reply (sendError err)) := by
    intro err
    cases err with
    | error message => exact ⟨_, rfl, Or.inr ⟨_, _, rfl⟩⟩
    | app statusCode code message => exact ⟨_, rfl, Or.inr ⟨_, _, rfl⟩⟩
  have hjob : (getJob b id).Gives fun _ => True := by
    cases b with
    | redis =>
      have hget : (redis (.get (jobKey id))).Gives fun _ => True :=
        ((gives_call _).bind fun r _ => gives_settle r).later
      exact hget.await.bind fun _ _ => gives_pure trivial
    | memory => exact gives_call (S := api) (.mem (.getJob id))
  have hread : ∀ obj, (read obj).Gives fun _ => True := by
    intro obj
    cases obj with
    | stored key => exact gives_call (S := api) (.mem (.load key))
    | parsed job => exact gives_pure trivial
  refine Async.Gives.toThread (A := fun r => Sent (.reply r)) ?_ (fun _ hr => hr) herror
  refine Async.Gives.tryCatch ?_ fun err => gives_pure (herror err)
  split
  · exact gives_throw _
  · refine hjob.await.bind fun obj _ => ?_
    cases obj with
    | none => exact gives_throw _
    | some obj => exact (hread obj).bind fun job _ => gives_pure ⟨_, rfl, Or.inl ⟨_, rfl⟩⟩

section
variable {b : Backend} {c : Config (apiSystem b)} {t k : ℕ} {a : Actor} {r : Reply}
  {text : Reply → String} {id : String} {exec : ExecutionResult} {task : Executions.Task}

/-- **The API tells of the execution that it is asked for.** -/
theorem status_id (hc : Reachable b c) (ha : a.tag = .request (.status id))
    (ht : c.pool[t]? = some (a, .done (.reply r))) (hends : Sent (.reply r))
    (hr : r.body = .result exec) : exec.id = id := by
  obtain ⟨_, heq, h⟩ := hends
  cases heq
  rcases h with ⟨exec', rfl⟩ | ⟨e, message, herror⟩
  · cases hr
    have htold := hc.achieved ht
    simp only [Achieved, ha] at htold
    rcases htold with ⟨job, heq, -, x, -, rfl, hkeep⟩ | ⟨-, hne⟩
    · obtain rfl : exec = statusResult job := by simpa using heq
      exact (own_of_keeps hkeep).statusResult
    · exact absurd rfl hne
  · rw [hr] at herror
    cases herror

theorem getExecution_some (h : getExecution text r = some (some exec)) : r.body = .result exec := by
  unfold getExecution at h
  split at h
  · next exec' hr =>
    cases h
    unfold request at hr
    split_ifs at hr
    exact Except.ok.inj hr
  · cases h
  · cases h

end

/-! ### Steps of the site -/

section
variable {b : Backend} {text : Reply → String} {s s' : Site b} {l : Label}

/-- The API goes on, a request arrives, or the page does something. -/
inductive Move (text : Reply → String) (s : Site b) (l : Label) : Site b → Prop where
  | api {l₁ : Concurrency.Pool.Label Task Input} {c : Config (apiSystem b)}
      (hl : seen text s l = none) (hc : s.api.step l₁ = some c) : Move text s l { s with api := c }
  | arrive {k : ℕ} {task : Executions.Task} {r : Request} {c : Config (apiSystem b)}
      (hl : seen text s l = none) (hk : s.page.tasks[k]? = some task)
      (hr : requestOf task = some r) (hc : s.api.step (.arrive (.request r)) = some c) :
      Move text s l
        { s with api := c, wire := Function.update s.wire k (some s.api.pool.length) }
  | page {l' : Executions.Label} {p : Page} (hl : seen text s l = some l')
      (hp : s.page.step l' = some p) :
      Move text s l { s with page := p, wire := hangUp s.wire (respondsTo l') }

theorem move_of_seen (h : (seen text s l).bind s.proceed = some s') : Move text s l s' := by
  obtain ⟨l', hl, h⟩ := Option.bind_eq_some_iff.mp h
  obtain ⟨p, hp, rfl⟩ := Option.map_eq_some_iff.mp h
  exact .page hl hp

theorem move_of_step {new : List Empty} (hs : (site b text).step s l = some (s', new)) :
    Move text s l s' := by
  obtain ⟨s₁, h, heq⟩ := Option.map_eq_some_iff.mp hs
  cases heq
  cases l with
  | api l₁ =>
    obtain ⟨c, hc, rfl⟩ := Option.map_eq_some_iff.mp h
    exact .api rfl hc
  | arrive k =>
    obtain ⟨task, hk, h⟩ := Option.bind_eq_some_iff.mp h
    obtain ⟨r, hr, h⟩ := Option.bind_eq_some_iff.mp h
    split_ifs at h
    obtain ⟨c, hc, h⟩ := Option.bind_eq_some_iff.mp h
    cases h
    exact .arrive rfl hk hr hc
  | page l => exact move_of_seen h
  | deliver k => exact move_of_seen h
  | fail k message => exact move_of_seen h

/-- Call `t` of the API answers the request of task `k`. -/
def Answering (p : Page) (c : Config (apiSystem b)) (k t : ℕ) : Prop :=
  ∃ task r a q, p.tasks[k]? = some task ∧ requestOf task = some r ∧
    c.pool[t]? = some (a, q) ∧ a.tag = .request r ∧ ∀ id, r = .status id → q.Ends Sent

theorem Answering.api_step {p : Page} {c c' : Config (apiSystem b)} {k t : ℕ}
    (h : Answering p c k t) {l₁ : Concurrency.Pool.Label Task Input} (hc : c.step l₁ = some c') :
    Answering p c' k t := by
  obtain ⟨task, r, a, q, hk, hr, ht, ha, hends⟩ := h
  have hstepped := stepped_of_step hc
  obtain ⟨q', ht'⟩ := hstepped.extends.pool t a q ht
  refine ⟨task, r, a, q', hk, hr, ht', ha, fun id hid => ?_⟩
  obtain ⟨_, hq, hqends⟩ := hstepped.ends ht (hends id hid)
  rw [ht'] at hq
  cases hq
  exact hqends

theorem Answering.page_step {p p' : Page} {c : Config (apiSystem b)} {k t : ℕ}
    (h : Answering p c k t) {l' : Executions.Label} (hp : p.step l' = some p')
    (hl : respondsTo l' ≠ some k) : Answering p' c k t := by
  obtain ⟨task, r, a, q, hk, hr, ht⟩ := h
  have hstepped := Executions.stepped_of_step hp
  refine ⟨task, r, a, q, hstepped.frame hk fun hc => hl ?_, hr, ht⟩
  exact respondsTo_of_waits hstepped hk (hr ▸ rfl) hc

/-- A request that has arrived. -/
theorem answering_arrived {p : Page} {c c' : Config (apiSystem b)} {k : ℕ} {r : Request}
    {task : Executions.Task} (hk : p.tasks[k]? = some task) (hr : requestOf task = some r)
    (hc : c.step (.arrive (.request r)) = some c') : Answering p c' k c.pool.length := by
  cases stepped_of_step hc with
  | arrive hrun hentry =>
    refine ⟨task, r, _, _, hk, hr, List.getElem?_concat_length, rfl, ?_⟩
    rintro id rfl
    cases hentry
    exact ends_getStatus b id

/-- The API is in a state that it can be in, and the calls on the wire answer the requests of their
tasks. -/
structure Linked (s : Site b) : Prop where
  api : Reachable b s.api
  wire : ∀ k t, s.wire k = some t → Answering s.page s.api k t

theorem linked_init : Linked (Site.init b) where
  api := .refl
  wire k t h := by cases h

theorem hangUp_eq_some {wire : ℕ → Option ℕ} {x : Option ℕ} {k t : ℕ}
    (h : hangUp wire x k = some t) : wire k = some t ∧ x ≠ some k := by
  cases x with
  | none => exact ⟨h, by simp⟩
  | some k' =>
    rw [hangUp, Function.update_apply] at h
    split_ifs at h with hkk
    exact ⟨h, fun heq => hkk (Option.some.inj heq).symm⟩

/-- **What is linked stays linked.** -/
theorem linked_step (h : Linked s) (hm : Move text s l s') : Linked s' := by
  cases hm with
  | api _ hc => exact ⟨h.api.step trivial hc, fun k t hwire => (h.wire k t hwire).api_step hc⟩
  | @arrive k task r c _ hk hr hc =>
    refine ⟨h.api.step trivial hc, fun k' t hwire => ?_⟩
    simp only [Function.update_apply] at hwire
    split_ifs at hwire with hkk
    · cases hwire
      subst hkk
      exact answering_arrived hk hr hc
    · exact (h.wire k' t hwire).api_step hc
  | page _ hp =>
    refine ⟨h.api, fun k t hwire => ?_⟩
    obtain ⟨hwire', hl⟩ := hangUp_eq_some hwire
    exact (h.wire k t hwire').page_step hp hl

theorem truthful_of_respondsTo {p : Page} {l' : Executions.Label} (h : respondsTo l' = none) :
    truthful p l' = true := by
  cases l' <;> first | rfl | cases h

theorem truthful_reject {p : Page} {k : ℕ} {message : Option String} {task : Executions.Task}
    {l' : Executions.Label} (h : reject k message task = some l') : truthful p l' = true := by
  cases task with
  | submitting data =>
    cases h
    rfl
  | polling id i =>
    cases h
    exact truthful_failed p k
  | showing id =>
    cases h
    exact truthful_failed p k
  | sleeping id i => cases h
  | finished => cases h

/-- A reply that arrives. -/
theorem Answering.told {p : Page} {c : Config (apiSystem b)} {k t : ℕ}
    (h : Answering p c k t) (hc : Reachable b c) {task : Executions.Task} {a : Actor} {r : Reply}
    {l' : Executions.Label} (hk : p.tasks[k]? = some task)
    (ht : c.pool[t]? = some (a, .done (.reply r))) (hl : respond text k r task = some l') :
    truthful p l' = true := by
  obtain ⟨task', req, a', q, hk', hreq, ht', ha, hends⟩ := h
  rw [hk] at hk'
  cases hk'
  rw [ht] at ht'
  cases ht'
  have htold : ∀ {id : String} {response : Option ExecutionResult}, task.asks = some id →
      req = .status id → getExecution text r = some response →
      truthful p (.answered k response) = true := by
    intro id response hasks hid hget
    cases response with
    | none => exact truthful_failed p k
    | some exec =>
      have hexec := status_id hc (hid ▸ ha) ht (hends id hid) (getExecution_some hget)
      simpa [truthful, hk, hasks] using hexec
  cases task with
  | submitting data =>
    obtain ⟨_, -, rfl⟩ := Option.map_eq_some_iff.mp hl
    rfl
  | polling id i =>
    obtain ⟨response, hget, rfl⟩ := Option.map_eq_some_iff.mp hl
    cases hreq
    exact htold rfl rfl hget
  | showing id =>
    obtain ⟨response, hget, rfl⟩ := Option.map_eq_some_iff.mp hl
    cases hreq
    exact htold rfl rfl hget
  | sleeping id i => cases hl
  | finished => cases hl

/-- **The page is told the truth.** -/
theorem Linked.told (h : Linked s) {l' : Executions.Label} (hl : seen text s l = some l') :
    truthful s.page l' = true := by
  cases l with
  | page l₁ =>
    simp only [seen] at hl
    split_ifs at hl with hresponds
    cases hl
    exact truthful_of_respondsTo hresponds
  | api l₁ => cases hl
  | arrive k => cases hl
  | fail k message =>
    obtain ⟨task, -, hl⟩ := Option.bind_eq_some_iff.mp hl
    exact truthful_reject hl
  | deliver k =>
    obtain ⟨task, hk, hl⟩ := Option.bind_eq_some_iff.mp hl
    obtain ⟨t, hwire, hl⟩ := Option.bind_eq_some_iff.mp hl
    split at hl
    · next a r ht => exact (h.wire k t hwire).told h.api hk ht hl
    · cases hl

/-! ### Runs of the site -/

variable {tr : List (Site b × Label)}

theorem linked (h : Steps (site b text) (Site.init b) tr s) : Linked s :=
  h.keeps (I := fun _ s => Linked s) linked_init fun _ _ _ _ _ _ hs hstep =>
    linked_step hs (move_of_step hstep)

/-- **What the page goes through is a run of the page.** -/
theorem page_steps (h : Steps (site b text) (Site.init b) tr s) :
    Steps page .init (pageSteps text tr) s.page := by
  induction h with
  | refl => exact .refl
  | @step tr s s' l new h hs ih =>
    have htr : pageSteps text (tr ++ [(s, l)]) =
        pageSteps text tr ++ ((seen text s l).map fun l' => (s.page, l')).toList := by
      unfold pageSteps
      rw [List.filterMap_append]
      cases hl : seen text s l <;> simp [hl]
    rw [htr]
    cases move_of_step hs with
    | api hl _ =>
      rw [hl]
      simpa using ih
    | arrive hl _ _ _ =>
      rw [hl]
      simpa using ih
    | @page l' p hl hp =>
      rw [hl]
      have hnext : page.step s.page l' = some (p, []) := by
        simp only [page, (linked h).told hl, if_true, hp, Option.map_some]
      exact ih.step hnext

end

/-- Code is submitted, run inline, and asked for. -/
def firstSubmission : List Label :=
  [.page (.edit "python" "print(1)" ""), .page .submit, .arrive 0] ++
    (turn 0 4 { uuid := "job" } ++ turn 0 5 {} ++ inlineExecution 1).map .api ++
    [.deliver 0, .arrive 0] ++ (turn 2 2 {} ++ turn 2 2 {}).map .api ++ [.deliver 0]

example : ((site .memory fun _ => "").run (Site.init .memory) firstSubmission).map
    (fun x => (x.1.page.selectedId, x.1.page.detailExec.map (·.id), x.1.page.tasks)) =
      some (some "job", some "job", [.finished]) := by rfl

end CodeHive.Dashboard.Served
