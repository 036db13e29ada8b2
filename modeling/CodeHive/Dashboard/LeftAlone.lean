import CodeHive.Api.Quiescence
import CodeHive.Dashboard.Served
import Mathlib.Order.WellFounded

/-! # The site left alone

The page asks, the API answers, timers fire, executions go on. When nobody does anything at the page
any more and nobody else asks the API, this comes to an end, although each answer may start another
round of `poll` and each request may start calls of the API: every request of the page has been
answered, no timer runs, and `submitting` is false (`site_left_alone`). The process of the API goes
on meanwhile, and the commands sent to Redis succeed. -/

namespace CodeHive.Dashboard.LeftAlone

set_option autoImplicit false

open CodeHive.Api.Types CodeHive.Api.Messages CodeHive.Api.Program CodeHive.Api.Queue
open CodeHive.Api.System CodeHive.Api.History CodeHive.Api.Handlers CodeHive.Api.Runs
open CodeHive.Api.Course CodeHive.Api.Quiescence
open CodeHive.Concurrency.Pool (Config Stepped)
open CodeHive.Concurrency.Protocols CodeHive.Concurrency.Settling CodeHive.Concurrency.Resting
open CodeHive.Concurrency.Interleaving CodeHive.Lists.Slots
open CodeHive.Dashboard.Executions (Page page concerns submitted polled woken shown)
open CodeHive.Dashboard.Served

/-! ### The page -/

/-- How often a task still has to go on, at most. -/
def toDo : Executions.Task → ℕ
  | .submitting _ => 123
  | .polling _ i => 2 * (60 - i) + 2
  | .sleeping _ i => 2 * (60 - i) + 1
  | .showing _ => 1
  | .finished => 0

/-- What the tasks of the page still have to do. -/
def tasksLeft (p : Page) : ℕ := (p.tasks.map toDo).sum

/-- A task goes on. -/
theorem tasksLeft_set {p p' : Page} {k : ℕ} {task task' : Executions.Task}
    (hk : p.tasks[k]? = some task) (hp' : p'.tasks = p.tasks.set k task')
    (hlt : toDo task' < toDo task) : tasksLeft p' < tasksLeft p := by
  have hsum := sum_map_set toDo hk task'
  unfold tasksLeft
  rw [hp']
  omega

/-- **A task that goes on has less to do.** -/
theorem tasksLeft_lt {p p' : Page} {l : Executions.Label} {k : ℕ} (hl : concerns l = some k)
    (h : p.step l = some p') : tasksLeft p' < tasksLeft p := by
  cases Executions.stepped_of_step h with
  | edit => cases hl
  | listed => cases hl
  | submit hidle hcode => cases hl
  | showDetail hrow => cases hl
  | close hshown => cases hl
  | @submitted k data response hk =>
    cases response with
    | ok id => exact tasksLeft_set hk rfl (show 2 * (60 - 0) + 2 < 123 by decide)
    | error message => exact tasksLeft_set hk rfl (show 0 < 123 by decide)
  | @polled k id i response hk =>
    have hfinished : toDo .finished < toDo (.polling id i) := Nat.succ_pos _
    unfold polled
    split
    · split_ifs
      · exact tasksLeft_set hk rfl hfinished
      · exact tasksLeft_set hk rfl (Nat.lt_succ_self _)
    · exact tasksLeft_set hk rfl hfinished
  | shown hk => exact tasksLeft_set hk rfl Nat.zero_lt_one
  | @timeout k id i hk =>
    unfold woken
    split_ifs with hi
    · refine tasksLeft_set hk rfl ?_
      show 2 * (60 - (i + 1)) + 2 < 2 * (60 - i) + 1
      omega
    · exact tasksLeft_set hk rfl (Nat.succ_pos _)

/-- While `submitting` is true, a submission waits for its answer. -/
def Busy (p : Page) : Prop :=
  p.submitting = true →
    ∃ (k : ℕ) (data : Executions.ExecutionRequest), p.tasks[k]? = some (.submitting data)

theorem Busy.step {p p' : Page} {l : Executions.Label} (h : Busy p) (hp : p.step l = some p') :
    Busy p' := by
  have hstepped := Executions.stepped_of_step hp
  -- a submission that the step is not about still waits
  have hframe : p'.submitting = p.submitting → (∀ k, concerns l = some k →
      ∀ data, p.tasks[k]? ≠ some (.submitting data)) → Busy p' := by
    intro hsame hother hbusy
    obtain ⟨k, data, hk⟩ := h (hsame ▸ hbusy)
    exact ⟨k, data, hstepped.frame hk fun hc => hother k hc data hk⟩
  cases hstepped with
  | edit => exact hframe rfl fun k hc => by cases hc
  | listed => exact hframe rfl fun k hc => by cases hc
  | close hshown => exact hframe rfl fun k hc => by cases hc
  | showDetail hrow => exact hframe rfl fun k hc => by cases hc
  | submit hidle hcode => exact fun _ => ⟨_, _, List.getElem?_concat_length⟩
  | @submitted k data response hk =>
    cases response with
    | ok id => exact fun hbusy => by cases hbusy
    | error message => exact fun hbusy => by cases hbusy
  | @polled k id i response hk =>
    refine hframe ?_ fun k' hc data hsub => ?_
    · unfold polled
      split
      · split_ifs <;> rfl
      · rfl
    · cases hc
      rw [hk] at hsub
      cases hsub
  | @shown k id response hk =>
    refine hframe rfl fun k' hc data hsub => ?_
    cases hc
    rw [hk] at hsub
    cases hsub
  | @timeout k id i hk =>
    refine hframe ?_ fun k' hc data hsub => ?_
    · unfold woken
      split_ifs <;> rfl
    · cases hc
      rw [hk] at hsub
      cases hsub

/-! ### Steps that nobody takes -/

section
variable {b : Backend} {text : Reply → String} {s s' : Site b}

/-- Timers fire, the API goes on, requests of the page arrive and replies are delivered. -/
def Unattended : Served.Label → Prop
  | .page (.timeout _) => True
  | .api l => Concurrency.Resting.Own l
  | .arrive _ => True
  | .deliver _ => True
  | _ => False

/-- A step of the site that nobody takes. -/
def SiteStep (text : Reply → String) (s s' : Site b) : Prop :=
  ∃ l, Unattended l ∧ (site b text).step s l = some (s', [])

/-- The tasks whose requests are not at the API. -/
def unsent (s : Site b) : Finset ℕ :=
  (Finset.range s.page.tasks.length).filter fun k => s.wire k = none

/-- **Less is left to do**: for the tasks of the page, of requests to be sent, or for the API. -/
def Less (s' s : Site b) : Prop :=
  Prod.Lex (· < ·) (Prod.Lex (· < ·) Concurrency.Resting.Less)
    (tasksLeft s'.page, (unsent s').card, s'.api) (tasksLeft s.page, (unsent s).card, s.api)

theorem wellFounded_less : WellFounded (Less : Site b → Site b → Prop) :=
  InvImage.wf (fun s : Site b => (tasksLeft s.page, (unsent s).card, s.api))
    (WellFounded.prod_lex Nat.lt_wfRel.wf
      (WellFounded.prod_lex Nat.lt_wfRel.wf Concurrency.Resting.wellFounded_less))

theorem concerns_respond {k : ℕ} {r : Reply} {task : Executions.Task} {l : Executions.Label}
    (h : respond text k r task = some l) : concerns l = some k := by
  cases task with
  | submitting data =>
    obtain ⟨x, -, rfl⟩ := Option.map_eq_some_iff.mp h
    rfl
  | polling id i =>
    obtain ⟨x, -, rfl⟩ := Option.map_eq_some_iff.mp h
    rfl
  | showing id =>
    obtain ⟨x, -, rfl⟩ := Option.map_eq_some_iff.mp h
    rfl
  | sleeping id i => cases h
  | finished => cases h

/-- A task of the page goes on. -/
theorem less_of_proceed {l : Executions.Label} {k : ℕ} (hl : concerns l = some k)
    (h : s.proceed l = some s') : Less s' s := by
  obtain ⟨p, hp, rfl⟩ := Option.map_eq_some_iff.mp h
  exact .left _ _ (tasksLeft_lt hl hp)

/-- **A step that nobody takes leaves less to do.** -/
theorem less_of_step (h : SiteStep text s s') : Less s' s := by
  obtain ⟨l, hl, hs⟩ := h
  obtain ⟨s₁, hs, he⟩ := Option.map_eq_some_iff.mp hs
  cases he
  cases l with
  | page l =>
    cases l with
    | timeout k =>
      obtain ⟨l', hseen, hp⟩ := Option.bind_eq_some_iff.mp hs
      cases hseen
      exact less_of_proceed rfl hp
    | _ => exact hl.elim
  | api l =>
    obtain ⟨c, hc, rfl⟩ := Option.map_eq_some_iff.mp hs
    exact .right _ (.right _ (Concurrency.Resting.less_of_step ⟨l, hl, hc⟩))
  | arrive k =>
    obtain ⟨task, hk, hs⟩ := Option.bind_eq_some_iff.mp hs
    obtain ⟨r, hr, hs⟩ := Option.bind_eq_some_iff.mp hs
    split_ifs at hs with hwire
    obtain ⟨c, hc, hs⟩ := Option.bind_eq_some_iff.mp hs
    cases hs
    refine .right _ (.left _ _ (Finset.card_lt_card ?_))
    have hlt : k < s.page.tasks.length := (List.getElem?_eq_some_iff.mp hk).1
    rw [Finset.ssubset_iff_of_subset]
    · refine ⟨k, by simp [unsent, hlt, hwire], by simp [unsent]⟩
    · intro u hu
      simp only [unsent, Finset.mem_filter, Finset.mem_range, Function.update_apply] at hu ⊢
      refine ⟨hu.1, ?_⟩
      by_cases huk : u = k
      · rw [huk]
        exact hwire
      · rw [if_neg huk] at hu
        exact hu.2
  | deliver k =>
    obtain ⟨l', hseen, hp⟩ := Option.bind_eq_some_iff.mp hs
    obtain ⟨task, hk, hseen⟩ := Option.bind_eq_some_iff.mp hseen
    obtain ⟨t, ht, hseen⟩ := Option.bind_eq_some_iff.mp hseen
    split at hseen
    · exact less_of_proceed (concerns_respond hseen) hp
    · cases hseen
  | fail k message => exact hl.elim

/-! ### Where the site rests -/

/-- **The site at rest.** -/
structure SiteAtRest (b : Backend) (s : Site b) : Prop where
  /-- Every request of the page has been answered, and no timer runs. -/
  finished : ∀ task ∈ s.page.tasks, task = .finished
  /-- What Run waits for besides code to submit. -/
  notSubmitting : s.page.submitting = false
  api : AtRest b s.api

theorem getExecution_of_understood (text : Reply → String) {r : Reply} (h : Understood r) :
    ∃ response, getExecution text r = some response := by
  rcases h with ⟨exec, rfl⟩ | hcode
  · exact ⟨some exec, rfl⟩
  · have hrequest : request text r = .error s!"API {r.code}: {text r}" := if_neg (by omega)
    exact ⟨none, by rw [getExecution, hrequest]⟩

theorem submitCode_of_submitted (text : Reply → String) {a : Actor} {w : World} {r : Reply}
    (h : Submitted a w r) :
    ∃ response, submitCode text r = some response := by
  rcases h with ⟨job, language, rfl, -⟩ | ⟨hcode, -⟩
  · exact ⟨.ok job.id, rfl⟩
  · have hrequest : request text r = .error s!"API {r.code}: {text r}" := if_neg (by omega)
    exact ⟨_, by rw [submitCode, hrequest]⟩

/-- The reply to a task is one that it goes on with. -/
theorem proceed_of_reply (text : Reply → String) (h : Linked s) {k t : ℕ}
    {task : Executions.Task} {a : Actor} {r : Request} {reply : Reply}
    (hk : s.page.tasks[k]? = some task) (hr : requestOf task = some r)
    (ha : a.tag = .request r) (ht : s.api.pool[t]? = some (a, .done (.reply reply))) :
    ∃ l p, respond text k reply task = some l ∧ s.page.step l = some p := by
  cases task with
  | submitting data =>
    cases hr
    have hachieved := h.api.achieved ht
    unfold Achieved at hachieved
    rw [ha] at hachieved
    obtain ⟨response, hresponse⟩ := submitCode_of_submitted text hachieved
    exact ⟨.submitted k response, submitted s.page k response, by rw [respond, hresponse]; rfl,
      by simp only [Page.step, hk]⟩
  | polling id i =>
    cases hr
    obtain ⟨response, hresponse⟩ :=
      getExecution_of_understood text (understood h.api ha ht)
    exact ⟨.answered k response, polled s.page k id i response, by rw [respond, hresponse]; rfl,
      by simp only [Page.step, hk]⟩
  | showing id =>
    cases hr
    obtain ⟨response, hresponse⟩ :=
      getExecution_of_understood text (understood h.api ha ht)
    exact ⟨.answered k response, shown s.page k response, by rw [respond, hresponse]; rfl,
      by simp only [Page.step, hk]⟩
  | sleeping id i => cases hr
  | finished => cases hr

theorem step_of_stuck (hstuck : Stuck (SiteStep text) s) {l : Served.Label} (hl : Unattended l) :
    (site b text).step s l = none := by
  cases hs : (site b text).step s l with
  | none => rfl
  | some x =>
    obtain ⟨s', new⟩ := x
    cases new with
    | nil => exact absurd ⟨l, hl, hs⟩ (hstuck s')
    | cons e new => exact e.elim

/-- A task that waits for an answer does not wait for ever. -/
theorem not_waiting (h : Linked s) (hrest : AtRest b s.api)
    (hstuck : Stuck (SiteStep text) s) {k : ℕ} {task : Executions.Task} {r : Request}
    (hk : s.page.tasks[k]? = some task) : requestOf task ≠ some r := by
  intro hr
  cases hwire : s.wire k with
  | none =>
    have hentry : (apiSystem b).entry (.request r) = some ((handle b r).toThread replied) := rfl
    have harrive := (Stepped.arrive hrest.idle hentry).step
    have hnone := step_of_stuck hstuck (l := .arrive k) trivial
    simp [site, Site.arrive, hk, hr, hwire, harrive] at hnone
  | some t =>
    obtain ⟨task', r', a, q, hk', hr', ht, ha, -⟩ := h.wire k t hwire
    rw [hk] at hk'
    cases hk'
    rw [hr] at hr'
    cases hr'
    obtain ⟨reply, rfl⟩ := hrest.answered t a q r ht ha
    obtain ⟨l, p, hl, hp⟩ := proceed_of_reply text h hk hr ha ht
    have hnone := step_of_stuck hstuck (l := .deliver k) trivial
    simp [site, seen, hk, hwire, ht, hl, Site.proceed, hp] at hnone

theorem atRest_of_stuck (h : Linked s) (hbusy : Busy s.page) (hstuck : Stuck (SiteStep text) s) :
    SiteAtRest b s := by
  have hapi : AtRest b s.api := by
    refine Api.Quiescence.atRest_of_stuck h.api ?_
    rintro c ⟨l, hl, hc⟩
    have hnone := step_of_stuck hstuck (l := .api l) hl
    simp [site, hc] at hnone
  have hfinished : ∀ task ∈ s.page.tasks, task = .finished := by
    intro task htask
    obtain ⟨k, hk⟩ := List.mem_iff_getElem?.mp htask
    cases task with
    | finished => rfl
    | submitting data => exact absurd rfl (not_waiting h hapi hstuck hk)
    | polling id i => exact absurd rfl (not_waiting h hapi hstuck hk)
    | showing id => exact absurd rfl (not_waiting h hapi hstuck hk)
    | sleeping id i =>
      have hnone := step_of_stuck hstuck (l := .page (.timeout k)) trivial
      simp [site, seen, respondsTo, Site.proceed, Page.step, hk] at hnone
  refine ⟨hfinished, ?_, hapi⟩
  by_contra hsubmitting
  obtain ⟨k, data, hk⟩ := hbusy (by simpa using hsubmitting)
  have hdone := hfinished _ (List.mem_of_getElem? hk)
  cases hdone

theorem Busy.move {l : Served.Label} (h : Busy s.page) (hm : Move text s l s') : Busy s'.page := by
  cases hm with
  | api hl hc => exact h
  | arrive hl hk hr hc => exact h
  | page hl hp => exact h.step hp

/-- **Left alone, the site comes to rest**, from whatever it has come to, if nothing ends the API. -/
theorem site_left_alone {tr : List (Site b × Served.Label)}
    (h : Steps (site b text) (Site.init b) tr s) :
    ComesToRest (SiteStep text) s (SiteAtRest b) := by
  have hbusy : Busy s.page := by
    refine h.keeps (I := fun _ s => Busy s.page) ?_ fun _ _ _ _ _ _ hs hstep =>
      hs.move (move_of_step hstep)
    exact fun hsubmitting => by cases hsubmitting
  have hstep : ∀ s s' : Site b, Linked s ∧ Busy s.page → SiteStep text s s' →
      (Linked s' ∧ Busy s'.page) ∧ Less s' s := by
    rintro s s' ⟨hl, hb⟩ hs
    have hless := less_of_step hs
    obtain ⟨l, -, hs⟩ := hs
    have hm := move_of_step hs
    exact ⟨⟨linked_step hl hm, hb.move hm⟩, hless⟩
  refine comesToRest wellFounded_less hstep ⟨linked h, hbusy⟩ fun s' hr hstuck => ?_
  obtain ⟨hl, hb⟩ := invariant_of_reflTransGen hstep ⟨linked h, hbusy⟩ hr
  exact atRest_of_stuck hl hb hstuck

end

/-- Code has been submitted at the page; the API has accepted it, which the page does not know. -/
def underway : List Served.Label :=
  [.page (.edit "python" "print(1)" ""), .page .submit, .arrive 0] ++
    (turn 0 4 { uuid := "job" } ++ turn 0 5 {}).map .api

theorem site_left_alone_run : ∃ tr s, Steps (site .memory fun _ => "") (Site.init .memory) tr s ∧
    s.page.submitting = true ∧ s.api.pool.length = 2 ∧
    ComesToRest (SiteStep fun _ => "") s (SiteAtRest .memory) := by
  let A := site .memory fun _ => ""
  obtain ⟨x, hx⟩ : ∃ x, A.run (Site.init .memory) underway = some x :=
    Option.isSome_iff_exists.mp rfl
  have hcome : (A.run (Site.init .memory) underway).map
      (fun x => (x.1.page.submitting, x.1.api.pool.length)) = some (true, 2) := rfl
  rw [hx, Option.map_some, Option.some_inj, Prod.mk.injEq] at hcome
  obtain ⟨tr, htr⟩ := (reaches_of_run hx).steps
  exact ⟨tr, x.1, htr, hcome.1, hcome.2, site_left_alone htr⟩

end CodeHive.Dashboard.LeftAlone
