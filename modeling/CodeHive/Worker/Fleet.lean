import CodeHive.Api.FinalAnswers
import CodeHive.Api.Wire
import CodeHive.Concurrency.Interleaving
import CodeHive.Worker.Accounting

/-! # A fleet of workers

Workers of this repository poll the API for jobs, while others submit jobs and ask for them. What a
poll is answered with is no job for a worker, so no worker ever executes anything, and no result is
ever posted: every job is executed by the API itself, once, if its process goes on that long, and
what is told of it is final. -/

namespace CodeHive.Worker.Fleet

set_option autoImplicit false

open CodeHive.Js.Value CodeHive.Api.Messages CodeHive.Api.Program
open CodeHive.Api.Queue CodeHive.Api.System CodeHive.Api.History CodeHive.Api.Runs
open CodeHive.Api.Course CodeHive.Api.Quiescence CodeHive.Api.OneExecution
open CodeHive.Api.FinalAnswers CodeHive.Api.Wire
open CodeHive.Concurrency.Pool CodeHive.Concurrency.Resting CodeHive.Concurrency.Settling
open CodeHive.Concurrency.Interleaving (Automaton)
open CodeHive.Lists.Slots
open CodeHive.Worker.Types CodeHive.Worker.Commands
open CodeHive.Worker.Main hiding Task

/-! ### The API with its workers -/

/-- A worker, and the call of the API that its poll has become. -/
structure Member where
  state : Main.State
  wire : Option ℕ

structure Deployment (b : Backend) where
  api : Config (apiSystem b)
  members : List Member

/-- The API and `n` workers are started. -/
def Deployment.init (b : Backend) (n : ℕ) : Deployment b :=
  ⟨start b, List.replicate n ⟨Main.State.init, none⟩⟩

inductive Label where
  /-- The API goes on, or is asked by someone else, who posts no results. -/
  | api (l : Concurrency.Pool.Label Task Input)
  /-- Worker `k` goes on by itself, or its request fails. -/
  | worker (k : ℕ) (l : Main.Label)
  /-- The poll of worker `k` arrives. -/
  | poll (k : ℕ)
  /-- The status of the reply to worker `k` is delivered, and its body. -/
  | answer (k : ℕ)
  | body (k : ℕ)
  /-- The result of task `i` of worker `k` arrives. -/
  | report (k i : ℕ)

/-- A result is posted. -/
def posts : Concurrency.Pool.Label Task Input → Bool
  | .arrive (.request (.jobResult _ _ _)) => true
  | _ => false

/-- The worker goes on without a reply to its poll. -/
def alone : Main.Label → Bool
  | .responded (.ok _) => false
  | .body (some _) => false
  | _ => true

/-- The wire of a worker that goes on by itself: a poll that has failed is given up. -/
def wireAfter (wire : Option ℕ) : Main.Label → Option ℕ
  | .responded _ => none
  | .body _ => none
  | _ => wire

/-- The JSON of the reply to a poll, which is a job, an error or nothing. -/
def pollBody : Body → Option Json
  | .job job => some (stringifyJob job)
  | .error error message => some (.obj [("error", .str error), ("message", .str message)])
  | _ => none

section
variable {b : Backend} (r : ℕ → Runner) (s : Deployment b)

/-- Worker `k` makes a step. -/
def Deployment.goes (k : ℕ) (l : Main.Label) (wire : Option ℕ → Option ℕ) :
    Option (Deployment b) := do
  let m ← s.members[k]?
  let x ← (worker (r k)).step m.state l
  return { s with members := s.members.set k ⟨x.1, wire m.wire⟩ }

/-- A request of worker `k` arrives at the API. -/
def Deployment.arrive (request : Request) : Option (Deployment b) :=
  (s.api.step (.arrive (.request request))).map fun c => { s with api := c }

def Deployment.poll (k : ℕ) : Option (Deployment b) := do
  let m ← s.members[k]?
  match m.state.poll, m.wire with
  | .requesting, none =>
    let s' ← s.arrive (.jobsNext (r k).config.worker_id)
    return { s' with members := s.members.set k { m with wire := some s.api.pool.length } }
  | _, _ => none

/-- The reply to the poll of worker `k`. -/
def Deployment.reply (k : ℕ) : Option Reply := do
  let m ← s.members[k]?
  let t ← m.wire
  match s.api.pool[t]? with
  | some (_, .done (.reply reply)) => some reply
  | _ => none

/-- The result of a task arrives, any number of times until the task goes on. -/
def Deployment.report (k i : ℕ) : Option (Deployment b) := do
  let m ← s.members[k]?
  let task ← m.state.tasks[i]?
  match task.stage with
  | .reporting res => s.arrive (.jobResult (r k).config.worker_id task.job.id res.serialize)
  | _ => none

end

/-- **The API with its workers.** -/
def fleet (b : Backend) (r : ℕ → Runner) : Automaton (Deployment b) Label Empty where
  step s l :=
    (match l with
      | .api l => if posts l then none else (s.api.step l).map fun c => { s with api := c }
      | .worker k l => if alone l then s.goes r k l (wireAfter · l) else none
      | .poll k => s.poll r k
      | .answer k => do
        let reply ← s.reply k
        -- after a 204 no body is read
        s.goes r k (.responded (.ok reply.code)) fun wire => if reply.code = 204 then none else wire
      | .body k => do
        let reply ← s.reply k
        s.goes r k (.body (pollBody reply.body)) fun _ => none
      | .report k i => s.report r k i).map fun s' => (s', [])

/-! ### A worker that reads no job -/

/-- Nothing has ever been executed by the worker. -/
structure Idle (x : Main.State) : Prop where
  tasks : x.tasks = []
  active : x.active_jobs = 0
  completed : x.completed_jobs = 0
  failed : x.failed_jobs = 0

/-- What a poll is answered with is no job for a worker. -/
theorem jobOf_pollBody (body : Body) : jobOf (pollBody body) = none := by
  cases body with
  | job job => exact deserialize_stringifyJob job
  | error error message =>
    show ExecutionJob.deserialize (.obj [("error", .str error), ("message", .str message)]) = none
    refine deserialize_eq_none fun f hf => ?_
    have hkey : f.1 ∈ ["error", "message"] := List.mem_map_of_mem (f := Prod.fst) hf
    intro hcode
    rw [hcode] at hkey
    exact absurd hkey (by decide)
  | _ => rfl

/-- **Without a job to read a worker stays idle.** -/
theorem Idle.step {r : Runner} {x x' : Main.State} {l : Main.Label} {new : List Main.Event}
    (h : Idle x) (hl : ∀ body, l = .body body → jobOf body = none)
    (hs : (worker r).step x l = some (x', new)) : Idle x' := by
  unfold worker at hs
  simp only at hs
  split at hs
  case h_1 hp =>
    cases hs
    unfold State.tick
    split
    case isTrue hfull => exact h
    case isFalse hfree => exact ⟨h.tasks, h.active, h.completed, h.failed⟩
  case h_2 answer hp =>
    have hs := Option.some.inj hs
    unfold State.responded at hs
    split at hs
    · cases hs
      exact ⟨h.tasks, h.active, h.completed, h.failed⟩
    · split_ifs at hs <;> cases hs <;> exact ⟨h.tasks, h.active, h.completed, h.failed⟩
  case h_3 k body hp =>
    cases hs
    unfold State.read
    rw [hl body rfl]
    exact ⟨h.tasks, h.active, h.completed, h.failed⟩
  case h_4 =>
    obtain ⟨t, hi, hs⟩ := Option.bind_eq_some_iff.mp hs
    rw [h.tasks] at hi
    cases hi
  case h_5 => cases hs

/-! ### The API without results -/

section
variable {b : Backend} {c c' : Config (apiSystem b)}

/-- No result has been posted. -/
def Silent (c : Config (apiSystem b)) : Prop :=
  ∀ (t : ℕ) (a : Actor) (p : Thread) (worker i : String) (body : Json),
    c.pool[t]? = some (a, p) → a.tag ≠ .request (.jobResult worker i body)

theorem Silent.step (hc : Reachable b c) (h : Silent c)
    {l : Concurrency.Pool.Label Task (apiSystem b).Input} (hl : posts l = false)
    (hs : c.step l = some c') : Silent c' := by
  intro u d q worker i body hu
  cases stepped_of_step hs with
  | @arrive tag p hrun hp =>
    rcases getElem?_concat_cases hu with hu | ⟨-, he⟩
    · exact h u d q worker i body hu
    · cases he
      intro htag
      have hposts : posts (.arrive tag) = true := by
        rw [show tag = .request (.jobResult worker i body) from htag]
        rfl
      rw [hposts] at hl
      cases hl
  | @resume t a p hrun hp =>
    rcases getElem?_set_cases hu with ⟨-, hu⟩ | ⟨rfl, he⟩
    · exact h u d q worker i body hu
    · cases he
      exact h u _ _ worker i body hp
  | @op t a o k inp ans w hrun hp hf =>
    rcases getElem?_set_cases hu with ⟨-, hu⟩ | ⟨rfl, he⟩
    · exact h u d q worker i body hu
    · cases he
      exact h u _ _ worker i body hp
  | @fork t a tag child p inp hrun hp =>
    rcases getElem?_concat_cases hu with hu | ⟨-, he⟩
    · rcases getElem?_set_cases hu with ⟨-, hu⟩ | ⟨rfl, he⟩
      · exact h u d q worker i body hu
      · cases he
        exact h u _ _ worker i body hp
    · -- what is detached is an execution
      cases he
      obtain ⟨j, rfl, -⟩ := forked (onCourse hc).conforms hp
      exact fun htag => by cases htag
  | pause hrun hp hsus => exact h u d q worker i body hu

end

/-! ### Runs of the fleet -/

section
variable {b : Backend} {r : ℕ → Runner} {s s' : Deployment b}

/-- **What is so in every run of the fleet.** -/
structure Unread (s : Deployment b) : Prop where
  reached : Reachable b s.api
  idle : ∀ m ∈ s.members, Idle m.state
  silent : Silent s.api

theorem unread_init (b : Backend) (n : ℕ) : Unread (Deployment.init b n) := by
  refine ⟨.refl, fun m hm => ?_, fun t a p worker i body hp => ?_⟩
  · rw [(List.mem_replicate.mp hm).2]
    exact ⟨rfl, rfl, rfl, rfl⟩
  · simp [Deployment.init, Config.init] at hp

theorem idle_set {members : List Member} (h : ∀ m ∈ members, Idle m.state) {k : ℕ} {x : Member}
    (hx : Idle x.state) : ∀ m ∈ members.set k x, Idle m.state := by
  intro m hm
  rcases List.mem_or_eq_of_mem_set hm with hm | rfl
  · exact h m hm
  · exact hx

/-- A worker makes a step. -/
theorem Unread.goes (h : Unread s) {k : ℕ} {l : Main.Label} {wire : Option ℕ → Option ℕ}
    (hl : ∀ body, l = .body body → jobOf body = none) (hs : s.goes r k l wire = some s') :
    Unread s' ∧ s'.api = s.api := by
  obtain ⟨m, hm, hs⟩ := Option.bind_eq_some_iff.mp hs
  obtain ⟨x, hx, hs⟩ := Option.bind_eq_some_iff.mp hs
  cases hs
  have hidle : Idle x.1 := (h.idle m (List.mem_of_getElem? hm)).step hl hx
  exact ⟨⟨h.reached, idle_set h.idle hidle, h.silent⟩, rfl⟩

/-- **Every step of the fleet keeps it**, and is one of the API or leaves the API as it is. -/
theorem Unread.step (h : Unread s) {l : Label} {new : List Empty}
    (hs : (fleet b r).step s l = some (s', new)) :
    Unread s' ∧ Reaches (AnyStep (apiSystem b)) s.api s'.api := by
  obtain ⟨s₁, hs₁, he⟩ := Option.map_eq_some_iff.mp hs
  cases he
  clear hs
  have hsame : Unread s' ∧ s'.api = s.api →
      Unread s' ∧ Reaches (AnyStep (apiSystem b)) s.api s'.api := by
    rintro ⟨hun, heq⟩
    exact ⟨hun, heq ▸ .refl⟩
  cases l with
  | api l =>
    obtain ⟨hposts, hs⟩ := Option.ite_none_left_eq_some.mp hs₁
    obtain ⟨c, hc, rfl⟩ := Option.map_eq_some_iff.mp hs
    have hsilent := h.silent.step h.reached (by simpa using hposts) hc
    exact ⟨⟨h.reached.step trivial hc, h.idle, hsilent⟩, .step .refl trivial hc⟩
  | worker k l =>
    obtain ⟨halone, hs⟩ := Option.ite_none_right_eq_some.mp hs₁
    refine hsame (h.goes (fun body hbody => ?_) hs)
    subst hbody
    cases body with
    | none => rfl
    | some json => cases halone
  | poll k =>
    obtain ⟨m, hm, hs⟩ := Option.bind_eq_some_iff.mp hs₁
    split at hs
    · obtain ⟨s₂, hs₂, hs⟩ := Option.bind_eq_some_iff.mp hs
      obtain ⟨c, hc, rfl⟩ := Option.map_eq_some_iff.mp hs₂
      cases hs
      have hidle : Idle m.state := h.idle m (List.mem_of_getElem? hm)
      have hsilent := h.silent.step h.reached rfl hc
      exact ⟨⟨h.reached.step trivial hc, idle_set h.idle hidle, hsilent⟩, .step .refl trivial hc⟩
    · cases hs
  | answer k =>
    obtain ⟨reply, hreply, hs⟩ := Option.bind_eq_some_iff.mp hs₁
    exact hsame (h.goes (fun body hbody => by cases hbody) hs)
  | body k =>
    obtain ⟨reply, hreply, hs⟩ := Option.bind_eq_some_iff.mp hs₁
    refine hsame (h.goes (fun body hbody => ?_) hs)
    cases hbody
    exact jobOf_pollBody reply.body
  | report k i =>
    -- there is no task to report
    obtain ⟨m, hm, hs⟩ := Option.bind_eq_some_iff.mp hs₁
    obtain ⟨task, htask, hs⟩ := Option.bind_eq_some_iff.mp hs
    rw [(h.idle m (List.mem_of_getElem? hm)).tasks] at htask
    cases htask

theorem Unread.reaches (h : Unread s) {es : List Empty}
    (hr : Concurrency.Interleaving.Reaches (fleet b r) s es s') :
    Unread s' ∧ Reaches (AnyStep (apiSystem b)) s.api s'.api := by
  induction hr with
  | refl => exact ⟨h, .refl⟩
  | step hr hs ih =>
    obtain ⟨hun, hapi⟩ := ih
    obtain ⟨hun', hapi'⟩ := hun.step hs
    exact ⟨hun', hapi.trans hapi'⟩

/-- **With these workers, what is told of a job that has ended is final.** -/
theorem told_finally {s s' : Deployment .memory} {n : ℕ} {es es' : List Empty}
    (h : Concurrency.Interleaving.Reaches (fleet .memory r) (Deployment.init .memory n) es s)
    (h' : Concurrency.Interleaving.Reaches (fleet .memory r) s es' s') {t : ℕ} {a : Actor}
    {i : String} {exec : Api.Types.ExecutionResult} (ha : a.tag = .request (.status i))
    (ht : s.api.pool[t]? = some (a, .done (.reply ⟨200, .result exec⟩)))
    (hended : exec.status.terminal = true) (u : ℕ) (d : Actor) (out : Outcome)
    (hlater : s.api.pool.length ≤ u) (hd : d.tag = .request (.status i))
    (hu : s'.api.pool[u]? = some (d, .done out)) : out = .reply ⟨200, .result exec⟩ := by
  obtain ⟨hun, -⟩ := (unread_init .memory n).reaches h
  obtain ⟨hun', hr⟩ := hun.reaches h'
  have hunposted : Unposted s'.api := fun t a p worker i body hp htag =>
    absurd htag (hun'.silent t a p worker i body hp)
  have hhas : Has s.api i exec :=
    has_of_told hun.reached (hunposted.before hr.extends) ha ht hended
  exact told_again hun.reached hr hunposted hhas hlater hd hu

/-- **Nothing is executed remotely.** -/
structure NothingRemote (s : Deployment b) : Prop where
  /-- No worker has executed anything, whatever it was handed. -/
  idle : ∀ m ∈ s.members, Idle m.state
  /-- No result has been posted. -/
  silent : Silent s.api
  /-- The API executes every job itself, once, as long as nothing ends it. -/
  once : ComesToRest OwnStep s.api ExecutedOnce

/-- **The workers execute nothing**, however many there are and whatever they poll for. -/
theorem nothing_remote {n : ℕ} {es : List Empty}
    (h : Concurrency.Interleaving.Reaches (fleet b r) (Deployment.init b n) es s) :
    NothingRemote s := by
  obtain ⟨hun, -⟩ := (unread_init b n).reaches h
  exact ⟨hun.idle, hun.silent,
    comes_of_stuck hun.reached fun _ hc hstuck => executedOnce_of_stuck hc hstuck⟩

end

/-- A job is submitted, and a worker polls for it. -/
def handedOut : List Label :=
  (submission 0).map .api ++ [.worker 0 .tick, .poll 0] ++
    (turn 2 2 {} ++ turn 2 3 {} ++ turn 2 2 {}).map .api ++ [.answer 0, .body 0]

/-- The worker is handed the job, and executes nothing. -/
theorem nothing_remote_run : ∃ s es,
    (fleet .memory fun _ => Accounting.single).run (.init .memory 1) handedOut = some (s, es) ∧
    s.members.map (·.state.handed) = [1] ∧ NothingRemote s := by
  obtain ⟨⟨s, es⟩, hs⟩ : ∃ x, (fleet .memory fun _ => Accounting.single).run (.init .memory 1)
      handedOut = some x := Option.isSome_iff_exists.mp rfl
  have hhanded : ((fleet .memory fun _ => Accounting.single).run (.init .memory 1) handedOut).map
      (fun x => x.1.members.map (·.state.handed)) = some [1] := rfl
  rw [hs, Option.map_some, Option.some_inj] at hhanded
  exact ⟨s, es, hs, hhanded, nothing_remote (Concurrency.Interleaving.reaches_of_run hs)⟩

end CodeHive.Worker.Fleet
