import CodeHive.Worker.Accounting

/-! # The heartbeats of the worker

The heartbeat loop of `main.rs`, beside the poll loop and its tasks: it reads the three counters one
after the other, each under its own lock, and posts what it has read. -/

namespace CodeHive.Worker.Heartbeats

set_option autoImplicit false

open CodeHive.Concurrency.Interleaving CodeHive.Js.Value
open CodeHive.Rust.Serde CodeHive.Worker.Types CodeHive.Worker.Commands CodeHive.Worker.Main
open CodeHive.Worker.Accounting

/-! ### The status -/

/-- Worker heartbeat status. -/
structure WorkerStatus where
  worker_id : String
  hostname : String
  version : String
  uptime_seconds : UInt64
  active_jobs : UInt32
  completed_jobs : ℕ
  failed_jobs : ℕ
  avg_duration_ms : Number
  docker_available : Bool
  languages : List String

/-- `Serialize for WorkerStatus`. -/
def WorkerStatus.serialize (status : WorkerStatus) : Json :=
  .obj [("worker_id", .str status.worker_id), ("hostname", .str status.hostname),
    ("version", .str status.version), ("uptime_seconds", .num status.uptime_seconds.toNat),
    ("active_jobs", .num status.active_jobs.toNat), ("completed_jobs", .num status.completed_jobs),
    ("failed_jobs", .num status.failed_jobs), ("avg_duration_ms", ofF64 status.avg_duration_ms),
    ("docker_available", .bool status.docker_available),
    ("languages", .arr (status.languages.map .str))]

/-- `HOSTNAME` or `COMPUTERNAME`, where they are set and text. -/
def hostname (env : String → Option String) : String :=
  ((env "HOSTNAME").or (env "COMPUTERNAME")).getD "unknown"

/-- The status, from what was read. -/
def statusOf (r : Runner) (env : String → Option String) (uptime : UInt64) (active : UInt32)
    (completed failed : ℕ) : WorkerStatus where
  worker_id := r.config.worker_id
  hostname := hostname env
  version := "0.1.0"
  uptime_seconds := uptime
  active_jobs := active
  completed_jobs := completed
  failed_jobs := failed
  avg_duration_ms := .fin 0
  docker_available := r.docker_available
  languages := ["python", "node", "go", "rust", "cpp"]

/-! ### The loop -/

/-- Where the heartbeat loop is. -/
inductive Beat where
  /-- In `tick`. -/
  | ticking
  /-- It has read the clock; `active_jobs` is next. -/
  | active (uptime : UInt64)
  | completed (uptime : UInt64) (active : UInt32)
  | failed (uptime : UInt64) (active : UInt32) (completed : ℕ)
  /-- In `send` of the status. -/
  | sending (status : WorkerStatus)

structure State where
  worker : Main.State
  beat : Beat

/-- Both loops have been spawned. -/
def State.init : State := ⟨.init, .ticking⟩

inductive Label where
  | worker (l : Main.Label)
  | tick (uptime : UInt64)
  /-- The next counter is read. -/
  | read
  /-- The server has answered, or not; a warning is logged. -/
  | responded

inductive Event where
  | worker (e : Main.Event)
  | ticked
  | sent (status : WorkerStatus)

/-- A counter is read. -/
def State.read (r : Runner) (env : String → Option String) (s : State) :
    Option (State × List Event) :=
  match s.beat with
  | .active uptime => some (⟨s.worker, .completed uptime s.worker.active_jobs⟩, [])
  | .completed uptime active => some (⟨s.worker, .failed uptime active s.worker.completed_jobs⟩, [])
  | .failed uptime active completed =>
    let status := statusOf r env uptime active completed s.worker.failed_jobs
    some (⟨s.worker, .sending status⟩, [.sent status])
  | _ => none

/-- **The worker with its heartbeats.** -/
def beating (r : Runner) (env : String → Option String) : Automaton State Label Event where
  step s l :=
    match s.beat, l with
    | _, .worker l => ((worker r).step s.worker l).map fun x => (⟨x.1, s.beat⟩, x.2.map .worker)
    | .ticking, .tick uptime => some (⟨s.worker, .active uptime⟩, [.ticked])
    | _, .read => s.read r env
    | .sending _, .responded => some (⟨s.worker, .ticking⟩, [])
    | _, _ => none

def workerEvent : Event → Option Main.Event
  | .worker e => some e
  | _ => none

/-! ### What a step can do -/

/-- **The moves**: those of the worker, and those of the heartbeat loop. -/
inductive Move (r : Runner) (env : String → Option String) : State → State → List Event → Prop where
  | worker {w w' : Main.State} {new : List Main.Event} (beat : Beat) (hm : Main.Move r w w' new) :
      Move r env ⟨w, beat⟩ ⟨w', beat⟩ (new.map .worker)
  | tick (w : Main.State) (uptime : UInt64) :
      Move r env ⟨w, .ticking⟩ ⟨w, .active uptime⟩ [.ticked]
  | readActive (w : Main.State) (uptime : UInt64) :
      Move r env ⟨w, .active uptime⟩ ⟨w, .completed uptime w.active_jobs⟩ []
  | readCompleted (w : Main.State) (uptime : UInt64) (active : UInt32) :
      Move r env ⟨w, .completed uptime active⟩ ⟨w, .failed uptime active w.completed_jobs⟩ []
  | readFailed (w : Main.State) (uptime : UInt64) (active : UInt32) (completed : ℕ) :
      Move r env ⟨w, .failed uptime active completed⟩
        ⟨w, .sending (statusOf r env uptime active completed w.failed_jobs)⟩
        [.sent (statusOf r env uptime active completed w.failed_jobs)]
  | responded (w : Main.State) (status : WorkerStatus) :
      Move r env ⟨w, .sending status⟩ ⟨w, .ticking⟩ []

section
variable {r : Runner} {env : String → Option String} {s s' : State} {es new : List Event}

theorem move_of_step {l : Label} (h : (beating r env).step s l = some (s', new)) :
    Move r env s s' new := by
  obtain ⟨w, beat⟩ := s
  unfold beating at h
  simp only at h
  split at h
  · obtain ⟨⟨w', es⟩, hw, h⟩ := Option.map_eq_some_iff.mp h
    cases h
    exact .worker _ (Main.move_of_step hw)
  · cases h
    exact .tick w _
  · unfold State.read at h
    simp only at h
    split at h
    · cases h; exact .readActive w _
    · cases h; exact .readCompleted w _ _
    · cases h; exact .readFailed w _ _ _
    · cases h
  · cases h
    exact .responded w _
  · cases h

/-! ### What the counters said -/

/-- A task is spawned. -/
def spawns : Main.Event → Bool
  | .body _ body => (jobOf body).isSome
  | _ => false

/-- How many jobs have been taken. -/
def taken (es : List Event) : ℕ := (es.filterMap workerEvent).countP spawns

/-- How many have been counted as completed, or as failed. -/
def ended (completed : Bool) (es : List Event) : ℕ :=
  (es.filterMap workerEvent).countP (countsAs completed)

theorem filterMap_map_worker (es : List Main.Event) :
    (es.map Event.worker).filterMap workerEvent = es := by
  rw [List.filterMap_map]
  exact List.filterMap_some

/-- **The worker is a part.** -/
theorem worker_part : Part (beating r env) (worker r) State.worker workerEvent where
  step s l s' new hs := by
    obtain ⟨w, beat⟩ := s
    unfold beating at hs
    simp only at hs
    split at hs
    · next l =>
      obtain ⟨⟨w', es⟩, hw, hs⟩ := Option.map_eq_some_iff.mp hs
      cases hs
      exact .inr ⟨l, by rw [filterMap_map_worker]; exact hw⟩
    · cases hs; exact .inl ⟨rfl, rfl⟩
    · unfold State.read at hs
      simp only at hs
      split at hs
      · cases hs; exact .inl ⟨rfl, rfl⟩
      · cases hs; exact .inl ⟨rfl, rfl⟩
      · cases hs; exact .inl ⟨rfl, rfl⟩
      · cases hs
    · cases hs; exact .inl ⟨rfl, rfl⟩
    · cases hs

theorem worker_reaches (h : Reaches (beating r env) .init es s) :
    Reaches (worker r) .init (es.filterMap workerEvent) s.worker :=
  worker_part.reaches h

/-- Each task was spawned for a job that was taken. -/
theorem length_tasks {es : List Main.Event} {w : Main.State}
    (h : Reaches (worker r) .init es w) : w.tasks.length = es.countP spawns := by
  refine h.keeps (I := fun es w => w.tasks.length = es.countP spawns) rfl ?_
  intro es w l w' new _ hlen hs
  rw [List.countP_append, ← hlen]
  cases Main.move_of_step hs with
  | full hp hlimit | request hp hlimit | nothing hp | handed hp | other hp => rfl
  | spawn hp hj =>
    rw [List.countP_singleton, spawns, hj, List.length_append]
    rfl
  | discard hp hj =>
    rw [List.countP_singleton, spawns, hj]
    rfl
  | @sandbox i t x x' l new' hi ht hx =>
    have hnone : (new'.map (Main.Event.sandbox i)).countP spawns = 0 := by
      rw [List.countP_eq_zero]
      intro e he
      obtain ⟨e', -, rfl⟩ := List.mem_map.mp he
      exact Bool.false_ne_true
    rw [hnone]
    exact List.length_set
  | completed hi ht hx | failed hi ht hx | posted hi ht | leave hi ht => exact List.length_set

/-- Nothing is taken back. -/
theorem grows {w w' : Main.State} {new : List Main.Event} (hm : Main.Move r w w' new) :
    w.tasks.length ≤ w'.tasks.length ∧ w.completed_jobs ≤ w'.completed_jobs ∧
      w.failed_jobs ≤ w'.failed_jobs := by
  cases hm with
  | full hp hlimit | request hp hlimit | nothing hp | handed hp | other hp | discard hp hj =>
    exact ⟨Nat.le_refl _, Nat.le_refl _, Nat.le_refl _⟩
  | spawn hp hj =>
    refine ⟨?_, Nat.le_refl _, Nat.le_refl _⟩
    rw [List.length_append]
    exact Nat.le_add_right _ _
  | sandbox hi ht hx | posted hi ht | leave hi ht =>
    exact ⟨le_of_eq List.length_set.symm, Nat.le_refl _, Nat.le_refl _⟩
  | completed hi ht hx =>
    exact ⟨le_of_eq List.length_set.symm, Nat.le_succ _, Nat.le_refl _⟩
  | failed hi ht hx =>
    exact ⟨le_of_eq List.length_set.symm, Nat.le_refl _, Nat.le_succ _⟩

/-- The tasks that are gone have been counted. -/
theorem length_le_counters {es : List Main.Event} {w : Main.State} (h : Balanced r es w) :
    w.tasks.length ≤ w.active_jobs.toNat + w.completed_jobs + w.failed_jobs ∧
      w.completed_jobs + w.failed_jobs ≤ w.tasks.length := by
  have hgone : w.tasks.countP (fun t => !present t) ≤ w.tasks.countP counted :=
    List.countP_mono_left fun t _ ht => counted_of_gone (by simpa using ht)
  have hsplit : w.tasks.length =
      w.tasks.countP present + w.tasks.countP (fun t => !present t) := by
    simpa using List.length_eq_countP_add_countP present (l := w.tasks)
  have hle : w.tasks.countP counted ≤ w.tasks.length := List.countP_le_length
  have hactive := h.active
  have htotal := h.total
  omega

/-- **What a reading that is under way accounts for**: `n` jobs had been taken at the tick, of which
`c` were completed and `f` failed. -/
def Reads (r : Runner) (n c f : ℕ) (w : Main.State) : Beat → Prop
  | .ticking => True
  | .active _ => n ≤ w.tasks.length ∧ c ≤ w.completed_jobs ∧ f ≤ w.failed_jobs
  | .completed _ active =>
    n ≤ active.toNat + w.completed_jobs + w.failed_jobs ∧
      active ≤ r.config.max_concurrent_jobs ∧ c ≤ w.completed_jobs ∧ f ≤ w.failed_jobs
  | .failed _ active completed =>
    n ≤ active.toNat + completed + w.failed_jobs ∧ active ≤ r.config.max_concurrent_jobs ∧
      c ≤ completed ∧ completed ≤ w.completed_jobs ∧ f ≤ w.failed_jobs
  | .sending _ => True

theorem Reads.worker {n c f : ℕ} {w w' : Main.State} {beat : Beat} (h : Reads r n c f w beat)
    (hle : w.tasks.length ≤ w'.tasks.length ∧ w.completed_jobs ≤ w'.completed_jobs ∧
      w.failed_jobs ≤ w'.failed_jobs) : Reads r n c f w' beat := by
  obtain ⟨htasks, hcompleted, hfailed⟩ := hle
  cases beat with
  | ticking | sending status => trivial
  | active uptime =>
    obtain ⟨hn, hc, hf⟩ := h
    exact ⟨by omega, by omega, by omega⟩
  | completed uptime active =>
    obtain ⟨hn, hlimit, hc, hf⟩ := h
    exact ⟨by omega, hlimit, by omega, by omega⟩
  | failed uptime active completed =>
    obtain ⟨hn, hlimit, hc, hnow, hf⟩ := h
    exact ⟨by omega, hlimit, hc, by omega, by omega⟩

/-- The reading that is under way has begun with a tick. -/
def Begun (r : Runner) (es : List Event) (s : State) : Prop :=
  s.beat = .ticking ∨ ∃ es₁ es₂, es = es₁ ++ .ticked :: es₂ ∧ .ticked ∉ es₂ ∧
    Reads r (taken es₁) (ended true es₁) (ended false es₁) s.worker s.beat

theorem Begun.move (h : Begun r es s) (hr : Reaches (beating r env) .init es s)
    (hm : Move r env s s' new) : Begun r (es ++ new) s' := by
  have hb := balanced (worker_reaches hr)
  cases hm with
  | @worker w w' new beat hm =>
    refine h.imp id ?_
    rintro ⟨es₁, es₂, rfl, hno, hreads⟩
    refine ⟨es₁, es₂ ++ new.map .worker, by simp, ?_, hreads.worker (grows hm)⟩
    simpa using hno
  | tick w uptime =>
    refine .inr ⟨es, [], rfl, List.not_mem_nil, ?_, ?_, ?_⟩
    · exact le_of_eq (length_tasks (worker_reaches hr)).symm
    · exact le_of_eq hb.completed.symm
    · exact le_of_eq hb.failed.symm
  | readActive w uptime =>
    rcases h with h | ⟨es₁, es₂, rfl, hno, hn, hc, hf⟩
    · cases h
    · have hle := (length_le_counters hb).1
      refine .inr ⟨es₁, es₂, List.append_nil _, hno, le_trans hn hle, hb.limit, hc, hf⟩
  | readCompleted w uptime active =>
    rcases h with h | ⟨es₁, es₂, rfl, hno, hn, hlimit, hc, hf⟩
    · cases h
    · exact .inr ⟨es₁, es₂, List.append_nil _, hno, hn, hlimit, hc, Nat.le_refl _, hf⟩
  | readFailed w uptime active completed =>
    rcases h with h | ⟨es₁, es₂, rfl, hno, -⟩
    · cases h
    · refine .inr ⟨es₁, es₂ ++ [.sent (statusOf r env uptime active completed w.failed_jobs)],
        by simp, by simpa using hno, trivial⟩
  | responded w status => exact .inl rfl

theorem begun (h : Reaches (beating r env) .init es s) : Begun r es s :=
  h.keeps (.inl rfl) fun _ _ _ _ _ hr hb hs => hb.move hr (move_of_step hs)

/-- **What a status accounts for**, which is sent after `now`; its tick came after `before`. -/
structure Accounts (r : Runner) (before now : List Event) (status : WorkerStatus) : Prop where
  all : taken before ≤
    status.active_jobs.toNat + status.completed_jobs + status.failed_jobs
  limit : status.active_jobs ≤ r.config.max_concurrent_jobs
  completed : ended true before ≤ status.completed_jobs ∧ status.completed_jobs ≤ ended true now
  failed : ended false before ≤ status.failed_jobs ∧ status.failed_jobs ≤ ended false now
  finished : status.completed_jobs + status.failed_jobs ≤ taken now

end

/-- **No heartbeat loses a job**: though the three counters are read one after the other while tasks
go on, the counts of each status that is sent cover every job that was taken before its tick, count
no job twice as ended, and stay within the limit. -/
theorem heartbeat_accounts {r : Runner} {env : String → Option String} {es : List Event} {s : State}
    (h : Reaches (beating r env) .init es s) {now after : List Event} {status : WorkerStatus}
    (hes : es = now ++ .sent status :: after) :
    ∃ before since, now = before ++ .ticked :: since ∧ .ticked ∉ since ∧
      Accounts r before now status := by
  refine h.each (Q := fun now e => ∀ status, e = .sent status → ∃ before since,
    now = before ++ .ticked :: since ∧ .ticked ∉ since ∧ Accounts r before now status) ?_
    now _ after hes status rfl
  intro es s l s' new hr hs es₁ e es₂ hnew status he
  subst he
  have hmem : Event.sent status ∈ new := hnew ▸ List.mem_append_right _ List.mem_cons_self
  have hb := balanced (worker_reaches hr)
  have hbegun := begun hr
  cases move_of_step hs with
  | worker beat hm => simp at hmem
  | tick w uptime => simp at hmem
  | readActive w uptime => cases hmem
  | readCompleted w uptime active => cases hmem
  | responded w status => cases hmem
  | readFailed w uptime active completed =>
    obtain rfl : es₁ = [] := by
      cases es₁ with
      | nil => rfl
      | cons e es₁ => simp at hnew
    cases List.mem_singleton.mp hmem
    rcases hbegun with hticking | ⟨before, since, rfl, hno, hn, hlimit, hc, hnow, hf⟩
    · cases hticking
    · have hlen : w.tasks.length = taken (before ++ .ticked :: since) :=
        length_tasks (worker_reaches hr)
      have hle : w.completed_jobs + w.failed_jobs ≤ w.tasks.length := (length_le_counters hb).2
      have hcompleted := hb.completed
      have hfailed := hb.failed
      refine ⟨before, since, List.append_nil _, hno, hn, hlimit, ⟨hc, ?_⟩, ⟨hf, ?_⟩, ?_⟩
      · rw [List.append_nil]
        exact hnow.trans (le_of_eq hcompleted)
      · rw [List.append_nil]
        exact le_of_eq hfailed
      · rw [List.append_nil]
        have hsum : completed + w.failed_jobs ≤ w.completed_jobs + w.failed_jobs :=
          Nat.add_le_add_right hnow _
        exact (hsum.trans hle).trans (le_of_eq hlen)

/-- A job ends between the readings of `active_jobs` and `completed_jobs`. -/
def straddled : List Label :=
  (oneJob.take 3).map .worker ++ [.tick 60, .read] ++ ((oneJob.drop 3).take 10).map .worker ++
    [.read, .read]

theorem heartbeat_accounts_straddled : ∃ now status s,
    (beating single fun _ => none).run .init straddled = some (s, now ++ [.sent status]) ∧
    status.active_jobs = 1 ∧ status.completed_jobs = 1 ∧
    ∃ before since, now = before ++ .ticked :: since ∧ .ticked ∉ since ∧
      Accounts single before now status := by
  have hrun : ∃ es s, (beating single fun _ => none).run .init straddled = some (s, es) ∧
      es.getLast? = some (.sent (statusOf single (fun _ => none) 60 1 1 0)) := ⟨_, _, rfl, rfl⟩
  obtain ⟨es, s, hs, hlast⟩ := hrun
  obtain ⟨now, rfl⟩ := List.getLast?_eq_some_iff.mp hlast
  exact ⟨now, _, s, hs, rfl, rfl, heartbeat_accounts (reaches_of_run hs) rfl⟩

end CodeHive.Worker.Heartbeats
