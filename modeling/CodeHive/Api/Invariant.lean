import CodeHive.Api.Records
import Mathlib.Data.List.Nodup

/-! # The invariant of the queue

What holds of the store and the log of a process on either backend, whatever its calls do to the
records as long as they keep what `Terms.keeps` asks for: ids are given out once, every enqueued job
has its record, and the ids taken off the queue, followed by those still in it, are the ids enqueued,
in order (`Inv`). `Ready` is what a primitive needs for this, and `Inv.fire` says that it is
enough. -/

namespace CodeHive.Api.Invariant

set_option autoImplicit false

open CodeHive.Api.Types CodeHive.Api.Stores CodeHive.Api.Messages CodeHive.Api.Program
open CodeHive.Api.Queue CodeHive.Api.System CodeHive.Api.History CodeHive.Api.Records
open CodeHive.Concurrency.Pool

/-- The primitives that change no record and no queue and give out no id. -/
def Plain : Op → Prop
  | .host .randomUUID => False
  | .host _ => True
  | .mem (.getJob _) => True
  | .mem (.getJobs _ _ _) => True
  | .mem (.getJobCount _) => True
  | .mem (.load _) => True
  | .redis (.get _) => True
  | .redis (.lrange _ _ _) => True
  | .redis (.llen _) => True
  | _ => False

/-- **The terms on which a process is considered**: its backend, the updates its calls make, what
they keep of the record of a job, what the calls may perform, and what holds when they settle. -/
structure Terms where
  b : Backend
  /-- The updates made of the record under an id. -/
  benign : String → PartialJob → Prop
  /-- What is kept of the record of an enqueued job. -/
  keeps : Job → Job → Prop
  benign_updatedAt : ∀ i now, benign i { updatedAt := some now }
  keeps_new : ∀ id request now, keeps (newJob id request now) (newJob id request now)
  keeps_assign : ∀ job rec u, benign job.id u → keeps job rec → keeps job (rec.assign u)
  allowed : Actor → Op → Prop
  plain : ∀ a o, Plain o → allowed a o
  post : Actor → Outcome → World → Prop

theorem Terms.keeps_update (T : Terms) {job rec : Job} {u : PartialJob} (now : String)
    (hu : T.benign job.id u) (hk : T.keeps job rec) : T.keeps job (rec.update u now) :=
  T.keeps_assign _ _ _ (T.benign_updatedAt _ _) (T.keeps_assign _ _ _ hu hk)

variable {T : Terms} {w w' : World} {a : Actor}

/-- **The invariant.** -/
structure Inv (T : Terms) (w : World) : Prop where
  issued : ∀ x ∈ issues w.log, x.2 ∈ w.state.issued ∧ x.2 ≠ ""
  unique : ((issues w.log).map (·.2)).Nodup
  owned : ∀ x ∈ enqueues w.log, (x.1, x.2.id) ∈ issues w.log
  nodup : (ids w.log).Nodup
  stored : ∀ x ∈ enqueues w.log, ∃ job, lookup T.b w.state x.2.id = some job ∧ T.keeps x.2 job
  known : ∀ i job, lookup T.b w.state i = some job → i ∈ ids w.log
  fifo : (pops w.log).map (·.2) ++ pending T.b w.state = ids w.log

/-- What the other calls do between two segments of call `t`: the log grows, but they neither
enqueue nor take off the queue in its name. -/
structure Rely (t : ℕ) (w w' : World) : Prop where
  log : w.log <+: w'.log
  enqueues : ownEnqueues w'.log t = ownEnqueues w.log t
  pops : ownPops w'.log t = ownPops w.log t

theorem Rely.refl (t : ℕ) (w : World) : Rely t w w := ⟨List.prefix_rfl, rfl, rfl⟩

theorem Rely.trans {t : ℕ} {w₁ w₂ w₃ : World} (h₁ : Rely t w₁ w₂) (h₂ : Rely t w₂ w₃) :
    Rely t w₁ w₃ :=
  ⟨h₁.log.trans h₂.log, h₂.enqueues.trans h₁.enqueues, h₂.pops.trans h₁.pops⟩

/-- **What a primitive needs.** -/
def Ready (T : Terms) (a : Actor) (w : World) : Op → Prop
  | .mem (.enqueue job) => T.b = .memory ∧ (a, job.id) ∈ issues w.log ∧ job.id ∉ ids w.log ∧
      T.keeps job job
  | .mem .dequeue => T.b = .memory
  | .mem (.updateJob i u) => T.b = .memory ∧ T.benign i u
  | .mem (.load key) => T.b = .memory ∧ key ∈ ids w.log
  | .mem (.assign key u) => T.b = .memory ∧ key ∈ ids w.log ∧ T.benign key u
  | .redis (.set key rec) => T.b = .redis ∧ ∃ x ∈ enqueues w.log, key = jobKey x.2.id ∧
      T.keeps x.2 rec
  | .redis (.multiSetLpush key job list id) => T.b = .redis ∧ key = jobKey job.id ∧
      list = QUEUE_KEY ∧ id = job.id ∧ (a, job.id) ∈ issues w.log ∧ job.id ∉ ids w.log ∧
      T.keeps job job
  | .redis (.rpop list) => T.b = .redis ∧ list = QUEUE_KEY
  | .redis (.get _) => T.b = .redis
  | _ => True

/-! ### Consequences -/

theorem Inv.lookup_some (h : Inv T w) {i : String} (hi : i ∈ ids w.log) :
    ∃ job, lookup T.b w.state i = some job := by
  obtain ⟨x, hx, rfl⟩ := mem_ids.mp hi
  obtain ⟨job, hjob, -⟩ := h.stored x hx
  exact ⟨job, hjob⟩

theorem Inv.keeps (h : Inv T w) {x : Actor × Job} (hx : x ∈ enqueues w.log) {job : Job}
    (hl : lookup T.b w.state x.2.id = some job) : T.keeps x.2 job := by
  obtain ⟨job', hl', hk⟩ := h.stored x hx
  rw [hl, Option.some.injEq] at hl'
  exact hl' ▸ hk

theorem Inv.ne_empty (h : Inv T w) {i : String} (hi : i ∈ ids w.log) : i ≠ "" := by
  obtain ⟨x, hx, rfl⟩ := mem_ids.mp hi
  exact (h.issued _ (h.owned x hx)).2

theorem Inv.pending_mem (h : Inv T w) {i : String} (hi : i ∈ pending T.b w.state) :
    i ∈ ids w.log := by
  rw [← h.fifo]
  exact List.mem_append_right _ hi

/-- An id is given out to one call. -/
theorem Inv.issue_unique (h : Inv T w) {x y : Actor × String} (hx : x ∈ issues w.log)
    (hy : y ∈ issues w.log) (hxy : x.2 = y.2) : x = y :=
  List.inj_on_of_nodup_map h.unique hx hy hxy

/-- An id is taken off the queue once. -/
theorem Inv.pop_unique (h : Inv T w) {x y : Actor × String} (hx : x ∈ pops w.log)
    (hy : y ∈ pops w.log) (hxy : x.2 = y.2) : x = y := by
  have hnodup := h.nodup
  rw [← h.fifo] at hnodup
  exact List.inj_on_of_nodup_map (List.nodup_append.mp hnodup).1 hx hy hxy

theorem ids_mono {log log' : List Event} (h : log <+: log') {i : String} (hi : i ∈ ids log) :
    i ∈ ids log' := by
  obtain ⟨x, hx, rfl⟩ := mem_ids.mp hi
  exact mem_ids.mpr ⟨x, (h.filterMap _).subset hx, rfl⟩

/-- Only the call an id was given out to enqueues a job under it. -/
theorem Rely.notMem_ids (hr : Rely a.tid w w') (h' : Inv T w') {i : String}
    (hi : (a, i) ∈ issues w.log) (hn : i ∉ ids w.log) : i ∉ ids w'.log := by
  intro hmem
  obtain ⟨x, hx, rfl⟩ := mem_ids.mp hmem
  have hxa : (x.1, x.2.id) = (a, x.2.id) :=
    h'.issue_unique (h'.owned x hx) ((hr.log.filterMap _).subset hi) rfl
  have hxa' : x.1 = a := congrArg Prod.fst hxa
  have hown : x.2 ∈ ownEnqueues w'.log a.tid := mem_ownEnqueues.mpr ⟨x.1, by rw [hxa'], hx⟩
  rw [hr.enqueues] at hown
  obtain ⟨d, -, hd⟩ := mem_ownEnqueues.mp hown
  exact hn (mem_ids.mpr ⟨_, hd, rfl⟩)

/-! ### One event more -/

theorem enqueueOf_actor {e : Event} {x : Actor × Job} (h : enqueueOf e = some x) :
    x.1 = e.actor := by
  unfold enqueueOf at h
  split at h <;> cases h <;> rfl

theorem popOf_actor {e : Event} {x : Actor × String} (h : popOf e = some x) : x.1 = e.actor := by
  unfold popOf at h
  split at h <;> cases h <;> rfl

theorem Rely.other {t : ℕ} {s : Store} {e : Event} (h : e.actor.tid ≠ t) :
    Rely t w ⟨s, w.log ++ [e]⟩ := by
  refine ⟨List.prefix_append _ _, ?_, ?_⟩
  · simp only [ownEnqueues, enqueues_concat, List.filter_append]
    cases he : enqueueOf e with
    | none => simp
    | some x => simp [enqueueOf_actor he, h]
  · simp only [ownPops, pops_concat, List.filter_append]
    cases he : popOf e with
    | none => simp
    | some x => simp [popOf_actor he, h]

theorem Rely.quiet {t : ℕ} {s : Store} {e : Event} (h₁ : enqueueOf e = none)
    (h₂ : popOf e = none) : Rely t w ⟨s, w.log ++ [e]⟩ :=
  ⟨List.prefix_append _ _, by simp [ownEnqueues, h₁], by simp [ownPops, h₂]⟩

section
variable {s : Store} {e : Event}

/-- Neither is an id given out nor a job enqueued: it is the records and the queue that matter. -/
theorem Inv.kept (h : Inv T w) (he₁ : issueOf e = none) (he₂ : enqueueOf e = none)
    (hs : s.issued = w.state.issued)
    (hstored : ∀ x ∈ enqueues w.log, ∃ job, lookup T.b s x.2.id = some job ∧ T.keeps x.2 job)
    (hknown : ∀ i job, lookup T.b s i = some job → i ∈ ids w.log)
    (hfifo : (pops (w.log ++ [e])).map (·.2) ++ pending T.b s = ids w.log) :
    Inv T ⟨s, w.log ++ [e]⟩ := by
  have h₁ := issues_of_none w.log he₁
  have h₂ := enqueues_of_none w.log he₂
  have h₄ := ids_of_none w.log he₂
  exact {
    issued := by rw [h₁, hs]; exact h.issued
    unique := by rw [h₁]; exact h.unique
    owned := by rw [h₁, h₂]; exact h.owned
    nodup := by rw [h₄]; exact h.nodup
    stored := by rw [h₂]; exact hstored
    known := by rw [h₄]; exact hknown
    fifo := by rw [h₄]; exact hfifo }

/-- Nothing happens to records, queue and ids. -/
theorem Inv.quiet (h : Inv T w) (he : Quiet e) (hl : ∀ i, lookup T.b s i = lookup T.b w.state i)
    (hp : pending T.b s = pending T.b w.state) (hi : s.issued = w.state.issued) :
    Inv T ⟨s, w.log ++ [e]⟩ := by
  refine h.kept he.issue he.enqueue hi ?_ ?_ ?_
  · simp only [hl]
    exact h.stored
  · simp only [hl]
    exact h.known
  · rw [pops_of_none w.log he.pop, hp]
    exact h.fifo

/-- The record under `i` is replaced. -/
theorem Inv.write (h : Inv T w) (he : Quiet e) {i : String} (rec : Job) (hi : i ∈ ids w.log)
    (hk : ∀ x ∈ enqueues w.log, x.2.id = i → T.keeps x.2 rec)
    (hl : ∀ j, lookup T.b s j = if j = i then some rec else lookup T.b w.state j)
    (hp : pending T.b s = pending T.b w.state) (hs : s.issued = w.state.issued) :
    Inv T ⟨s, w.log ++ [e]⟩ := by
  refine h.kept he.issue he.enqueue hs (fun x hx => ?_) (fun j job hj => ?_) ?_
  · rw [hl]
    split_ifs with hxi
    · exact ⟨rec, rfl, hk x hx hxi⟩
    · exact h.stored x hx
  · rw [hl] at hj
    split_ifs at hj with hji
    · exact hji ▸ hi
    · exact h.known j job hj
  · rw [pops_of_none w.log he.pop, hp]
    exact h.fifo

/-- A job is enqueued under an id that its call was given. -/
theorem Inv.enqueue (h : Inv T w) {job : Job} (he₁ : issueOf e = none)
    (he₂ : enqueueOf e = some (a, job)) (he₃ : popOf e = none) (hi : (a, job.id) ∈ issues w.log)
    (hn : job.id ∉ ids w.log) (hk : T.keeps job job)
    (hl : ∀ j, lookup T.b s j = if j = job.id then some job else lookup T.b w.state j)
    (hp : pending T.b s = pending T.b w.state ++ [job.id]) (hs : s.issued = w.state.issued) :
    Inv T ⟨s, w.log ++ [e]⟩ := by
  have h₁ := issues_of_none w.log he₁
  have h₂ : enqueues (w.log ++ [e]) = enqueues w.log ++ [(a, job)] := by simp [he₂]
  have h₃ := pops_of_none w.log he₃
  have h₄ : ids (w.log ++ [e]) = ids w.log ++ [job.id] := by simp [ids, h₂]
  refine {
    issued := by rw [h₁, hs]; exact h.issued
    unique := by rw [h₁]; exact h.unique
    owned := ?_
    nodup := ?_
    stored := ?_
    known := ?_
    fifo := by rw [h₃, h₄, hp, ← h.fifo, List.append_assoc] }
  · rw [h₁, h₂]
    intro x hx
    rcases List.mem_append.mp hx with hx | hx
    · exact h.owned x hx
    · rw [List.mem_singleton.mp hx]; exact hi
  · rw [h₄]
    exact List.nodup_append.mpr ⟨h.nodup, List.nodup_singleton _, fun i hi' j hj heq =>
      hn (by rw [← List.mem_singleton.mp hj, ← heq]; exact hi')⟩
  · rw [h₂]
    intro x hx
    rw [hl]
    rcases List.mem_append.mp hx with hx | hx
    · have hne : x.2.id ≠ job.id := fun heq => hn (mem_ids.mpr ⟨x, hx, heq⟩)
      rw [if_neg hne]
      exact h.stored x hx
    · rw [List.mem_singleton.mp hx, if_pos rfl]
      exact ⟨job, rfl, hk⟩
  · rw [h₄]
    intro j job' hj
    rw [hl] at hj
    split_ifs at hj with hji
    · exact List.mem_append_right _ (by simp [hji])
    · exact List.mem_append_left _ (h.known j job' hj)

/-- The oldest id is taken off the queue. -/
theorem Inv.pop (h : Inv T w) {i : String} (he₁ : issueOf e = none) (he₂ : enqueueOf e = none)
    (he₃ : popOf e = some (a, i)) (hl : ∀ j, lookup T.b s j = lookup T.b w.state j)
    (hp : pending T.b w.state = i :: pending T.b s) (hs : s.issued = w.state.issued) :
    Inv T ⟨s, w.log ++ [e]⟩ := by
  have h₃ : pops (w.log ++ [e]) = pops w.log ++ [(a, i)] := by simp [he₃]
  refine h.kept he₁ he₂ hs ?_ ?_ ?_
  · simp only [hl]
    exact h.stored
  · simp only [hl]
    exact h.known
  · rw [h₃, ← h.fifo, hp]
    simp

/-- The queue is asked for its oldest id, if any. -/
theorem Inv.taken (h : Inv T w) (he₁ : issueOf e = none) (he₂ : enqueueOf e = none)
    (he₃ : popOf e = (pending T.b w.state).head?.map (Prod.mk a))
    (hl : ∀ j, lookup T.b s j = lookup T.b w.state j)
    (hp : pending T.b s = (pending T.b w.state).tail) (hs : s.issued = w.state.issued) :
    Inv T ⟨s, w.log ++ [e]⟩ := by
  cases hq : pending T.b w.state with
  | nil => exact h.quiet ⟨he₁, he₂, by rw [he₃, hq]; rfl⟩ hl (by rw [hp, hq]; rfl) hs
  | cons id rest => exact h.pop he₁ he₂ (by rw [he₃, hq]; rfl) hl (by rw [hp, hq]; rfl) hs

/-- An id is given out. -/
theorem Inv.issue (h : Inv T w) {i : String} (he₁ : issueOf e = some (a, i))
    (he₂ : enqueueOf e = none) (he₃ : popOf e = none)
    (hl : ∀ j, lookup T.b s j = lookup T.b w.state j)
    (hp : pending T.b s = pending T.b w.state) (hs : s.issued = i :: w.state.issued)
    (hi : i ∉ w.state.issued) (hne : i ≠ "") : Inv T ⟨s, w.log ++ [e]⟩ := by
  have h₁ : issues (w.log ++ [e]) = issues w.log ++ [(a, i)] := by simp [he₁]
  have h₂ := enqueues_of_none w.log he₂
  have h₃ := pops_of_none w.log he₃
  have h₄ := ids_of_none w.log he₂
  exact {
    issued := by rw [hs]; exact issued_concat he₁ hne h.issued
    unique := nodup_issues_concat he₁ h.issued h.unique hi
    owned := by rw [h₁, h₂]; exact fun x hx => List.mem_append_left _ (h.owned x hx)
    nodup := by rw [h₄]; exact h.nodup
    stored := by simp only [h₂, hl]; exact h.stored
    known := by simp only [h₄, hl]; exact h.known
    fifo := by rw [h₃, h₄, hp]; exact h.fifo }

end

/-- Nothing has been enqueued yet. -/
theorem Inv.empty (T : Terms) : Inv T ⟨Store.empty, []⟩ where
  issued := by simp [issues]
  unique := by simp [issues]
  owned := by simp [enqueues]
  nodup := by simp [ids, enqueues]
  stored := by simp [enqueues]
  known i job h := by cases hb : T.b <;> rw [hb] at h <;> cases h
  fifo := by cases hb : T.b <;> rfl

/-- A call is made. -/
theorem Inv.start (h : Inv T w) (b : Actor) : Inv T (w.start b) :=
  h.quiet ⟨rfl, rfl, rfl⟩ (fun _ => rfl) rfl rfl

/-! ### The primitives -/

theorem Plain.quiet {o : Op} (ho : Plain o) (a : Actor) (r : o.Answer) : Quiet (.ran a o r) := by
  cases o with
  | host o => cases o <;> first | exact ⟨rfl, rfl, rfl⟩ | cases ho
  | mem c => cases c <;> first | exact ⟨rfl, rfl, rfl⟩ | cases ho
  | redis c => cases c <;> first | exact ⟨rfl, rfl, rfl⟩ | cases ho

theorem Plain.written {o : Op} (ho : Plain o) (b : Backend) (now i : String) (old : Option Job) :
    written b o now i old = old := by
  unfold Records.written
  split <;> first | rfl | cases ho

theorem Plain.waiting {o : Op} (ho : Plain o) (b : Backend) (old : List String) :
    waiting b o old = old := by
  unfold Records.waiting
  split <;> first | rfl | cases ho

theorem Plain.issued {o : Op} (ho : Plain o) {i : Input} {s s' : Store} {r : o.Answer}
    (he : exec o i s = some (r, s')) : s'.issued = s.issued := by
  cases o with
  | host o =>
    cases o with
    | randomUUID => cases ho
    | _ => cases he; rfl
  | mem c => exact issued_exec he nofun
  | redis c => exact issued_exec he nofun

section
variable {s : Store} {i : Input}

theorem Inv.plain (h : Inv T w) {o : Op} (ho : Plain o) {r : o.Answer}
    (he : exec o i w.state = some (r, s)) : Inv T ⟨s, w.log ++ [.ran a o r]⟩ :=
  h.quiet (ho.quiet a r) (fun j => (lookup_exec he T.b j).trans (ho.written _ _ _ _))
    ((pending_exec he T.b).trans (ho.waiting _ _)) (ho.issued he)

theorem Inv.host (h : Inv T w) {o : HostOp} {r : o.Answer}
    (he : exec (.host o) i w.state = some (r, s)) : Inv T ⟨s, w.log ++ [.ran a (.host o) r]⟩ := by
  cases o with
  | randomUUID =>
    have hl := lookup_exec he T.b
    have hp := pending_exec he T.b
    simp only [exec, HostOp.exec] at he
    split_ifs at he with hi
    cases he
    exact h.issue rfl rfl rfl (fun j => (hl j).trans (by cases T.b <;> rfl))
      (hp.trans (by cases T.b <;> rfl)) rfl hi.2 hi.1
  | _ => exact h.plain (by trivial) he

/-- The record under an id is replaced in the in-memory queue, if there is one. -/
theorem Inv.rewrite (h : Inv T w) (id : String) (f : Job → Job) {e : Event} (he : Quiet e)
    (hk : ∀ x ∈ enqueues w.log, x.2.id = id → ∀ rec, T.keeps x.2 rec → T.keeps x.2 (f rec))
    (hl : ∀ j, lookup T.b s j =
      if j = id then (lookup T.b w.state j).map f else lookup T.b w.state j)
    (hp : pending T.b s = pending T.b w.state) (hi : s.issued = w.state.issued) :
    Inv T ⟨s, w.log ++ [e]⟩ := by
  cases hj : lookup T.b w.state id with
  | none =>
    refine h.quiet he (fun j => ?_) hp hi
    rw [hl]
    split_ifs with hji
    · rw [hji, hj]; rfl
    · rfl
  | some job =>
    refine h.write he (f job) (h.known id job hj) ?_ (fun j => (hl j).trans (map_at hj f j)) hp hi
    rintro x hx rfl
    exact hk x hx rfl job (h.keeps hx hj)

/-- The oldest id of the in-memory queue has its record, so it is the answer of `dequeue`. -/
theorem Inv.dequeue (h : Inv T w) (hb : T.b = .memory) :
    w.state.mem.dequeue.1 = (pending T.b w.state).head?.map .stored := by
  cases ho : pending T.b w.state with
  | nil =>
    have ho' : w.state.mem.order = [] := by rw [hb] at ho; exact ho
    rw [MemoryQueue.dequeue, ho']
    rfl
  | cons id rest =>
    have hid : id ∈ ids w.log := h.pending_mem (by rw [ho]; exact List.mem_cons_self)
    obtain ⟨job, hj⟩ := h.lookup_some hid
    rw [hb] at ho hj
    have ho' : w.state.mem.order = id :: rest := ho
    have hj' : w.state.mem.jobs id = some job := hj
    simp [MemoryQueue.dequeue, ho', h.ne_empty hid, MemoryQueue.getJob, hj']

theorem Inv.mem (h : Inv T w) {c : MemCall} (hr : Ready T a w (.mem c)) {r : c.Answer}
    (he : exec (.mem c) i w.state = some (r, s)) : Inv T ⟨s, w.log ++ [.ran a (.mem c) r]⟩ := by
  have hl := lookup_exec he T.b
  have hp := pending_exec he T.b
  have hi : s.issued = w.state.issued := issued_exec he nofun
  cases c with
  | enqueue job =>
    obtain ⟨hb, hid, hn, hk⟩ := hr
    refine h.enqueue rfl rfl rfl hid hn hk (fun j => (hl j).trans ?_) (hp.trans ?_) hi <;> rw [hb]
    · rfl
    · rfl
  | dequeue =>
    have hb : T.b = .memory := hr
    have hl' : ∀ j, lookup T.b s j = lookup T.b w.state j := fun j => by rw [hl, hb]; rfl
    have hp' : pending T.b s = (pending T.b w.state).tail := by rw [hp, hb]; rfl
    have hr : r = (pending T.b w.state).head?.map .stored := by
      cases he
      exact h.dequeue hb
    rw [hr]
    refine h.taken (a := a) rfl rfl ?_ hl' hp' hi
    cases (pending T.b w.state).head? <;> rfl
  | updateJob id u =>
    obtain ⟨hb, hu⟩ := hr
    refine h.rewrite id (·.update u (CodeHive.Js.Value.toISOString i.ms)) ⟨rfl, rfl, rfl⟩ ?_
      (fun j => (hl j).trans ?_) (hp.trans ?_) hi
    · rintro x hx rfl rec
      exact T.keeps_update _ hu
    · rw [hb]; rfl
    · rw [hb]; rfl
  | assign key u =>
    obtain ⟨hb, -, hu⟩ := hr
    refine h.rewrite key (·.assign u) ⟨rfl, rfl, rfl⟩ ?_ (fun j => (hl j).trans ?_) (hp.trans ?_) hi
    · rintro x hx rfl rec
      exact T.keeps_assign _ _ _ hu
    · rw [hb]; rfl
    · rw [hb]; rfl
  | _ => exact h.plain (by trivial) he

theorem Inv.redis (h : Inv T w) {c : RedisCmd} (hr : Ready T a w (.redis c))
    {r : Except JsError c.Reply} (he : exec (.redis c) i w.state = some (r, s)) :
    Inv T ⟨s, w.log ++ [.ran a (.redis c) r]⟩ := by
  have hl := lookup_exec he T.b
  have hp := pending_exec he T.b
  have hi : s.issued = w.state.issued := issued_exec he nofun
  cases c with
  | set key val =>
    obtain ⟨hb, x, hx, rfl, hk⟩ := hr
    refine h.write ⟨rfl, rfl, rfl⟩ val (mem_ids.mpr ⟨x, hx, rfl⟩) ?_ (fun j => ?_)
      (hp.trans (by rw [hb]; rfl)) hi
    · intro y hy hyx
      rw [List.inj_on_of_nodup_map (f := fun x : Actor × Job => x.2.id) h.nodup hy hx hyx]
      exact hk
    · rw [hl, hb]
      simp only [written, jobKey_inj]
  | multiSetLpush key job list id =>
    obtain ⟨hb, rfl, rfl, rfl, hid, hn, hk⟩ := hr
    refine h.enqueue rfl rfl rfl hid hn hk (fun j => ?_) ?_ hi
    · rw [hl, hb]
      simp only [written, jobKey_inj]
    · rw [hp, hb]
      simp only [waiting, if_true]
  | rpop list =>
    obtain ⟨hb, rfl⟩ := hr
    have hl' : ∀ j, lookup T.b s j = lookup T.b w.state j := fun j => by rw [hl, hb]; rfl
    have hp' : pending T.b s = (pending T.b w.state).tail := by
      rw [hp, hb]
      simp only [waiting, if_true]
    have hr : r = .ok (pending T.b w.state).head? := by
      cases he
      rw [hb]
      exact rpop_fst _ _
    rw [hr]
    refine h.taken (a := a) rfl rfl ?_ hl' hp' hi
    cases (pending T.b w.state).head? <;> rfl
  | _ => exact h.plain (by trivial) he

end

/-- **A primitive that is ready keeps the invariant.** -/
theorem Inv.fire (h : Inv T w) {o : Op} (hr : Ready T a w o) {i : Input} {r : o.Answer}
    (hf : w.fire a o i = some (r, w')) : Inv T w' := by
  obtain ⟨s, he, rfl⟩ := World.fire_eq_some.mp hf
  cases o with
  | host o => exact h.host he
  | mem c => exact h.mem hr he
  | redis c => exact h.redis (i := i) hr he

/-- A primitive is nothing to the other calls. -/
theorem Rely.of_fire {o : Op} {i : Input} {r : o.Answer} (hf : w.fire a o i = some (r, w')) {t : ℕ}
    (ht : t ≠ a.tid) : Rely t w w' := by
  obtain ⟨s, -, rfl⟩ := World.fire_eq_some.mp hf
  exact Rely.other fun h => ht h.symm

end CodeHive.Api.Invariant
