import CodeHive.Worker.Accounting

/-! # Which jobs a worker drops

A response with status 200 hands out a job that its server has forgotten by then. The worker keeps
it until its result has been acknowledged, unless the body of the response is no job, the result is
not acknowledged, or the task cannot name its files to the compiler. -/

namespace CodeHive.Worker.Handover

set_option autoImplicit false

open CodeHive.Concurrency.Interleaving CodeHive.Js.Value CodeHive.Lists.Slots CodeHive.Os.Process
open CodeHive.Worker.Types CodeHive.Worker.Commands CodeHive.Worker.Main

/-- The result has been acknowledged. -/
def success (answer : Except String ℕ) : Prop :=
  match answer with
  | .ok status => 200 ≤ status ∧ status < 300
  | .error _ => False

/-- The task executes its job or is trying to report it. -/
def working (t : Main.Task) : Prop :=
  match t.stage with
  | .executing x => x.phase ≠ .panicked
  | .reporting _ => True
  | _ => False

/-- What response `k` handed out is being read, or is held by a task. -/
def Held (s : State) (k : ℕ) : Prop :=
  s.poll = .reading (some k) ∨
  ∃ (i : ℕ) (t : Main.Task), s.tasks[i]? = some t ∧ t.handed = some k ∧ working t

/-- The result of what response `k` handed out has been acknowledged. -/
def Acknowledged (es : List Event) (s : State) (k : ℕ) : Prop :=
  ∃ (i : ℕ) (t : Main.Task) (answer : Except String ℕ), s.tasks[i]? = some t ∧ t.handed = some k ∧
    .posted i answer ∈ es ∧ success answer

/-- **Nothing that was handed out is dropped.** -/
def NothingDropped (es : List Event) (s : State) : Prop :=
  ∀ k < s.handed, Held s k ∨ Acknowledged es s k

/-- What the network and the file system have answered: each response with status 200 carried a job,
each result of such a job was acknowledged, and each directory that it was to be compiled in has
paths that are text. -/
structure AllDelivered (r : Runner) (es : List Event) (s : State) : Prop where
  bodies : ∀ k body, .body (some k) body ∈ es → jobOf body ≠ none
  results : ∀ (i : ℕ) (t : Main.Task) (answer : Except String ℕ), s.tasks[i]? = some t →
    t.handed ≠ none → .posted i answer ∈ es → success answer
  dirs : ∀ (i : ℕ) (t : Main.Task) (dir : Path), s.tasks[i]? = some t → t.handed ≠ none →
    .sandbox i (.workDir dir) ∈ es → Sandbox.shouldCompile r t.job → Sandbox.PathsText t.job dir

/-! ### What the history says of a task -/

/-- The task that an event is about. -/
def taskOf : Event → Option ℕ
  | .sandbox i _ => some i
  | .counted i _ => some i
  | .posted i _ => some i
  | .left i => some i
  | _ => none

/-- All directories of a task have paths that are text, if it compiles. -/
def DirsText (r : Runner) (es : List Event) (i : ℕ) (t : Main.Task) : Prop :=
  ∀ dir, .sandbox i (.workDir dir) ∈ es → Sandbox.shouldCompile r t.job →
    Sandbox.PathsText t.job dir

/-- **Where a task is, and what was observed of it.** -/
def Fate (r : Runner) (es : List Event) (i : ℕ) (t : Main.Task) : Prop :=
  match t.stage with
  | .executing x => (∀ answer, .posted i answer ∉ es) ∧
    (DirsText r es i t ∧ x.phase.Sound ∨ ¬ DirsText r es i t ∧ x.phase = .panicked)
  | .reporting _ => (∀ answer, .posted i answer ∉ es) ∧ DirsText r es i t
  | .leaving => (∃ a, ∀ answer, .posted i answer ∈ es ↔ answer = a) ∧ DirsText r es i t
  | .exited => (∃ a, ∀ answer, .posted i answer ∈ es ↔ answer = a) ∧ DirsText r es i t

section
variable {r : Runner} {s s' : State} {es new : List Event} {i : ℕ} {t : Main.Task}

/-- What is not about a task changes nothing for it. -/
theorem mem_append_of_other (hnew : ∀ e ∈ new, taskOf e ≠ some i) {e : Event}
    (he : taskOf e = some i) : e ∈ es ++ new ↔ e ∈ es := by
  rw [List.mem_append]
  exact or_iff_left fun h => hnew e h he

theorem dirsText_append (hnew : ∀ e ∈ new, taskOf e ≠ some i) :
    DirsText r (es ++ new) i t ↔ DirsText r es i t := by
  unfold DirsText
  exact forall_congr' fun dir => imp_congr_left (mem_append_of_other hnew rfl)

theorem Fate.append (h : Fate r es i t) (hnew : ∀ e ∈ new, taskOf e ≠ some i) :
    Fate r (es ++ new) i t := by
  have hposted : ∀ answer, .posted i answer ∈ es ++ new ↔ .posted i answer ∈ es :=
    fun answer => mem_append_of_other hnew rfl
  unfold Fate at h ⊢
  split
  · next x hx =>
    rw [hx] at h
    simp only [hposted, dirsText_append hnew]
    exact h
  all_goals
    next hx =>
    rw [hx] at h
    simp only [hposted, dirsText_append hnew]
    exact h

/-- What is known of all tasks, and of those that are still to be spawned. -/
structure Fates (r : Runner) (es : List Event) (s : State) : Prop where
  fate : ∀ (i : ℕ) (t : Main.Task), s.tasks[i]? = some t → Fate r es i t
  fresh : ∀ e ∈ es, ∀ i, taskOf e = some i → i < s.tasks.length

theorem Fates.init (r : Runner) : Fates r [] .init where
  fate _ _ hi := by cases hi
  fresh _ he := by cases he

/-- The poll loop goes on, and spawns nothing. -/
theorem Fates.poll (h : Fates r es s) (hnew : ∀ e ∈ new, taskOf e = none)
    (htasks : s'.tasks = s.tasks) : Fates r (es ++ new) s' where
  fate i t hi := (h.fate i t (htasks ▸ hi)).append fun e he => by rw [hnew e he]; simp
  fresh e he i hei := by
    rw [htasks]
    rcases List.mem_append.mp he with he | he
    · exact h.fresh e he i hei
    · exact absurd (hei.symm.trans (hnew e he)) (by simp)

/-- Task `i` goes on. -/
theorem Fates.goto {stage : Stage} (h : Fates r es s) (hi : s.tasks[i]? = some t)
    (hnew : ∀ e ∈ new, taskOf e = some i) (htasks : s'.tasks = (s.goto i t stage).tasks)
    (hfate : Fate r (es ++ new) i (t.at stage)) : Fates r (es ++ new) s' := by
  have hlength : s'.tasks.length = s.tasks.length := by
    rw [htasks]
    exact List.length_set
  refine ⟨fun k u hk => ?_, fun e he k hek => ?_⟩
  · rw [htasks] at hk
    rcases getElem?_set_cases hk with ⟨hne, hk⟩ | ⟨rfl, rfl⟩
    · refine (h.fate k u hk).append fun e he => ?_
      rw [hnew e he]
      exact fun h => hne (Option.some.inj h).symm
    · exact hfate
  · rw [hlength]
    rcases List.mem_append.mp he with he | he
    · exact h.fresh e he k hek
    · rw [hnew e he] at hek
      exact Option.some.inj hek ▸ (List.getElem?_eq_some_iff.mp hi).1

/-- A task is spawned. -/
theorem Fates.spawn {job : ExecutionJob} {k : Option ℕ} (h : Fates r es s)
    (hnew : ∀ e ∈ new, taskOf e = none)
    (htasks : s'.tasks = s.tasks ++ [⟨job, k, .executing .init⟩]) : Fates r (es ++ new) s' := by
  have hold : ∀ e ∈ es ++ new, ∀ i, taskOf e = some i → i < s.tasks.length := by
    intro e he i hei
    rcases List.mem_append.mp he with he | he
    · exact h.fresh e he i hei
    · exact absurd (hei.symm.trans (hnew e he)) (by simp)
  refine ⟨fun i t hi => ?_, fun e he i hei => ?_⟩
  · rw [htasks] at hi
    rcases getElem?_concat_cases hi with hi | ⟨rfl, rfl⟩
    · exact (h.fate i t hi).append fun e he => by rw [hnew e he]; simp
    · have hnone : ∀ e, taskOf e = some s.tasks.length → e ∉ es ++ new :=
        fun e hei he => absurd (hold e he _ hei) (Nat.lt_irrefl _)
      exact ⟨fun answer => hnone _ rfl, .inl ⟨fun dir hd => absurd hd (hnone _ rfl), trivial⟩⟩
  · rw [htasks, List.length_append]
    have := hold e he i hei
    omega

/-- The sandbox of a task goes on. -/
theorem Fate.sandbox {x x' : Sandbox.State} {l : Sandbox.Label} {new : List Sandbox.Event}
    (h : Fate r es i t) (ht : t.stage = .executing x)
    (hx : (Sandbox.machine r t.job).step x l = some (x', new)) :
    Fate r (es ++ new.map (.sandbox i)) i (t.at (.executing x')) := by
  unfold Fate at h
  rw [ht] at h
  obtain ⟨hnone, hsound⟩ := h
  have hdirs : DirsText r (es ++ new.map (.sandbox i)) i (t.at (.executing x')) ↔
      DirsText r es i t ∧ ∀ dir, .workDir dir ∈ new → Sandbox.shouldCompile r t.job →
        Sandbox.PathsText t.job dir := by
    have hmem : ∀ dir, .sandbox i (.workDir dir) ∈ es ++ new.map (.sandbox i) ↔
        .sandbox i (.workDir dir) ∈ es ∨ .workDir dir ∈ new := by
      intro dir
      simp
    unfold DirsText
    simp only [hmem, or_imp, forall_and]
    exact Iff.rfl
  refine ⟨fun answer ha => ?_, ?_⟩
  · rcases List.mem_append.mp ha with ha | ha
    · exact hnone answer ha
    · simp at ha
  · show _ ∧ x'.phase.Sound ∨ _ ∧ x'.phase = .panicked
    rw [hdirs]
    rcases l with ⟨e, ms⟩ | a
    · rcases hsound with ⟨hok, hs⟩ | ⟨hbad, hp⟩
      · rcases Sandbox.exec_sound hs hx with ⟨hnew, hs'⟩ | ⟨⟨dir, hdir, hcompile, hpaths⟩, hp'⟩
        · exact .inl ⟨⟨hok, hnew⟩, hs'⟩
        · exact .inr ⟨fun hall => hpaths (hall.2 dir hdir hcompile), hp'⟩
      · exact absurd hx (by rw [Sandbox.step_panicked hp]; simp)
    · cases hx
      rcases hsound with ⟨hok, hs⟩ | ⟨hbad, hp⟩
      · exact .inl ⟨⟨hok, fun _ hd => absurd hd (by simp)⟩, hs⟩
      · exact .inr ⟨fun hall => hbad hall.1, hp⟩

/-- The job has been executed: nothing was wrong with its directory. -/
theorem Fate.returned {x : Sandbox.State} {result : Except String ExecutionResult}
    {res : ExecutionResult} {b : Bool} (h : Fate r es i t) (ht : t.stage = .executing x)
    (hx : x.phase = .returned result) :
    Fate r (es ++ [.counted i b]) i (t.at (.reporting res)) := by
  unfold Fate at h
  rw [ht] at h
  obtain ⟨hnone, ⟨hok, -⟩ | ⟨-, hp⟩⟩ := h
  · refine ⟨fun answer ha => ?_, fun dir hd => ?_⟩
    · rcases List.mem_append.mp ha with ha | ha
      · exact hnone answer ha
      · cases List.mem_singleton.mp ha
    · rcases List.mem_append.mp hd with hd | hd
      · exact hok dir hd
      · cases List.mem_singleton.mp hd
  · exact absurd (hx.symm.trans hp) (by simp)

/-- The result has been sent, once. -/
theorem Fate.posted {res : ExecutionResult} {a : Except String ℕ} (h : Fate r es i t)
    (ht : t.stage = .reporting res) : Fate r (es ++ [.posted i a]) i (t.at .leaving) := by
  unfold Fate at h
  rw [ht] at h
  refine ⟨⟨a, fun answer => ?_⟩, fun dir hd => ?_⟩
  · rw [List.mem_append, List.mem_singleton]
    constructor
    · rintro (ha | ha)
      · exact absurd ha (h.1 answer)
      · cases ha
        rfl
    · rintro rfl
      exact .inr rfl
  · rcases List.mem_append.mp hd with hd | hd
    · exact h.2 dir hd
    · cases List.mem_singleton.mp hd

theorem Fate.leave (h : Fate r es i t) (ht : t.stage = .leaving) :
    Fate r (es ++ [.left i]) i (t.at .exited) := by
  unfold Fate at h
  rw [ht] at h
  obtain ⟨⟨a, ha⟩, hdirs⟩ := h
  refine ⟨⟨a, fun answer => ?_⟩, fun dir hd => ?_⟩
  · rw [← ha answer, List.mem_append, List.mem_singleton]
    exact or_iff_left (by simp)
  · rcases List.mem_append.mp hd with hd | hd
    · exact hdirs dir hd
    · cases List.mem_singleton.mp hd

theorem Fates.move (h : Fates r es s) (hm : Move r s s' new) : Fates r (es ++ new) s' := by
  cases hm with
  | full hp hlimit => exact h.poll (by simp) rfl
  | request hp hlimit => exact h.poll (by simp) rfl
  | nothing hp => exact h.poll (by simp) rfl
  | handed hp => exact h.poll (by simp [taskOf]) rfl
  | other hp => exact h.poll (by simp) rfl
  | discard hp hj => exact h.poll (by simp [taskOf]) rfl
  | spawn hp hj => exact h.spawn (by simp [taskOf]) rfl
  | sandbox hi ht hx => exact h.goto hi (by simp [taskOf]) rfl ((h.fate _ _ hi).sandbox ht hx)
  | completed hi ht hx => exact h.goto hi (by simp [taskOf]) rfl ((h.fate _ _ hi).returned ht hx)
  | failed hi ht hx => exact h.goto hi (by simp [taskOf]) rfl ((h.fate _ _ hi).returned ht hx)
  | posted hi ht => exact h.goto hi (by simp [taskOf]) rfl ((h.fate _ _ hi).posted ht)
  | leave hi ht => exact h.goto hi (by simp [taskOf]) rfl ((h.fate _ _ hi).leave ht)

/-! ### What became of a response -/

/-- What the tasks were spawned for. -/
def heldBy (s : State) : List ℕ := s.tasks.filterMap Task.handed

theorem heldBy_goto {stage : Stage} (hi : s.tasks[i]? = some t) :
    heldBy (s.goto i t stage) = heldBy s :=
  filterMap_set_of_eq Task.handed hi rfl

/-- **What was handed out is being read, or a task was spawned for it, or it was no job.** -/
structure Handing (es : List Event) (s : State) : Prop where
  reading : ∀ k, s.poll = .reading (some k) →
    k < s.handed ∧ (∀ body, .body (some k) body ∉ es) ∧ k ∉ heldBy s
  place : ∀ k < s.handed, s.poll = .reading (some k) ∨ k ∈ heldBy s ∨
    ∃ body, .body (some k) body ∈ es ∧ jobOf body = none
  held : ∀ k ∈ heldBy s, k < s.handed ∧ ∀ body, .body (some k) body ∈ es → jobOf body ≠ none
  nodup : (heldBy s).Nodup
  bodies : ∀ k body, .body (some k) body ∈ es → k < s.handed

theorem Handing.init : Handing [] .init where
  reading _ hp := by cases hp
  place _ hk := absurd hk (Nat.not_lt_zero _)
  held _ hk := by cases hk
  nodup := List.nodup_nil
  bodies _ _ he := by cases he

/-- No body has come, and nothing new is handed out. -/
theorem Handing.same (h : Handing es s) (hnew : ∀ k body, Event.body k body ∉ new)
    (hpoll : ∀ k, s'.poll = .reading (some k) ↔ s.poll = .reading (some k))
    (hheld : heldBy s' = heldBy s) (hhanded : s'.handed = s.handed) : Handing (es ++ new) s' := by
  have hbody : ∀ k body, .body (some k) body ∈ es ++ new ↔ .body (some k) body ∈ es := by
    intro k body
    rw [List.mem_append]
    exact or_iff_left (hnew (some k) body)
  constructor
  · simp only [hpoll, hheld, hhanded, hbody]
    exact h.reading
  · simp only [hpoll, hheld, hhanded, hbody]
    exact h.place
  · simp only [hheld, hhanded, hbody]
    exact h.held
  · rw [hheld]
    exact h.nodup
  · simp only [hhanded, hbody]
    exact h.bodies

theorem Handing.handed (h : Handing es s) (hp : s.poll = .requesting) :
    Handing (es ++ [.handed s.handed])
      { s with poll := .reading (some s.handed), handed := s.handed + 1 } := by
  have hbody : ∀ k body, .body (some k) body ∈ es ++ [.handed s.handed] ↔
      .body (some k) body ∈ es := by
    intro k body
    simp
  constructor
  · intro k hk
    cases hk
    refine ⟨Nat.lt_succ_self _, fun body hb => ?_, fun hk => ?_⟩
    · exact absurd (h.bodies _ _ ((hbody _ _).mp hb)) (Nat.lt_irrefl _)
    · exact absurd (h.held _ hk).1 (Nat.lt_irrefl _)
  · intro k hk
    rcases Nat.lt_succ_iff_lt_or_eq.mp hk with hk | rfl
    · rcases h.place k hk with hk | hk | ⟨body, hb, hj⟩
      · exact absurd (hp.symm.trans hk) (by simp)
      · exact .inr (.inl hk)
      · exact .inr (.inr ⟨body, (hbody _ _).mpr hb, hj⟩)
    · exact .inl rfl
  · intro k hk
    have hheld := h.held k hk
    exact ⟨Nat.lt_succ_of_lt hheld.1, fun body hb => hheld.2 body ((hbody _ _).mp hb)⟩
  · exact h.nodup
  · intro k body hb
    exact Nat.lt_succ_of_lt (h.bodies k body ((hbody _ _).mp hb))

/-- The body of a response has come. -/
theorem Handing.body {k : Option ℕ} {body : Option Json} (h : Handing es s)
    (hp : s.poll = .reading k) (hpoll : s'.poll = .ticking) (hhanded : s'.handed = s.handed)
    (hheld : heldBy s' = heldBy s ++ if (jobOf body).isSome then k.toList else []) :
    Handing (es ++ [.body k body]) s' := by
  have hmem : ∀ j b, .body (some j) b ∈ es ++ [.body k body] ↔
      .body (some j) b ∈ es ∨ some j = k ∧ b = body := by
    intro j b
    simp
  have hbefore : ∀ j, s.poll = .reading (some j) ↔ some j = k := by
    intro j
    rw [hp]
    simp [eq_comm]
  have hin : ∀ j, j ∈ heldBy s' ↔ j ∈ heldBy s ∨ (jobOf body).isSome ∧ some j = k := by
    intro j
    rw [hheld, List.mem_append]
    by_cases hj : (jobOf body).isSome <;> simp [hj, eq_comm]
  constructor
  · intro j hj
    exact absurd (hpoll.symm.trans hj) (by simp)
  · intro j hj
    rw [hhanded] at hj
    rcases h.place j hj with hk | hk | ⟨b, hb, hnone⟩
    · have hjk := (hbefore j).mp hk
      by_cases hjob : (jobOf body).isSome
      · exact .inr (.inl ((hin j).mpr (.inr ⟨hjob, hjk⟩)))
      · exact .inr (.inr ⟨body, (hmem _ _).mpr (.inr ⟨hjk, rfl⟩), by simpa using hjob⟩)
    · exact .inr (.inl ((hin j).mpr (.inl hk)))
    · exact .inr (.inr ⟨b, (hmem _ _).mpr (.inl hb), hnone⟩)
  · intro j hj
    rw [hhanded]
    rcases (hin j).mp hj with hj | ⟨hjob, hjk⟩
    · refine ⟨(h.held j hj).1, fun b hb => ?_⟩
      rcases (hmem _ _).mp hb with hb | ⟨hjk, rfl⟩
      · exact (h.held j hj).2 b hb
      · exact absurd hj (h.reading j ((hbefore j).mpr hjk)).2.2
    · obtain ⟨hlt, hno, -⟩ := h.reading j ((hbefore j).mpr hjk)
      refine ⟨hlt, fun b hb => ?_⟩
      rcases (hmem _ _).mp hb with hb | ⟨-, rfl⟩
      · exact absurd hb (hno b)
      · exact Option.isSome_iff_ne_none.mp hjob
  · rw [hheld]
    split
    · refine h.nodup.append ?_ fun j hj hjk => ?_
      · cases k <;> simp
      · have hjk' : some j = k := by simpa [eq_comm] using hjk
        exact (h.reading j ((hbefore j).mpr hjk')).2.2 hj
    · rw [List.append_nil]
      exact h.nodup
  · intro j b hb
    rw [hhanded]
    rcases (hmem _ _).mp hb with hb | ⟨hjk, -⟩
    · exact h.bodies j b hb
    · exact (h.reading j ((hbefore j).mpr hjk)).1

theorem Handing.move (h : Handing es s) (hm : Move r s s' new) : Handing (es ++ new) s' := by
  cases hm with
  | full hp hlimit => exact h.same (by simp) (fun _ => Iff.rfl) rfl rfl
  | request hp hlimit => exact h.same (by simp) (fun k => by rw [hp]; simp [State.at]) rfl rfl
  | nothing hp => exact h.same (by simp) (fun k => by rw [hp]; simp [State.at]) rfl rfl
  | handed hp => exact h.handed hp
  | other hp => exact h.same (by simp) (fun k => by rw [hp]; simp [State.at]) rfl rfl
  | spawn hp hj =>
    refine h.body hp rfl rfl ?_
    unfold heldBy
    rw [filterMap_concat, hj]
    rfl
  | discard hp hj =>
    refine h.body hp rfl rfl ?_
    rw [hj]
    exact (List.append_nil _).symm
  | sandbox hi ht hx => exact h.same (by simp) (fun _ => Iff.rfl) (heldBy_goto hi) rfl
  | completed hi ht hx => exact h.same (by simp) (fun _ => Iff.rfl) (heldBy_goto hi) rfl
  | failed hi ht hx => exact h.same (by simp) (fun _ => Iff.rfl) (heldBy_goto hi) rfl
  | posted hi ht => exact h.same (by simp) (fun _ => Iff.rfl) (heldBy_goto hi) rfl
  | leave hi ht => exact h.same (by simp) (fun _ => Iff.rfl) (heldBy_goto hi) rfl

/-! ### What is dropped -/

/-- What a run says of the tasks and of the responses. -/
structure Known (r : Runner) (es : List Event) (s : State) : Prop where
  fates : Fates r es s
  handing : Handing es s

theorem known (h : Reaches (worker r) .init es s) : Known r es s := by
  refine h.keeps ⟨Fates.init r, Handing.init⟩ ?_
  intro es s l s' new _ hs hstep
  have hm := move_of_step hstep
  exact ⟨hs.fates.move hm, hs.handing.move hm⟩

theorem mem_heldBy {k : ℕ} :
    k ∈ heldBy s ↔ ∃ (i : ℕ) (t : Main.Task), s.tasks[i]? = some t ∧ t.handed = some k := by
  unfold heldBy
  rw [List.mem_filterMap]
  constructor
  · rintro ⟨t, ht, hk⟩
    obtain ⟨i, hi⟩ := List.getElem?_of_mem ht
    exact ⟨i, t, hi, hk⟩
  · rintro ⟨i, t, hi, hk⟩
    exact ⟨t, List.mem_of_getElem? hi, hk⟩

/-- A task whose job is not dropped is still working, or its result has been acknowledged. -/
theorem Known.kept {k : ℕ} (h : Known r es s) (hi : s.tasks[i]? = some t) (hk : t.handed = some k)
    (hkept : Held s k ∨ Acknowledged es s k) :
    working t ∨ ∃ answer, .posted i answer ∈ es ∧ success answer := by
  have hmem : k ∈ heldBy s := mem_heldBy.mpr ⟨i, t, hi, hk⟩
  have hsame : ∀ (j : ℕ) (u : Main.Task), s.tasks[j]? = some u → u.handed = some k → j = i :=
    fun j u hj hu => eq_of_nodup_filterMap Task.handed h.handing.nodup hj hi hu hk
  rcases hkept with (hreading | ⟨j, u, hj, hu, hworking⟩) | ⟨j, u, answer, hj, hu, hanswer, hok⟩
  · exact absurd hmem (h.handing.reading k hreading).2.2
  · obtain rfl := hsame j u hj hu
    cases hi.symm.trans hj
    exact .inl hworking
  · obtain rfl := hsame j u hj hu
    exact .inr ⟨answer, hanswer, hok⟩

/-- A task that works has not reported, and has not met a directory that it cannot name. -/
theorem Fate.of_working (h : Fate r es i t) (hw : working t) :
    (∀ answer, .posted i answer ∉ es) ∧ DirsText r es i t := by
  unfold working at hw
  unfold Fate at h
  split at hw
  · next x hx =>
    rw [hx] at h
    obtain ⟨hnone, ⟨hok, -⟩ | ⟨-, hp⟩⟩ := h
    · exact ⟨hnone, hok⟩
    · exact absurd hp hw
  · next res hres =>
    rw [hres] at h
    exact h
  · exact hw.elim

/-- A task that has reported did so once, and has not met such a directory. -/
theorem Fate.of_posted {a : Except String ℕ} (h : Fate r es i t) (ha : .posted i a ∈ es) :
    (∀ answer, .posted i answer ∈ es → answer = a) ∧ DirsText r es i t := by
  unfold Fate at h
  split at h
  · exact absurd ha (h.1 a)
  · exact absurd ha (h.1 a)
  all_goals
    obtain ⟨⟨b, hb⟩, hdirs⟩ := h
    have hab : a = b := (hb a).mp ha
    exact ⟨fun answer h => ((hb answer).mp h).trans hab.symm, hdirs⟩

/-- A task that neither works nor has reported cannot name its files. -/
theorem Fate.lost (h : Fate r es i t) (hw : ¬ working t) (hnone : ∀ answer, .posted i answer ∉ es) :
    ¬ DirsText r es i t := by
  unfold working at hw
  unfold Fate at h
  split at h
  · next x hx =>
    rw [hx] at hw
    rcases h.2 with ⟨-, hs⟩ | ⟨hbad, -⟩
    · have hpanic : x.phase = .panicked := not_not.mp hw
      rw [hpanic] at hs
      exact hs.elim
    · exact hbad
  · next res hres =>
    rw [hres] at hw
    exact absurd trivial hw
  all_goals
    obtain ⟨⟨a, ha⟩, -⟩ := h
    exact absurd ((ha a).mpr rfl) (hnone a)

theorem Known.delivered (h : Known r es s) (hkept : NothingDropped es s) : AllDelivered r es s where
  bodies k body hb hnone := by
    rcases hkept k (h.handing.bodies k body hb) with (hreading | ⟨i, t, hi, hk, -⟩) | hack
    · exact (h.handing.reading k hreading).2.1 body hb
    · exact (h.handing.held k (mem_heldBy.mpr ⟨i, t, hi, hk⟩)).2 body hb hnone
    · obtain ⟨i, t, answer, hi, hk, -, -⟩ := hack
      exact (h.handing.held k (mem_heldBy.mpr ⟨i, t, hi, hk⟩)).2 body hb hnone
  results i t answer hi hhanded hanswer := by
    obtain ⟨k, hk⟩ := Option.ne_none_iff_exists'.mp hhanded
    have hlt := (h.handing.held k (mem_heldBy.mpr ⟨i, t, hi, hk⟩)).1
    rcases h.kept hi hk (hkept k hlt) with hw | ⟨a, ha, hok⟩
    · exact absurd hanswer (((h.fates.fate i t hi).of_working hw).1 answer)
    · exact ((h.fates.fate i t hi).of_posted ha).1 answer hanswer ▸ hok
  dirs i t dir hi hhanded hdir := by
    obtain ⟨k, hk⟩ := Option.ne_none_iff_exists'.mp hhanded
    have hlt := (h.handing.held k (mem_heldBy.mpr ⟨i, t, hi, hk⟩)).1
    rcases h.kept hi hk (hkept k hlt) with hw | ⟨a, ha, -⟩
    · exact ((h.fates.fate i t hi).of_working hw).2 dir hdir
    · exact ((h.fates.fate i t hi).of_posted ha).2 dir hdir

theorem Known.nothingDropped (h : Known r es s) (hall : AllDelivered r es s) :
    NothingDropped es s := by
  intro k hk
  rcases h.handing.place k hk with hreading | hheld | ⟨body, hb, hnone⟩
  · exact .inl (.inl hreading)
  · obtain ⟨i, t, hi, ht⟩ := mem_heldBy.mp hheld
    have hhanded : t.handed ≠ none := by rw [ht]; simp
    by_cases hw : working t
    · exact .inl (.inr ⟨i, t, hi, ht, hw⟩)
    · by_cases hposted : ∃ answer, .posted i answer ∈ es
      · obtain ⟨answer, ha⟩ := hposted
        exact .inr ⟨i, t, answer, hi, ht, ha, hall.results i t answer hi hhanded ha⟩
      · have hnone : ∀ answer, .posted i answer ∉ es := fun answer ha => hposted ⟨answer, ha⟩
        have hbad := (h.fates.fate i t hi).lost hw hnone
        exact absurd (fun dir hd => hall.dirs i t dir hi hhanded hd) hbad
  · exact absurd hnone (hall.bodies k body hb)

end

/-- **The worker drops nothing exactly as long as everything is delivered**: every response with
status 200 carries a job, every result is acknowledged, and what is compiled has paths that are
text. -/
theorem nothingDropped_iff (r : Runner) {es : List Event} {s : State}
    (h : Reaches (worker r) .init es s) : NothingDropped es s ↔ AllDelivered r es s :=
  ⟨(known h).delivered, (known h).nothingDropped⟩

/-- A record that the API hands out. -/
def apiRecord : Json :=
  .obj [("id", .str "job"), ("type", .str "execute"),
    ("payload", .obj [("image", .str ""), ("cmd", .arr []),
      ("env", .obj [("CODEHIVE_LANG", .str "python")])]),
    ("status", .str "running"), ("workerId", .str "worker"),
    ("createdAt", .str "2024-01-01T00:00:00.000Z"), ("updatedAt", .str "2024-01-01T00:00:01.000Z"),
    ("result", .null)]

/-- **What the API hands out is dropped**: the body is no job of the worker, and nobody else has it
any more. -/
theorem apiRecord_dropped : ∃ es s, Reaches (worker Accounting.single) .init es s ∧
    s.handed = 1 ∧ ¬ NothingDropped es s := by
  have hrun : Reaches (worker Accounting.single) .init _ _ := reaches_of_run
    (rfl : (worker Accounting.single).run .init
      [.tick, .responded (.ok 200), .body (some apiRecord)] = some _)
  refine ⟨_, _, hrun, rfl, fun hkept => ?_⟩
  have hjob : jobOf (some apiRecord) = none := by
    unfold jobOf apiRecord
    rw [Option.bind_some]
    exact deserialize_eq_none (by simp)
  have hbody : .body (some 0) (some apiRecord) ∈ [Event.handed 0, .body (some 0) (some apiRecord)] :=
    by simp
  exact ((known hrun).delivered hkept).bodies 0 (some apiRecord) hbody hjob

/-- A job is handed out, executed and reported, and the report is acknowledged. -/
theorem handed_kept : ∃ es s, Reaches (worker Accounting.single) .init es s ∧ s.handed = 1 ∧
    Acknowledged es s 0 ∧ NothingDropped es s := by
  have hrun : Reaches (worker Accounting.single) .init _ _ :=
    reaches_of_run (rfl : (worker Accounting.single).run .init Accounting.oneJob = some _)
  refine ⟨_, _, hrun, rfl, ⟨0, _, .ok 200, rfl, rfl, by simp, by decide, by decide⟩,
    (nothingDropped_iff _ hrun).mpr ⟨?_, ?_, ?_⟩⟩
  · intro k body hb
    simp at hb
    rw [hb.2]
    exact Option.some_ne_none _
  · intro i t answer _ _ ha
    simp at ha
    rw [ha.2]
    exact ⟨by decide, by decide⟩
  · intro i t dir _ _ hdir _
    have hdir : dir = .ofString "/tmp/dir" := by
      simp at hdir
      exact hdir.2
    rw [hdir]
    exact Sandbox.pathsText (by rw [Path.to_str_ofString]; rfl)

end CodeHive.Worker.Handover
