import CodeHive.Worker.Main

/-! # The job slots of the worker

`active_jobs` is read by the poll loop before it asks for a job, and incremented two awaits later;
the tasks decrement it when they are done. It is the number of the tasks that have not done so, and
never above `max_concurrent_jobs`. -/

namespace CodeHive.Worker.Accounting

set_option autoImplicit false

open CodeHive.Concurrency.Interleaving CodeHive.Lists.Slots CodeHive.Os.Process
open CodeHive.Worker.Types CodeHive.Worker.Commands CodeHive.Worker.Main

/-! ### Counting tasks -/

/-- The task has not decremented `active_jobs` yet. -/
def present (t : Task) : Bool :=
  match t.stage with
  | .exited => false
  | _ => true

/-- The task has incremented `completed_jobs` or `failed_jobs`. -/
def counted (t : Task) : Bool :=
  match t.stage with
  | .executing _ => false
  | _ => true

/-- A task is counted before it decrements. -/
theorem counted_of_gone {t : Main.Task} (h : present t = false) : counted t = true := by
  unfold present at h
  unfold counted
  split at h
  · next hstage => rw [hstage]
  · cases h

/-- Task `i` is counted. -/
def counts (i : ℕ) : Event → Bool
  | .counted j _ => i = j
  | _ => false

/-- How often task `i` has been counted. -/
def timesCounted (es : List Event) (i : ℕ) : ℕ := es.countP (counts i)

/-- A task is counted as completed, or as failed. -/
def countsAs (completed : Bool) : Event → Bool
  | .counted _ b => b = completed
  | _ => false

section
variable {s : State} {i : ℕ} {t : Task} {stage : Stage}

/-- One task goes on, the others are as before. -/
theorem countP_goto (p : Task → Bool) (hi : s.tasks[i]? = some t) (stage : Stage) :
    (s.goto i t stage).tasks.countP p + (if p t then 1 else 0) =
      s.tasks.countP p + (if p (t.at stage) then 1 else 0) := by
  obtain ⟨hlt, rfl⟩ := List.getElem?_eq_some_iff.mp hi
  have hset : (s.goto i s.tasks[i] stage).tasks.countP p =
      s.tasks.countP p - (if p s.tasks[i] then 1 else 0) +
        (if p (s.tasks[i].at stage) then 1 else 0) := List.countP_set hlt
  have hle : (if p s.tasks[i] then 1 else 0) ≤ s.tasks.countP p := by
    split
    · next hp => exact List.countP_pos_iff.mpr ⟨_, List.getElem_mem hlt, hp⟩
    · exact Nat.zero_le _
  omega

theorem countP_goto_of_eq (p : Task → Bool) (hi : s.tasks[i]? = some t)
    (hp : p (t.at stage) = p t) :
    (s.goto i t stage).tasks.countP p = s.tasks.countP p := by
  have h := countP_goto p hi stage
  rw [hp] at h
  omega

/-- Whether a task is counted does not depend on the others. -/
theorem any_counted_goto (hi : s.tasks[i]? = some t) (hcounted : counted (t.at stage) = counted t)
    (k : ℕ) : ((s.goto i t stage).tasks[k]?).any counted = (s.tasks[k]?).any counted := by
  unfold State.goto
  by_cases hk : i = k
  · subst hk
    rw [List.getElem?_set_self (List.getElem?_eq_some_iff.mp hi).1, hi]
    exact hcounted
  · rw [List.getElem?_set_ne hk]

/-- When a task is counted, it is counted once more, and no other task is. -/
theorem counted_once_more (hi : s.tasks[i]? = some t) (hbefore : counted t = false)
    (hafter : counted (t.at stage) = true) (k : ℕ) :
    (if ((s.goto i t stage).tasks[k]?).any counted then 1 else 0) =
      (if (s.tasks[k]?).any counted then 1 else 0) + (if k = i then 1 else 0) := by
  by_cases hk : k = i
  · have hnow : (s.goto i t stage).tasks[i]? = some (t.at stage) :=
      List.getElem?_set_self (List.getElem?_eq_some_iff.mp hi).1
    rw [hk, hi, hnow]
    simp [hbefore, hafter]
  · have hother : (s.goto i t stage).tasks[k]? = s.tasks[k]? :=
      List.getElem?_set_ne (Ne.symm hk)
    rw [hother, if_neg hk, Nat.add_zero]

/-- A new task is not counted. -/
theorem any_counted_concat (l : List Task) (ht : counted t = false) (k : ℕ) :
    ((l ++ [t])[k]?).any counted = (l[k]?).any counted := by
  rw [List.getElem?_append]
  split
  · rfl
  · next hge =>
    rw [List.getElem?_eq_none (l := l) (by omega)]
    cases k - l.length with
    | zero => exact ht
    | succ n => rfl

end

/-! ### The invariant -/

/-- **What the counters say of the tasks.** -/
structure Balanced (r : Runner) (es : List Event) (s : State) : Prop where
  active : s.active_jobs.toNat = s.tasks.countP present
  limit : s.active_jobs ≤ r.config.max_concurrent_jobs
  /-- The limit is checked before a job is asked for, and meanwhile no other task is spawned. -/
  room : s.poll ≠ .ticking → s.active_jobs < r.config.max_concurrent_jobs
  completed : s.completed_jobs = es.countP (countsAs true)
  failed : s.failed_jobs = es.countP (countsAs false)
  total : s.completed_jobs + s.failed_jobs = s.tasks.countP counted
  times : ∀ i, timesCounted es i = if (s.tasks[i]?).any counted then 1 else 0

section
variable {r : Runner} {s s' : State} {es new : List Event}

theorem Balanced.init (r : Runner) : Balanced r [] .init where
  active := rfl
  limit := UInt32.le_iff_toNat_le.mpr (Nat.zero_le _)
  room h := absurd rfl h
  completed := rfl
  failed := rfl
  total := rfl
  times _ := rfl

/-- Nothing is counted. -/
theorem countP_append_of_not {p : Event → Bool} (hp : ∀ e, p e → ∃ j b, e = .counted j b)
    (hnew : ∀ j b, Event.counted j b ∉ new) : (es ++ new).countP p = es.countP p := by
  have hzero : new.countP p = 0 := by
    refine List.countP_eq_zero.mpr fun e he hpe => ?_
    obtain ⟨j, b, rfl⟩ := hp e hpe
    exact hnew j b he
  rw [List.countP_append, hzero, Nat.add_zero]

theorem counts_counted (i : ℕ) (e : Event) (h : counts i e) : ∃ j b, e = .counted j b := by
  cases e with
  | counted j b => exact ⟨j, b, rfl⟩
  | _ => exact absurd h Bool.false_ne_true

theorem countsAs_counted (c : Bool) (e : Event) (h : countsAs c e) : ∃ j b, e = .counted j b := by
  cases e with
  | counted j b => exact ⟨j, b, rfl⟩
  | _ => exact absurd h Bool.false_ne_true

theorem timesCounted_append_of_not (hnew : ∀ j b, Event.counted j b ∉ new) (i : ℕ) :
    timesCounted (es ++ new) i = timesCounted es i :=
  countP_append_of_not (counts_counted i) hnew

theorem timesCounted_concat (es : List Event) (i j : ℕ) (b : Bool) :
    timesCounted (es ++ [.counted j b]) i = timesCounted es i + (if i = j then 1 else 0) := by
  unfold timesCounted
  rw [List.countP_append, List.countP_singleton]
  simp [counts]

/-- The poll loop goes on, and spawns nothing. -/
theorem Balanced.poll (h : Balanced r es s) (hnew : ∀ j b, Event.counted j b ∉ new)
    (htasks : s'.tasks = s.tasks) (hactive : s'.active_jobs = s.active_jobs)
    (hcompleted : s'.completed_jobs = s.completed_jobs) (hfailed : s'.failed_jobs = s.failed_jobs)
    (hroom : s'.poll ≠ .ticking → s.active_jobs < r.config.max_concurrent_jobs) :
    Balanced r (es ++ new) s' where
  active := by rw [hactive, htasks]; exact h.active
  limit := by rw [hactive]; exact h.limit
  room hp := by rw [hactive]; exact hroom hp
  completed := by
    rw [countP_append_of_not (countsAs_counted _) hnew, hcompleted]
    exact h.completed
  failed := by
    rw [countP_append_of_not (countsAs_counted _) hnew, hfailed]
    exact h.failed
  total := by rw [hcompleted, hfailed, htasks]; exact h.total
  times i := by rw [timesCounted_append_of_not hnew, htasks]; exact h.times i

/-- A task goes on, without being counted and without leaving. -/
theorem Balanced.goto {i : ℕ} {t : Task} {stage : Stage} (h : Balanced r es s)
    (hnew : ∀ j b, Event.counted j b ∉ new) (hi : s.tasks[i]? = some t)
    (hpresent : present (t.at stage) = present t) (hcounted : counted (t.at stage) = counted t) :
    Balanced r (es ++ new) (s.goto i t stage) where
  active := by rw [countP_goto_of_eq present hi hpresent]; exact h.active
  limit := h.limit
  room := h.room
  completed := by rw [countP_append_of_not (countsAs_counted _) hnew]; exact h.completed
  failed := by rw [countP_append_of_not (countsAs_counted _) hnew]; exact h.failed
  total := by rw [countP_goto_of_eq counted hi hcounted]; exact h.total
  times k := by
    rw [timesCounted_append_of_not hnew, any_counted_goto hi hcounted]
    exact h.times k

/-- A task is counted. -/
theorem Balanced.count {i : ℕ} {t : Task} {x : Sandbox.State} {res : ExecutionResult} {b : Bool}
    (h : Balanced r es s) (hi : s.tasks[i]? = some t) (ht : t.stage = .executing x)
    (htasks : s'.tasks = (s.goto i t (.reporting res)).tasks)
    (hactive : s'.active_jobs = s.active_jobs) (hpoll : s'.poll = s.poll)
    (hcompleted : s'.completed_jobs = s.completed_jobs + (if b then 1 else 0))
    (hfailed : s'.failed_jobs = s.failed_jobs + (if b then 0 else 1)) :
    Balanced r (es ++ [.counted i b]) s' := by
  have hpresent : present t = true := by unfold present; rw [ht]
  have hcounted : counted t = false := by unfold counted; rw [ht]
  have hnow : counted (t.at (.reporting res)) = true := rfl
  refine ⟨?_, ?_, ?_, ?_, ?_, ?_, fun k => ?_⟩
  · have hsame : (s.goto i t (.reporting res)).tasks.countP present = s.tasks.countP present :=
      countP_goto_of_eq present hi hpresent.symm
    rw [hactive, htasks, hsame]
    exact h.active
  · rw [hactive]
    exact h.limit
  · rw [hactive, hpoll]
    exact h.room
  · rw [hcompleted, h.completed, List.countP_append, List.countP_singleton]
    cases b <;> rfl
  · rw [hfailed, h.failed, List.countP_append, List.countP_singleton]
    cases b <;> rfl
  · have hgrow := countP_goto counted hi (.reporting res)
    rw [hcounted, hnow] at hgrow
    have htotal := h.total
    have hone : (if b then 1 else 0) + (if b then 0 else 1) = 1 := by cases b <;> rfl
    rw [htasks, hcompleted, hfailed]
    simp only [Bool.false_eq_true, if_false, if_true] at hgrow
    omega
  · rw [timesCounted_concat, h.times k, htasks, counted_once_more hi hcounted hnow]

/-- A task that has not decremented is among those that are counted active. -/
theorem Balanced.active_pos {i : ℕ} {t : Task} (h : Balanced r es s) (hi : s.tasks[i]? = some t)
    (hpresent : present t) : 0 < s.active_jobs.toNat := by
  rw [h.active]
  exact List.countP_pos_iff.mpr ⟨t, List.mem_of_getElem? hi, hpresent⟩

/-- A task decrements `active_jobs`. -/
theorem Balanced.leave {i : ℕ} {t : Task} (h : Balanced r es s) (hi : s.tasks[i]? = some t)
    (ht : t.stage = .leaving) :
    Balanced r (es ++ [.left i]) { s.goto i t .exited with active_jobs := s.active_jobs - 1 } := by
  have hpresent : present t = true := by unfold present; rw [ht]
  have hpos := h.active_pos hi hpresent
  have hone : (1 : UInt32).toNat ≤ s.active_jobs.toNat := hpos
  have hsub : (s.active_jobs - 1).toNat = s.active_jobs.toNat - 1 :=
    UInt32.toNat_sub_of_le _ _ (UInt32.le_iff_toNat_le.mpr hone)
  have hcounted : counted (t.at .exited) = counted t := by unfold counted; rw [ht]; rfl
  have hrest := countP_goto present hi .exited
  have hgone : present (t.at .exited) = false := rfl
  rw [hpresent, hgone] at hrest
  simp only [Bool.false_eq_true, if_false, if_true] at hrest
  refine ⟨?_, ?_, fun hp => ?_, ?_, ?_, ?_, fun k => ?_⟩
  · show (s.active_jobs - 1).toNat = (s.goto i t .exited).tasks.countP present
    rw [hsub, h.active]
    omega
  · refine UInt32.le_iff_toNat_le.mpr ?_
    rw [hsub]
    exact Nat.le_trans (Nat.sub_le _ _) (UInt32.le_iff_toNat_le.mp h.limit)
  · refine UInt32.lt_iff_toNat_lt.mpr ?_
    rw [hsub]
    exact Nat.lt_of_le_of_lt (Nat.sub_le _ _) (UInt32.lt_iff_toNat_lt.mp (h.room hp))
  · rw [countP_append_of_not (countsAs_counted _) (by simp)]
    exact h.completed
  · rw [countP_append_of_not (countsAs_counted _) (by simp)]
    exact h.failed
  · show _ = (s.goto i t .exited).tasks.countP counted
    rw [countP_goto_of_eq counted hi hcounted]
    exact h.total
  · show _ = if (((s.goto i t .exited).tasks[k]?).any counted) then 1 else 0
    rw [timesCounted_append_of_not (by simp), any_counted_goto hi hcounted]
    exact h.times k

/-- A task is spawned. -/
theorem Balanced.spawn {job : ExecutionJob} {k : Option ℕ} {body : Option Js.Value.Json}
    (h : Balanced r es s) (hp : s.poll = .reading k) :
    Balanced r (es ++ [.body k body]) { s with
      poll := .ticking
      active_jobs := s.active_jobs + 1
      tasks := s.tasks ++ [⟨job, k, .executing .init⟩] } := by
  have hroom := UInt32.lt_iff_toNat_lt.mp (h.room (by rw [hp]; simp))
  have hmax := r.config.max_concurrent_jobs.toNat_lt
  have hadd : (s.active_jobs + 1).toNat = s.active_jobs.toNat + 1 := by
    rw [UInt32.toNat_add]
    exact Nat.mod_eq_of_lt (by show s.active_jobs.toNat + 1 < 2 ^ 32; omega)
  refine ⟨?_, ?_, fun hne => absurd rfl hne, ?_, ?_, ?_, fun i => ?_⟩
  · rw [hadd, h.active, List.countP_append]
    rfl
  · refine UInt32.le_iff_toNat_le.mpr ?_
    rw [hadd]
    exact hroom
  · rw [countP_append_of_not (countsAs_counted _) (by simp)]
    exact h.completed
  · rw [countP_append_of_not (countsAs_counted _) (by simp)]
    exact h.failed
  · rw [List.countP_append]
    exact h.total
  · rw [timesCounted_append_of_not (by simp), any_counted_concat _ rfl]
    exact h.times i

/-- **A step keeps the balance.** -/
theorem Balanced.move (h : Balanced r es s) (hm : Move r s s' new) : Balanced r (es ++ new) s' := by
  cases hm with
  | full hp hlimit => exact h.poll (by simp) rfl rfl rfl rfl h.room
  | request hp hlimit => exact h.poll (by simp) rfl rfl rfl rfl fun _ => hlimit
  | nothing hp => exact h.poll (by simp) rfl rfl rfl rfl fun hne => absurd rfl hne
  | handed hp => exact h.poll (by simp) rfl rfl rfl rfl fun _ => h.room (by rw [hp]; simp)
  | other hp => exact h.poll (by simp) rfl rfl rfl rfl fun _ => h.room (by rw [hp]; simp)
  | spawn hp hj => exact h.spawn hp
  | discard hp hj => exact h.poll (by simp) rfl rfl rfl rfl fun hne => absurd rfl hne
  | sandbox hi ht hx =>
    refine h.goto (by simp) hi ?_ ?_
    · unfold present; rw [ht]; rfl
    · unfold counted; rw [ht]; rfl
  | completed hi ht hx =>
    exact h.count hi ht rfl rfl rfl rfl rfl
  | failed hi ht hx => exact h.count hi ht rfl rfl rfl rfl rfl
  | posted hi ht =>
    refine h.goto (by simp) hi ?_ ?_
    · unfold present; rw [ht]; rfl
    · unfold counted; rw [ht]; rfl
  | leave hi ht => exact h.leave hi ht

theorem balanced (h : Reaches (worker r) .init es s) : Balanced r es s :=
  h.keeps (Balanced.init r) fun _ _ _ _ _ _ hs hstep => hs.move (move_of_step hstep)

/-! ### No task dies -/

/-- No task has panicked or is about to. -/
def AllSound (s : State) : Prop :=
  ∀ (i : ℕ) (t : Main.Task) (x : Sandbox.State),
    s.tasks[i]? = some t → t.stage = .executing x → x.phase.Sound

/-- The directories that jobs were compiled in have paths that are text. -/
def TextDirs (es : List Event) : Prop :=
  ∀ i dir, .sandbox i (.workDir dir) ∈ es → dir.to_str.isSome

theorem AllSound.goto {i : ℕ} {t : Task} {stage : Stage} (h : AllSound s)
    (hstage : ∀ x, stage = .executing x → x.phase.Sound) : AllSound (s.goto i t stage) := by
  intro k u x hk hu
  rcases getElem?_set_cases hk with ⟨-, hk⟩ | ⟨-, rfl⟩
  · exact h k u x hk hu
  · exact hstage x hu

theorem AllSound.move (h : AllSound s) (htext : TextDirs new) (hm : Move r s s' new) :
    AllSound s' := by
  cases hm with
  | spawn hp hj =>
    intro k u x hk hu
    rcases getElem?_concat_cases hk with hk | ⟨-, rfl⟩
    · exact h k u x hk hu
    · cases hu
      trivial
  | @sandbox i t x x' l new' hi ht hx =>
    refine h.goto fun y hy => ?_
    cases hy
    have hsound := h i t x hi ht
    rcases l with ⟨e, ms⟩ | a
    · rcases Sandbox.exec_sound hsound hx with ⟨-, hok⟩ | ⟨⟨dir, hdir, -, hbad⟩, -⟩
      · exact hok
      · exact absurd (Sandbox.pathsText (htext i dir (List.mem_map_of_mem hdir))) hbad
    · cases hx
      exact hsound
  | completed hi ht hx => exact h.goto fun x hx => by cases hx
  | failed hi ht hx => exact h.goto fun x hx => by cases hx
  | posted hi ht => exact h.goto fun x hx => by cases hx
  | leave hi ht => exact h.goto fun x hx => by cases hx
  | full hp hlimit | request hp hlimit | nothing hp | handed hp | other hp | discard hp hj => exact h

theorem allSound (h : Reaches (worker r) .init es s) : TextDirs es → AllSound s := by
  have hinit : TextDirs [] → AllSound .init := fun _ i t x hi => by cases hi
  refine h.keeps (I := fun es s => TextDirs es → AllSound s) hinit ?_
  intro es s l s' new _ hs hstep htext
  have hbefore : TextDirs es := fun i dir hd => htext i dir (List.mem_append_left _ hd)
  have hnew : TextDirs new := fun i dir hd => htext i dir (List.mem_append_right _ hd)
  exact (hs hbefore).move hnew (move_of_step hstep)

end

/-! ### The counters -/

/-- **The job slots are accounted for**: in every run `active_jobs` is the number of the tasks that
have not decremented it, and within the limit; a task that is about to decrement it finds it
positive; a task is counted at most once, and exactly once before it decrements; no task panics. -/
theorem slots_accounted (r : Runner) {es : List Event} {s : State}
    (h : Reaches (worker r) .init es s) (htext : TextDirs es) :
    s.active_jobs.toNat = s.tasks.countP present ∧
    0 ≤ s.active_jobs ∧ s.active_jobs ≤ r.config.max_concurrent_jobs ∧
    (∀ (i : ℕ) (t : Main.Task), s.tasks[i]? = some t → t.stage = .leaving → 1 ≤ s.active_jobs) ∧
    (∀ (i : ℕ) (t : Main.Task), s.tasks[i]? = some t → present t = false →
      timesCounted es i = 1) ∧
    (∀ i, timesCounted es i ≤ 1) ∧
    s.completed_jobs = es.countP (countsAs true) ∧ s.failed_jobs = es.countP (countsAs false) ∧
    s.tasks.length - s.active_jobs.toNat ≤ s.completed_jobs + s.failed_jobs ∧
    s.completed_jobs + s.failed_jobs ≤ s.tasks.length ∧
    ∀ (i : ℕ) (t : Main.Task) (x : Sandbox.State),
      s.tasks[i]? = some t → t.stage = .executing x → x.phase ≠ .panicked := by
  have hb := balanced h
  refine ⟨hb.active, UInt32.le_iff_toNat_le.mpr (Nat.zero_le _), hb.limit, ?_, ?_, ?_,
    hb.completed, hb.failed, ?_, ?_, ?_⟩
  · intro i t hi ht
    have hpresent : present t = true := by unfold present; rw [ht]
    exact UInt32.le_iff_toNat_le.mpr (hb.active_pos hi hpresent)
  · intro i t hi ht
    rw [hb.times i, hi]
    simp [counted_of_gone ht]
  · intro i
    rw [hb.times i]
    split <;> omega
  · have hgone : s.tasks.countP (fun t => !present t) ≤ s.tasks.countP counted := by
      exact List.countP_mono_left fun t _ ht => counted_of_gone (by simpa using ht)
    have hsplit : s.tasks.length =
        s.tasks.countP present + s.tasks.countP (fun t => !present t) := by
      simpa using List.length_eq_countP_add_countP present (l := s.tasks)
    rw [hb.active, hb.total]
    omega
  · rw [hb.total]
    exact List.countP_le_length
  · intro i t x hi ht hpanic
    have hsound := allSound h htext i t x hi ht
    rw [hpanic] at hsound
    exact hsound

/-- A worker that runs one job at a time, directly. -/
def single : Runner := ⟨⟨"worker", "http://localhost:8080", 512, 1, false⟩, false⟩

/-- The body of a job. -/
def pythonJob : Option Js.Value.Json :=
  some (.obj [("id", .str "job"), ("code", .str "..."), ("language", .str "python")])

/-- A job is polled for, runs to its end and is reported. -/
def oneJob : List Label :=
  [.tick, .responded (.ok 200), .body pythonJob, .tick,
    .task 0 (.sandbox (.exec (.prepared (.ok (.ofString "/tmp/dir"))) 0)),
    .task 0 (.sandbox (.exec (.spawned (.ok 65536)) 1)),
    .task 0 (.sandbox (.process (.closesStdout ""))),
    .task 0 (.sandbox (.process (.closesStderr ""))),
    .task 0 (.sandbox (.process (.ends (.exited 0)))),
    .task 0 (.sandbox (.exec .waited 10)), .task 0 (.sandbox (.exec .drained 10)),
    .task 0 (.sandbox (.exec .removed 11)), .task 0 .count, .task 0 (.posted (.ok 200)),
    .task 0 .leave]

/-- One job was executed: nothing is active, and one job is counted. -/
theorem oneJob_accounted : ∃ es s, Reaches (worker single) .init es s ∧ s.tasks.length = 1 ∧
    s.active_jobs = 0 ∧ s.active_jobs ≤ 1 ∧ timesCounted es 0 = 1 := by
  have hrun : Reaches (worker single) .init _ _ :=
    reaches_of_run (rfl : (worker single).run .init oneJob = some _)
  have hall := slots_accounted single hrun ?_
  · refine ⟨_, _, hrun, rfl, rfl, hall.2.2.1, hall.2.2.2.2.1 0 _ rfl rfl⟩
  · intro i dir hd
    have hdir : dir = .ofString "/tmp/dir" := by
      simp at hd
      exact hd.2
    rw [hdir, Path.to_str_ofString]
    rfl

end CodeHive.Worker.Accounting
