import CodeHive.Orchestrator.WorkerCounts
import Mathlib.Algebra.Order.Field.Rat
import Mathlib.Tactic.NormNum

/-! # `GetWorkers`

A call of `GetWorkers` locks the workers one after the other, so what it returns is no state of the
dispatcher; the worker loops go on between two of its entries. -/

namespace CodeHive.Orchestrator.Snapshots

set_option autoImplicit false

open CodeHive.Concurrency.Interleaving CodeHive.Go.Sync CodeHive.Lists.Slots
open CodeHive.Orchestrator.Types CodeHive.Orchestrator.Runner CodeHive.Orchestrator.JobFlow
open CodeHive.Orchestrator.WorkerCounts

/-! ### The entries -/

/-- The entry for a worker; `uptime` and `now` are what the clock makes of it. -/
def entryOf (w : Worker) (uptime : String) (now : Time) : WorkerStatus where
  ID := w.ID
  Load := if 0 < w.MaxJobs then (w.RunningJobs : ℚ) / w.MaxJobs else 0
  RunningJobs := w.RunningJobs
  MaxJobs := w.MaxJobs
  Uptime := uptime
  LastSeen := now
  Status := w.Status

/-- The entry for a worker that has sent a heartbeat. -/
def heartbeatEntry (workerID : String) (lastSeen : Time) (uptime : String) : WorkerStatus where
  ID := workerID
  Load := 0
  RunningJobs := 0
  MaxJobs := 0
  Uptime := uptime
  LastSeen := lastSeen
  Status := "active"

/-- What is appended for the heartbeats; each is visited with the text of its `Uptime`. -/
def heartbeatEntries (visited : List ((String × Time) × String)) : List WorkerStatus :=
  visited.map fun x => heartbeatEntry x.1.1 x.1.2 x.2

/-! ### The calls -/

/-- Where a call of `GetWorkers` is. -/
inductive Reader where
  /-- In its first loop, with these entries. -/
  | reading (statuses : List WorkerStatus)
  | returned

/-- The dispatcher, and the calls of `GetWorkers`. -/
structure Observed where
  runner : State
  readers : List Reader

/-- What is seen of a run. -/
inductive Event where
  | runner (e : Runner.Event)
  /-- A call returns a list. -/
  | listed (k : ℕ) (statuses : List WorkerStatus)

inductive Label where
  | runner (l : Runner.Label)
  /-- `GetWorkers` is called. -/
  | call
  /-- A call locks the next worker, and makes its entry. -/
  | read (k : ℕ) (uptime : String) (now : Time)
  /-- A call visits the heartbeats and returns. -/
  | range (k : ℕ) (visited : List ((String × Time) × String))

def Observed.read (s : Observed) (k : ℕ) (uptime : String) (now : Time) : Option Observed := do
  match ← s.readers[k]? with
  | .reading statuses =>
    let w ← s.runner.d.workers[statuses.length]?
    return { s with readers := s.readers.set k (.reading (statuses ++ [entryOf w uptime now])) }
  | .returned => none

def Observed.range (s : Observed) (k : ℕ) (visited : List ((String × Time) × String)) :
    Option (Observed × List Event) := do
  match ← s.readers[k]? with
  | .reading statuses =>
    if statuses.length = s.runner.d.workers.length ∧
        s.runner.d.heartbeats.Visits (visited.map Prod.fst) then
      return ({ s with readers := s.readers.set k .returned },
        [.listed k (statuses ++ heartbeatEntries visited)])
    else none
  | .returned => none

/-- **The dispatcher with those who call `GetWorkers`.** -/
def observer : Automaton Observed Label Event where
  step s
    | .runner l => (runner.step s.runner l).map fun x =>
      ({ s with runner := x.1 }, x.2.map Event.runner)
    | .call => some ({ s with readers := s.readers ++ [.reading []] }, [])
    | .read k uptime now => (s.read k uptime now).map fun s => (s, [])
    | .range k visited => s.range k visited

/-- A new dispatcher with `n` workers, started. -/
def start (n : ℕ) : Observed := ⟨Runner.start n, []⟩

/-! ### What a step can do -/

section
variable {s : Observed} {k : ℕ} {statuses : List WorkerStatus}

theorem step_read {w : Worker} (hk : s.readers[k]? = some (.reading statuses))
    (hw : s.runner.d.workers[statuses.length]? = some w) (uptime : String) (now : Time) :
    observer.step s (.read k uptime now) = some
      ({ s with readers := s.readers.set k (.reading (statuses ++ [entryOf w uptime now])) }, []) := by
  show (s.read k uptime now).map _ = _
  unfold Observed.read
  rw [hk]
  show Option.map _ ((s.runner.d.workers[statuses.length]?).bind _) = _
  rw [hw]
  rfl

theorem step_range {visited : List ((String × Time) × String)}
    (hk : s.readers[k]? = some (.reading statuses))
    (hlen : statuses.length = s.runner.d.workers.length)
    (hv : s.runner.d.heartbeats.Visits (visited.map Prod.fst)) :
    observer.step s (.range k visited) = some ({ s with readers := s.readers.set k .returned },
      [.listed k (statuses ++ heartbeatEntries visited)]) := by
  show s.range k visited = _
  unfold Observed.range
  rw [hk]
  exact if_pos ⟨hlen, hv⟩

end

/-- **Every step** is one of the dispatcher, or a call goes on. -/
theorem step_cases {s s' : Observed} {l : Label} {new : List Event}
    (h : observer.step s l = some (s', new)) :
    (∃ l' es, runner.step s.runner l' = some (s'.runner, es) ∧ s'.readers = s.readers ∧
        new = es.map Event.runner ∧ l = .runner l') ∨
      (l = .call ∧ s' = { s with readers := s.readers ++ [.reading []] } ∧ new = []) ∨
      (∃ k uptime now statuses w, l = .read k uptime now ∧ s.readers[k]? = some (.reading statuses) ∧
        s.runner.d.workers[statuses.length]? = some w ∧ new = [] ∧
        s' = { s with readers := s.readers.set k (.reading (statuses ++ [entryOf w uptime now])) }) ∨
      ∃ k visited statuses, l = .range k visited ∧ s.readers[k]? = some (.reading statuses) ∧
        statuses.length = s.runner.d.workers.length ∧
        s.runner.d.heartbeats.Visits (visited.map Prod.fst) ∧
        s' = { s with readers := s.readers.set k .returned } ∧
        new = [.listed k (statuses ++ heartbeatEntries visited)] := by
  cases l with
  | runner l =>
    obtain ⟨⟨r, es⟩, hr, h⟩ := Option.map_eq_some_iff.mp h
    cases h
    exact Or.inl ⟨l, es, hr, rfl, rfl, rfl⟩
  | call =>
    cases h
    exact Or.inr (Or.inl ⟨rfl, rfl, rfl⟩)
  | read k uptime now =>
    obtain ⟨s₁, h₁, h⟩ := Option.map_eq_some_iff.mp h
    cases h
    obtain ⟨r, hk, h₁⟩ := Option.bind_eq_some_iff.mp h₁
    cases r with
    | reading statuses =>
      obtain ⟨w, hw, h₁⟩ := Option.bind_eq_some_iff.mp h₁
      cases h₁
      exact Or.inr (Or.inr (Or.inl ⟨k, uptime, now, statuses, w, rfl, hk, hw, rfl, rfl⟩))
    | returned => cases h₁
  | range k visited =>
    obtain ⟨r, hk, h⟩ := Option.bind_eq_some_iff.mp h
    cases r with
    | reading statuses =>
      dsimp only at h
      split at h
      · next hdone =>
        cases h
        exact Or.inr (Or.inr (Or.inr ⟨k, visited, statuses, rfl, hk, hdone.1, hdone.2, rfl, rfl⟩))
      · cases h
    | returned => cases h

/-- The dispatcher runs as it does without observers. -/
def ofRunner : Event → Option Runner.Event
  | .runner e => some e
  | .listed _ _ => none

theorem filterMap_ofRunner (es : List Runner.Event) :
    (es.map Event.runner).filterMap ofRunner = es := by
  rw [List.filterMap_map]
  exact List.filterMap_some

theorem runner_part : Part observer runner Observed.runner ofRunner where
  step s l s' new h := by
    rcases step_cases h with ⟨l', es, hs, -, rfl, -⟩ | ⟨-, rfl, rfl⟩ |
      ⟨k, uptime, now, statuses, w, -, -, -, rfl, rfl⟩ | ⟨k, visited, statuses, -, -, -, -, rfl, rfl⟩
    · exact Or.inr ⟨l', by rw [filterMap_ofRunner]; exact hs⟩
    · exact Or.inl ⟨rfl, rfl⟩
    · exact Or.inl ⟨rfl, rfl⟩
    · exact Or.inl ⟨rfl, rfl⟩

section
variable {n : ℕ} {es : List Event} {s s' : Observed}

theorem counted_runner (h : Reaches observer (start n) es s) : Counted n s.runner :=
  counted (runner_part.reaches h)

/-! ### Coherence -/

/-- No job or one, `running` with one and `idle` without. -/
def Coherent (runningJobs : ℤ) (status : String) : Prop :=
  (runningJobs = 0 ∨ runningJobs = 1) ∧ status = if runningJobs = 1 then "running" else "idle"

/-- An entry that worker `i` may show. -/
structure EntryAt (i : ℕ) (e : WorkerStatus) : Prop where
  id : e.ID = workerID i
  coherent : Coherent e.RunningJobs e.Status
  nonneg : 0 ≤ e.Load
  le_one : e.Load ≤ 1

theorem coherent_of_shows {i : ℕ} {l : Loop} {w : Worker} (h : Shows i l w) :
    Coherent w.RunningJobs w.Status := by
  unfold Coherent
  rw [h.jobs, h.status]
  cases counting l <;> decide

theorem entryAt {i : ℕ} {l : Loop} {w : Worker} (h : Shows i l w) (uptime : String) (now : Time) :
    EntryAt i (entryOf w uptime now) where
  id := h.id
  coherent := coherent_of_shows h
  nonneg := by
    unfold entryOf
    rw [h.maxJobs, h.jobs]
    cases counting l <;> norm_num
  le_one := by
    unfold entryOf
    rw [h.maxJobs, h.jobs]
    cases counting l <;> norm_num

/-- The entries made so far, and the lists returned, show coherent workers. -/
structure Watched (n : ℕ) (es : List Event) (s : Observed) : Prop where
  reading : ∀ (k : ℕ) statuses, s.readers[k]? = some (.reading statuses) →
    ∀ (i : ℕ) e, statuses[i]? = some e → EntryAt i e
  listed : ∀ k statuses, .listed k statuses ∈ es →
    ∀ i < n, ∃ e, statuses[i]? = some e ∧ EntryAt i e

/-- The entry that is made next. -/
theorem entryAt_next (hc : Counted n s.runner) {i : ℕ} {w : Worker}
    (hw : s.runner.d.workers[i]? = some w) (uptime : String) (now : Time) :
    EntryAt i (entryOf w uptime now) := by
  have hlt : i < s.runner.loops.length := by
    rw [hc.loops, ← hc.workers]
    exact (List.getElem?_eq_some_iff.mp hw).1
  exact entryAt (hc.shows i _ w (List.getElem?_eq_getElem hlt) hw) uptime now

theorem watched (h : Reaches observer (start n) es s) : Watched n es s := by
  refine h.keeps (I := Watched n) ⟨fun _ _ h => (by cases h), fun _ _ h => (by cases h)⟩ ?_
  intro es s l s' new hr hI hs
  have hc := counted_runner hr
  rcases step_cases hs with ⟨l', es', -, hreaders, rfl, -⟩ | ⟨-, rfl, rfl⟩ |
    ⟨k, uptime, now, statuses, w, -, hk, hw, rfl, rfl⟩ |
    ⟨k, visited, statuses, -, hk, hlen, -, rfl, rfl⟩
  · refine ⟨by rw [hreaders]; exact hI.reading, fun k st hst => ?_⟩
    rcases List.mem_append.mp hst with hst | hst
    · exact hI.listed k st hst
    · simp at hst
  · rw [List.append_nil]
    refine ⟨fun j st hj => ?_, hI.listed⟩
    rcases getElem?_concat_cases hj with hj | ⟨-, hj⟩
    · exact hI.reading j st hj
    · cases hj
      exact fun i e he => by cases he
  · rw [List.append_nil]
    refine ⟨fun j st hj => ?_, hI.listed⟩
    rcases getElem?_set_cases hj with ⟨-, hj⟩ | ⟨-, hj⟩
    · exact hI.reading j st hj
    · cases hj
      intro i e he
      rcases getElem?_concat_cases he with he | ⟨rfl, rfl⟩
      · exact hI.reading k statuses hk i e he
      · exact entryAt_next hc hw uptime now
  · refine ⟨fun j st hj => ?_, fun j st hst i hi => ?_⟩
    · rcases getElem?_set_cases hj with ⟨-, hj⟩ | ⟨-, hj⟩
      · exact hI.reading j st hj
      · cases hj
    · rcases List.mem_append.mp hst with hst | hst
      · exact hI.listed j st hst i hi
      · cases List.mem_singleton.mp hst
        rw [← hc.workers, ← hlen] at hi
        refine ⟨statuses[i], ?_, hI.reading k statuses hk i _ (List.getElem?_eq_getElem hi)⟩
        rw [List.getElem?_append_left hi, List.getElem?_eq_getElem hi]

/-- **The state of the workers is coherent**, in the dispatcher and in every list that `GetWorkers`
returns, and no more jobs are inside `executeJob` than the workers count. -/
theorem workers_coherent (h : Reaches observer (start n) es s) :
    (∀ w ∈ s.runner.d.workers, Coherent w.RunningJobs w.Status) ∧
      (∀ k statuses, .listed k statuses ∈ es → ∀ i < n, ∃ e, statuses[i]? = some e ∧
        e.ID = workerID i ∧ Coherent e.RunningJobs e.Status ∧ 0 ≤ e.Load ∧ e.Load ≤ 1) ∧
      ((inside s.runner).length : ℤ) ≤ (s.runner.d.workers.map Worker.RunningJobs).sum := by
  have hc := counted_runner h
  refine ⟨fun w hw => ?_, fun k statuses hst i hi => ?_, hc.inside_le⟩
  · obtain ⟨i, hi, rfl⟩ := List.getElem_of_mem hw
    have hlt : i < s.runner.loops.length := by rw [hc.loops, ← hc.workers]; exact hi
    exact coherent_of_shows
      (hc.shows i _ _ (List.getElem?_eq_getElem hlt) (List.getElem?_eq_getElem hi))
  · obtain ⟨e, he, hat⟩ := (watched h).listed k statuses hst i hi
    exact ⟨e, he, hat.id, hat.coherent, hat.nonneg, hat.le_one⟩

end

/-- What a list shows that is made while a job is executed. -/
def busyHistory : List Event :=
  [.runner (.sent 0), .runner (.received 0 0), .runner (.execute 0 0),
    .listed 0 [entryOf ⟨"worker-1", 1, 5, "running"⟩ "1s" 1]]

theorem workers_coherent_busy : ∃ s, Reaches observer (start 1) busyHistory s ∧
    ∃ e, .listed 0 [e] ∈ busyHistory ∧ e.RunningJobs = 1 ∧ Coherent e.RunningJobs e.Status ∧
      e.Load ≤ 1 := by
  have hrun : observer.run (start 1)
      [.runner (.submit (request "job-1") 0 0), .runner (.send 0), .runner (.loop 0 .jobQueue),
        .runner (.loop 0 .next), .call, .read 0 "1s" 1, .range 0 []] = some (_, busyHistory) := rfl
  have h := reaches_of_run hrun
  have hlisted : .listed 0 [entryOf ⟨"worker-1", 1, 5, "running"⟩ "1s" 1] ∈ busyHistory := by
    simp [busyHistory]
  obtain ⟨e, he, -, hcoherent, -, hload⟩ := (workers_coherent h).2.1 0 _ hlisted 0 (by decide)
  obtain rfl := Option.some.inj he
  exact ⟨_, h, _, hlisted, rfl, hcoherent, hload⟩

/-! ### A call after a result -/

/-- No job is on its way to a worker or executed. -/
def Quiet (s : State) : Prop := s.submitting = [] ∧ s.d.jobQueue.buf = [] ∧ executing s = []

/-- The worker that call `k` reads next has sent its result, and not taken its job off the count. -/
def ReadsSent (k : ℕ) (s : Observed) : Prop :=
  ∃ statuses job, s.readers[k]? = some (.reading statuses) ∧
    s.runner.loops[statuses.length]? = some (.sent job)

/-- **A call after a result**: a result has been received from its channel, `GetWorkers` is called,
and while it runs (`tr`) there is no other job; it returns `statuses`. -/
structure CallAfterResult (n : ℕ) (s : Observed) (tr : List (Observed × Label))
    (statuses : List WorkerStatus) : Prop where
  received : ∃ es chan r, Reaches observer (start n) es s ∧ .runner (.delivered chan r) ∈ es
  called : ∃ s₁ s₂ s₃ visited, observer.step s .call = some (s₁, []) ∧ Steps observer s₁ tr s₂ ∧
    observer.step s₂ (.range s.readers.length visited) =
      some (s₃, [.listed s.readers.length statuses])
  quiet : ∀ x ∈ tr, Quiet x.1.runner

/-- The entry of a worker that is free. -/
def Free (e : WorkerStatus) : Prop := e.RunningJobs = 0 ∧ e.Status = "idle"

/-- **Where no job is about, a worker is free unless its loop has its second locked block left.** -/
theorem free_entryOf_iff {n i : ℕ} {s : State} {w : Worker} (hc : Counted n s) (hq : Quiet s)
    (hw : s.d.workers[i]? = some w) (uptime : String) (now : Time) :
    Free (entryOf w uptime now) ↔ ¬ ∃ job, s.loops[i]? = some (.sent job) := by
  have hlt : i < s.loops.length := by
    rw [hc.loops, ← hc.workers]
    exact (List.getElem?_eq_some_iff.mp hw).1
  have hl : s.loops[i]? = some s.loops[i] := List.getElem?_eq_getElem hlt
  have hshows := hc.shows i _ w hl hw
  generalize s.loops[i] = l at hl hshows
  have hjob : jobOf l = none := by
    have hnil : s.loops.filterMap jobOf = [] := hq.2.2
    exact List.filterMap_eq_nil_iff.mp hnil l (List.mem_of_getElem? hl)
  unfold Free entryOf
  rw [hl, hshows.jobs, hshows.status]
  cases l <;> simp_all [counting, jobOf]

/-- None of the reads of call `k` came too early. -/
def NoEarlyRead (k : ℕ) (tr : List (Observed × Label)) : Prop :=
  ∀ x ∈ tr, ∀ uptime now, x.2 = .read k uptime now → ¬ ReadsSent k x.1

/-- The entries that call `k` has made are all free just then; or it has returned. -/
def Judged (k : ℕ) (tr : List (Observed × Label)) (s : Observed) : Prop :=
  s.readers[k]? = some .returned ∨ ∃ statuses, s.readers[k]? = some (.reading statuses) ∧
    ((∀ e ∈ statuses, Free e) ↔ NoEarlyRead k tr)

section
variable {n k : ℕ} {es : List Event} {s s₁ s₂ : Observed} {tr : List (Observed × Label)}

theorem noEarlyRead_concat {l : Label} : NoEarlyRead k (tr ++ [(s, l)]) ↔
    NoEarlyRead k tr ∧ ∀ uptime now, l = .read k uptime now → ¬ ReadsSent k s := by
  unfold NoEarlyRead
  rw [List.forall_mem_append, List.forall_mem_singleton]

/-- Another step leaves the entries of the call alone. -/
theorem Judged.other {s' : Observed} {l : Label} (h : Judged k tr s)
    (hreaders : s'.readers[k]? = s.readers[k]?) (hl : ∀ uptime now, l ≠ .read k uptime now) :
    Judged k (tr ++ [(s, l)]) s' := by
  unfold Judged
  rw [hreaders]
  refine h.imp_right ?_
  rintro ⟨statuses, hst, hiff⟩
  refine ⟨statuses, hst, hiff.trans ?_⟩
  rw [noEarlyRead_concat]
  exact ⟨fun htr => ⟨htr, fun uptime now hread => absurd hread (hl uptime now)⟩, fun h => h.1⟩

/-- A read adds an entry. -/
theorem Judged.read {statuses : List WorkerStatus} {w : Worker} (h : Judged k tr s)
    (hc : Counted n s.runner) (hq : Quiet s.runner)
    (hk : s.readers[k]? = some (.reading statuses))
    (hw : s.runner.d.workers[statuses.length]? = some w) (uptime : String) (now : Time) :
    Judged k (tr ++ [(s, .read k uptime now)])
      { s with readers := s.readers.set k (.reading (statuses ++ [entryOf w uptime now])) } := by
  have hlt := (List.getElem?_eq_some_iff.mp hk).1
  refine Or.inr ⟨_, List.getElem?_set_self hlt, ?_⟩
  rcases h with hst | ⟨statuses', hst, hiff⟩
  · rw [hk] at hst
    cases hst
  · rw [hk] at hst
    cases hst
    rw [List.forall_mem_append, List.forall_mem_singleton, noEarlyRead_concat, hiff,
      free_entryOf_iff hc hq hw]
    refine and_congr_right fun _ => ?_
    constructor
    · rintro hnot uptime' now' - ⟨st, job, hst, hsent⟩
      rw [hk] at hst
      cases hst
      exact hnot ⟨job, hsent⟩
    · rintro hnot ⟨job, hsent⟩
      exact hnot uptime now rfl ⟨statuses, job, hk, hsent⟩

/-- **The entries that a call has made** are all free exactly when none of its reads came too
early. -/
theorem entries_free (h : Reaches observer (start n) es s₁)
    (hk : s₁.readers[k]? = some (.reading [])) (htr : Steps observer s₁ tr s₂)
    (hq : ∀ x ∈ tr, Quiet x.1.runner) : Judged k tr s₂ := by
  refine htr.keeps (I := fun tr s => (∀ x ∈ tr, Quiet x.1.runner) → Judged k tr s) ?_ ?_ hq
  · exact fun _ => Or.inr ⟨[], hk, by simp [NoEarlyRead]⟩
  intro tr s l s' new htr hI hs hq
  rw [List.forall_mem_append, List.forall_mem_singleton] at hq
  have hI := hI hq.1
  obtain ⟨es', hes⟩ := htr.reaches
  have hc := counted_runner (h.trans hes)
  rcases step_cases hs with ⟨l', es', -, hreaders, -, rfl⟩ | ⟨rfl, rfl, -⟩ |
    ⟨j, uptime, now, statuses, w, rfl, hj, hw, -, rfl⟩ |
    ⟨j, visited, statuses, rfl, hj, -, -, rfl, -⟩
  · exact hI.other (by rw [hreaders]) (by simp)
  · have hlt : k < s.readers.length := by
      rcases hI with hst | ⟨_, hst, -⟩
      all_goals exact (List.getElem?_eq_some_iff.mp hst).1
    exact hI.other (List.getElem?_append_left hlt) (by simp)
  · by_cases hjk : j = k
    · subst hjk
      exact hI.read hc hq.2 hj hw uptime now
    · refine hI.other (List.getElem?_set_ne hjk) fun uptime' now' h => hjk ?_
      cases h
      rfl
  · by_cases hjk : j = k
    · subst hjk
      exact Or.inl (List.getElem?_set_self (List.getElem?_eq_some_iff.mp hj).1)
    · exact hI.other (List.getElem?_set_ne hjk) (by simp)

/-- **After a result every worker is free**, as `GetWorkers` tells it, exactly when it reads no
worker whose result is sent and whose job is still counted. -/
theorem free_iff {statuses : List WorkerStatus} (h : CallAfterResult n s tr statuses) :
    (∀ i < n, ∃ e, statuses[i]? = some e ∧ e.RunningJobs = 0 ∧ e.Status = "idle") ↔
      ∀ x ∈ tr, ∀ uptime now, x.2 = .read s.readers.length uptime now →
        ¬ ReadsSent s.readers.length x.1 := by
  obtain ⟨es, chan, r, hes, -⟩ := h.received
  obtain ⟨s₁, s₂, s₃, visited, hcall, htr, hret⟩ := h.called
  have h₁ := hes.step hcall
  have hk : s₁.readers[s.readers.length]? = some (.reading []) := by
    cases hcall
    exact List.getElem?_concat_length
  obtain ⟨es', hes'⟩ := htr.reaches
  have hc := counted_runner (h₁.trans hes')
  rcases step_cases hret with ⟨_, _, -, -, -, hl⟩ | ⟨hl, -, -⟩ | ⟨_, _, _, _, _, hl, -⟩ |
    ⟨k, visited', made, hl, hmade, hlen, -, -, hnew⟩
  · cases hl
  · cases hl
  · cases hl
  cases hl
  obtain rfl : statuses = made ++ heartbeatEntries visited := by
    simpa using hnew
  rcases entries_free h₁ hk htr h.quiet with hst | ⟨made', hst, hiff⟩
  · rw [hmade] at hst
    cases hst
  · rw [hmade] at hst
    cases hst
    refine Iff.trans ?_ hiff
    rw [← hc.workers, ← hlen]
    constructor
    · intro hall e he
      obtain ⟨i, hi, rfl⟩ := List.getElem_of_mem he
      obtain ⟨e, he, hfree⟩ := hall i hi
      rw [List.getElem?_append_left hi, List.getElem?_eq_getElem hi] at he
      obtain rfl := Option.some.inj he
      exact hfree
    · intro hall i hi
      refine ⟨made[i], ?_, hall _ (List.getElem_mem hi)⟩
      rw [List.getElem?_append_left hi, List.getElem?_eq_getElem hi]

end

/-- A call that reads one worker. -/
theorem callAfterResult_of_run {n chan : ℕ} {r : ExecutionResult} {ls : List Label}
    {es : List Event} {s s₁ s₂ s₃ : Observed} {statuses : List WorkerStatus} (uptime : String)
    (now : Time) (hrun : observer.run (start n) ls = some (s, es))
    (hr : .runner (.delivered chan r) ∈ es) (hcall : observer.step s .call = some (s₁, []))
    (hread : observer.step s₁ (.read s.readers.length uptime now) = some (s₂, []))
    (hret : observer.step s₂ (.range s.readers.length []) =
      some (s₃, [.listed s.readers.length statuses])) (hq : Quiet s₁.runner) :
    CallAfterResult n s [(s₁, .read s.readers.length uptime now)] statuses where
  received := ⟨es, chan, r, reaches_of_run hrun, hr⟩
  called := ⟨s₁, s₂, s₃, [], hcall, Steps.refl.step hread, hret⟩
  quiet := by
    rw [List.forall_mem_singleton]
    exact hq

/-- A job is executed, its result sent and received; its worker has not counted it off yet. -/
def answered : List Label :=
  .runner (.submit (request "job-1") 0 0) :: .runner (.send 0) ::
    (execution 0 "1\n").map .runner ++ [.runner (.receive 0)]

/-- Once the worker has counted it off, it is free. -/
theorem free_iff_finished : ∃ s tr e, CallAfterResult 1 s tr [e] ∧ e.RunningJobs = 0 ∧
    e.Status = "idle" := by
  have hrun : observer.run (start 1) (answered ++ [.runner (.loop 0 .next)]) = some (_, _) := rfl
  have h := callAfterResult_of_run "1s" 1 hrun (List.mem_of_getElem? (i := 5) rfl) rfl rfl rfl
    ⟨rfl, rfl, rfl⟩
  obtain ⟨e, he, hfree⟩ := (free_iff h).mpr (by
    rintro x hx uptime now - ⟨statuses, job, hst, hsent⟩
    cases List.mem_singleton.mp hx
    cases hst
    cases hsent) 0 (by decide)
  obtain rfl := Option.some.inj he
  exact ⟨_, _, _, h, hfree⟩

/-- **The result is there, and the worker still runs a job**. -/
theorem not_free_after_result : ¬ ∀ n s tr statuses, CallAfterResult n s tr statuses →
    ∀ i < n, ∃ e, statuses[i]? = some e ∧ e.RunningJobs = 0 ∧ e.Status = "idle" := by
  intro hall
  have hrun : observer.run (start 1) answered = some (_, _) := rfl
  have h := callAfterResult_of_run "1s" 1 hrun (List.mem_of_getElem? (i := 5) rfl) rfl rfl rfl
    ⟨rfl, rfl, rfl⟩
  obtain ⟨e, he, hjobs, -⟩ := hall _ _ _ _ h 0 (by decide)
  obtain rfl := Option.some.inj he
  exact absurd hjobs (by decide)

end CodeHive.Orchestrator.Snapshots
