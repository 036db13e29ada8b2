import CodeHive.Api.Runs

/-! # Who executes a job

A submission enqueues its job and starts `executeJob` for it, and a poll hands out what it takes off
the queue. No job is handed out twice (`handed_out_once`), but every job that is handed out is
executed inline as well (`exists_started_inline`, `exists_handed_out`): the two ways of dispatching a
job know nothing of each other. So a job has at most one executor (`AtMostOneExecutor`) where every
poll finds the queue empty, and in no other run for ever (`at_most_one_executor`). -/

namespace CodeHive.Api.Dispatch

set_option autoImplicit false

open CodeHive.Js.Value CodeHive.Api.Types CodeHive.Api.Stores CodeHive.Api.Messages
open CodeHive.Api.Program CodeHive.Api.Queue CodeHive.Api.System CodeHive.Api.History
open CodeHive.Api.Invariant CodeHive.Api.Logic CodeHive.Api.Handlers CodeHive.Api.Runs
open CodeHive.Concurrency.Calls CodeHive.Concurrency.Pool CodeHive.Concurrency.RelyGuarantee

section
variable {b : Backend} (c : Config (apiSystem b))

/-- `executeJob` has been called for job `i`. -/
def StartedInline (i : String) : Prop :=
  ∃ (t : ℕ) (a : Actor) (p : Thread), c.pool[t]? = some (a, p) ∧ a.tag = .inline i

/-- Call `t` is a poll that was answered 200 with job `i`. -/
def HandedOut (t : ℕ) (i : String) : Prop :=
  ∃ (a : Actor) (worker : String) (job : Job), a.tag = .request (.jobsNext worker) ∧
    c.pool[t]? = some (a, .done (.reply ⟨200, .job job⟩)) ∧ job.id = i

/-- No job is executed inline and handed out, and none is handed out to two polls. -/
structure AtMostOneExecutor : Prop where
  notBoth : ∀ i t, StartedInline c i → ¬ HandedOut c t i
  onlyOnce : ∀ i t t', HandedOut c t i → HandedOut c t' i → t = t'

end

/-- An id is taken off the queue only where there is none. -/
def FindsEmpty (b : Backend) (_ : Actor) (w : World) (o : Op) : Prop :=
  o = dequeueOp b → pending b w.state = []

section
variable {b : Backend} {c c' : Config (apiSystem b)}

/-- What is handed out was taken off the queue. -/
theorem HandedOut.pop (hc : Reachable b c) {t : ℕ} {i : String} (h : HandedOut c t i) :
    ∃ a : Actor, a.tid = t ∧ (a, i) ∈ pops c.world.log := by
  obtain ⟨a, worker, job, ha, ht, rfl⟩ := h
  have hp := hc.achieved ht
  simp only [Achieved, ha] at hp
  rcases hp with ⟨hr, -⟩ | ⟨job', hr, hown⟩
  · exact absurd hr (by simp)
  · obtain rfl : job = job' := by simpa using hr
    have hmem : job.id ∈ ownPops c.world.log a.tid := by rw [hown]; exact List.mem_cons_self
    obtain ⟨d, hd, hpop⟩ := mem_ownPops.mp hmem
    exact ⟨d, hd.trans (hc.ok.wf.tid t a _ ht), hpop⟩

/-- **No job is handed out twice.** -/
theorem handed_out_once (hc : Reachable b c) {i : String} {t t' : ℕ} (h : HandedOut c t i)
    (h' : HandedOut c t' i) : t = t' := by
  obtain ⟨a, rfl, ha⟩ := h.pop hc
  obtain ⟨a', rfl, ha'⟩ := h'.pop hc
  exact congrArg (fun x => x.1.tid) (hc.inv.pop_unique ha ha' rfl)

/-- Where every poll finds the queue empty, nothing is taken off it. -/
theorem pops_nil (hc : Reaches (Allowed (FindsEmpty b)) (start b) c) : pops c.world.log = [] := by
  refine (start_ok b).keeps (g := FindsEmpty b)
    (entries b) (fun _ _ _ _ => trivial) (J := fun w => pops w.log = []) rfl (fun w a hJ => ?_)
    (fun a w o i r w' hi hg hempty hJ hf => ?_) hc
  · simpa [World.start, popOf] using hJ
  · obtain ⟨s, hs, rfl⟩ := World.fire_eq_some.mp hf
    have hready : Ready (terms b) a w o := hg.1
    simp only [pops_concat, hJ, List.nil_append]
    suffices h : popOf (.ran a o r) = none by rw [h]; rfl
    unfold popOf
    split
    · next he =>
      cases he
      obtain rfl : b = .memory := hready
      have ho : w.state.mem.order = [] := hempty rfl
      have hd := congrArg (Option.map Prod.fst) hs
      change some w.state.mem.dequeue.1 = _ at hd
      simp [MemoryQueue.dequeue, ho] at hd
    · next he =>
      cases he
      obtain ⟨rfl, rfl⟩ : b = .redis ∧ _ = QUEUE_KEY := hready
      have ho : w.state.redis.lists QUEUE_KEY = [] := List.reverse_eq_nil_iff.mp (hempty rfl)
      have hd := congrArg (Option.map Prod.fst) hs
      change some (w.state.redis.exec (.rpop QUEUE_KEY)).1 = _ at hd
      simp [Redis.exec, ho] at hd
    · rfl

/-- What has been handed out stays handed out. -/
theorem HandedOut.mono (h : Reaches (AnyStep (apiSystem b)) c c') {t : ℕ} {i : String}
    (ho : HandedOut c t i) : HandedOut c' t i := by
  obtain ⟨a, worker, job, ha, ht, hi⟩ := ho
  exact ⟨a, worker, job, ha, h.extends.settled t a _ ht, hi⟩

/-- A poll that has taken a job off the queue will hand it out. -/
theorem exists_handed_out (hc : Reachable b c) {x : Actor × String} (hx : x ∈ pops c.world.log) :
    ∃ c', Reaches (AnyStep (apiSystem b)) c c' ∧ HandedOut c' x.1.tid x.2 := by
  obtain ⟨p, hp⟩ := hc.of_pop hx
  obtain ⟨worker, ha⟩ := hc.owners.2 x hx
  obtain ⟨c', out, hr, -, hdone⟩ := hc.finish hp
  have hc' : Reachable b c' := hc.trans hr
  have hown : x.2 ∈ ownPops c'.world.log x.1.tid :=
    mem_ownPops.mpr ⟨x.1, rfl, (hr.extends.log.filterMap _).subset hx⟩
  obtain ⟨reply, rfl⟩ := hc'.replied ha hdone
  have h := hc'.achieved hdone
  simp only [Achieved, ha] at h
  rcases h with ⟨-, hnil⟩ | ⟨job, rfl, hone⟩
  · rw [hnil] at hown; cases hown
  · rw [hone, List.mem_singleton] at hown
    exact ⟨c', hr, x.1, worker, job, ha, hdone, hown.symm⟩

/-- A submission that has enqueued a job will start it inline. -/
theorem exists_started_inline (hc : Reachable b c) {x : Actor × Job}
    (hx : x ∈ enqueues c.world.log) :
    ∃ c', Reaches (AnyStep (apiSystem b)) c c' ∧ StartedInline c' x.2.id := by
  obtain ⟨p, hp⟩ := hc.of_enqueue hx
  obtain ⟨body, ha⟩ := hc.owners.1 x hx
  obtain ⟨c', out, hr, -, hdone⟩ := hc.finish hp
  have hc' : Reachable b c' := hc.trans hr
  have hown : x.2 ∈ ownEnqueues c'.world.log x.1.tid :=
    mem_ownEnqueues.mpr ⟨x.1, rfl, (hr.extends.log.filterMap _).subset hx⟩
  obtain ⟨reply, rfl⟩ := hc'.replied ha hdone
  have h := hc'.achieved hdone
  simp only [Achieved, ha] at h
  rcases h with ⟨job, language, -, hone, d, hd, htag⟩ | ⟨-, hnil⟩
  · rw [hone, List.mem_singleton] at hown
    obtain ⟨q, hq⟩ := hc'.ok.wf.log _ hd
    exact ⟨c', hr, d.tid, d, q, hq, by rw [hown]; exact htag⟩
  · rw [hnil] at hown; cases hown

/-- **At most one executor, as far as it goes.** A job has at most one executor in every run in
which every poll finds the queue empty; and a run in which an id has been taken off the queue goes
on to one in which a job has two. One of them is executed inline: no run hands a job out to two
polls. -/
theorem at_most_one_executor (b : Backend) :
    (∀ c : Config (apiSystem b), Reaches (Allowed (FindsEmpty b)) (start b) c →
      AtMostOneExecutor c) ∧
    (∀ c : Config (apiSystem b), Reachable b c → pops c.world.log ≠ [] →
      ∃ c', Reaches (AnyStep (apiSystem b)) c c' ∧ ¬ AtMostOneExecutor c') ∧
    ∀ c : Config (apiSystem b), Reachable b c →
      ∀ i t t', HandedOut c t i → HandedOut c t' i → t = t' := by
  refine ⟨?_, ?_, fun c hc i t t' => handed_out_once hc⟩
  · intro c hc
    have hany : Reachable b c := hc.any
    refine ⟨fun i t _ ht => ?_, fun i t t' => handed_out_once hany⟩
    obtain ⟨a, -, ha⟩ := ht.pop hany
    rw [pops_nil hc] at ha
    cases ha
  · intro c hc hne
    obtain ⟨x, hx⟩ := List.exists_mem_of_ne_nil _ hne
    obtain ⟨c₁, hr₁, hout⟩ := exists_handed_out hc hx
    have hc₁ : Reachable b c₁ := hc.trans hr₁
    have hx₁ : x.2 ∈ ids c₁.world.log := by
      rw [← hc₁.inv.fifo]
      exact List.mem_append_left _
        (List.mem_map.mpr ⟨x, (hr₁.extends.log.filterMap _).subset hx, rfl⟩)
    obtain ⟨y, hy, hyx⟩ := mem_ids.mp hx₁
    obtain ⟨c₂, hr₂, hin⟩ := exists_started_inline hc₁ hy
    exact ⟨c₂, hr₁.trans hr₂, fun h => h.notBoth x.2 x.1.tid (hyx ▸ hin) (hout.mono hr₂)⟩

end

/-! ### Two runs -/

/-- A poll that finds the queue empty. -/
def idlePoll (t : ℕ) : List (Label Task Input) :=
  .arrive (.request (.jobsNext "w")) :: turn t 2 {} ++ turn t 1 {}

/-- The test for `FindsEmpty` in memory. -/
def findsEmpty (_ : Actor) (w : World) : Op → Bool
  | .mem .dequeue => w.state.mem.order.isEmpty
  | _ => true

theorem findsEmpty_of_test (a : Actor) (w : World) (o : Op) (h : findsEmpty a w o = true) :
    FindsEmpty .memory a w o := by
  rintro rfl
  exact List.isEmpty_iff.mp h

/-- A poll that comes too early leaves the job to `executeJob`; one that comes later does not. -/
theorem at_most_one_executor_run : ∃ c, (start .memory).run (idlePoll 0 ++ submission 1) = some c ∧
    StartedInline c "job" ∧ AtMostOneExecutor c ∧
    ∃ c₁ c₂, c.run (poll 3) = some c₁ ∧ Reaches (AnyStep (apiSystem .memory)) c₁ c₂ ∧
      ¬ AtMostOneExecutor c₂ := by
  obtain ⟨c, hif⟩ : ∃ c, (start .memory).runIf findsEmpty (idlePoll 0 ++ submission 1) = some c :=
    Option.isSome_iff_exists.mp rfl
  have hc : (start .memory).run (idlePoll 0 ++ submission 1) = some c := run_of_runIf hif
  have hin : (((start .memory).run (idlePoll 0 ++ submission 1)).bind fun c => c.pool[2]?).map
      (fun x => x.1.tag) = some (.inline "job") := rfl
  have hpoll : (((start .memory).run (idlePoll 0 ++ submission 1)).bind fun c =>
      c.run (poll 3)).map (fun c => (pops c.world.log).map (·.2)) = some ["job"] := rfl
  rw [hc, Option.bind_some, Option.map_eq_some_iff] at hin hpoll
  obtain ⟨⟨a, p⟩, hp, ha⟩ := hin
  obtain ⟨c₁, hc₁, hpop⟩ := hpoll
  refine ⟨c, hc, ⟨2, a, p, hp, ha⟩, ?_, ?_⟩
  · exact (at_most_one_executor .memory).1 c (reaches_of_runIf findsEmpty_of_test hif)
  · obtain ⟨c₂, hr, hnot⟩ := (at_most_one_executor .memory).2.1 c₁
      ((reaches_of_run hc).trans (reaches_of_run hc₁)) (by rintro h; rw [h] at hpop; cases hpop)
    exact ⟨c₁, c₂, hc₁, hr, hnot⟩

/-- Submitted, started inline, and handed out. -/
theorem two_executors : ∃ c, (start .memory).run (submission 0 ++ poll 2) = some c ∧
    ¬ AtMostOneExecutor c := by
  obtain ⟨c, hc⟩ : ∃ c, (start .memory).run (submission 0 ++ poll 2) = some c :=
    Option.isSome_iff_exists.mp rfl
  have hin : ∃ a p, ((start .memory).run (submission 0 ++ poll 2)).bind (fun c => c.pool[1]?) =
      some (a, p) ∧ a.tag = .inline "job" := ⟨_, _, rfl, rfl⟩
  have hout : ∃ a job, ((start .memory).run (submission 0 ++ poll 2)).bind (fun c => c.pool[2]?) =
      some (a, .done (.reply ⟨200, .job job⟩)) ∧ a.tag = .request (.jobsNext "w") ∧
        job.id = "job" := ⟨_, _, rfl, rfl, rfl⟩
  rw [hc] at hin hout
  obtain ⟨a, p, hp, ha⟩ := hin
  obtain ⟨d, job, hq, hd, hj⟩ := hout
  exact ⟨c, hc, fun h => h.notBoth "job" 2 ⟨1, a, p, hp, ha⟩ ⟨d, "w", job, hd, hq, hj⟩⟩

end CodeHive.Api.Dispatch
