import CodeHive.Api.Runs

/-! # The state of a record

The start and the end of an inline execution, the claim of a worker and the result of a worker all
write into the record of a job, and none of them looks at what is there. For each of two properties
of the records (a status only moves forward; status, result and worker fit together) this file says
exactly which writes respect it, and with that in which runs of the API on the in-memory queue it
holds. -/

namespace CodeHive.Api.RecordState

set_option autoImplicit false

open CodeHive.Js.Value CodeHive.Api.Types CodeHive.Api.Stores CodeHive.Api.Messages
open CodeHive.Api.Program CodeHive.Api.Queue CodeHive.Api.Routes CodeHive.Api.System
open CodeHive.Api.History CodeHive.Api.Invariant CodeHive.Api.Logic CodeHive.Api.ListLogic
open CodeHive.Api.Handlers CodeHive.Api.Records CodeHive.Api.Runs
open CodeHive.Concurrency.Calls CodeHive.Concurrency.Pool

/-- A configuration of the API on the in-memory queue. -/
abbrev MemConfig := Config (apiSystem .memory)

/-- The record that a primitive writes into, and the update. -/
def recordWrite : Op → Option (String × PartialJob)
  | .mem (.updateJob i u) => some (i, u)
  | .mem (.assign i u) => some (i, u)
  | _ => none

/-- `g` holds of every update of a record that is there. -/
def OnWrites (g : PartialJob → Job → Prop) (_ : Actor) (w : World) (o : Op) : Prop :=
  ∀ i u, recordWrite o = some (i, u) → ∀ job, lookup .memory w.state i = some job → g u job

/-- The record after the update `u`, apart from its time stamp. -/
structure Rewritten (u : PartialJob) (job job' : Job) : Prop where
  status : job'.status = u.status.getD job.status
  result : job'.result = u.result.getD job.result
  workerId : job'.workerId = u.workerId.getD job.workerId

/-- **What a primitive does to the records**, in memory: it writes an update into one of them, it
adds a new one, or it leaves all of them alone. -/
theorem record_cases {c : MemConfig} (hc : Reachable .memory c) {t : ℕ} {a : Actor} {o : Op}
    {k : o.Answer → Thread} {inp : Input} {r : o.Answer} {w : World}
    (hp : c.pool[t]? = some (a, .op o k)) (hf : c.world.fire a o inp = some (r, w)) :
    (∃ j u, recordWrite o = some (j, u) ∧ Update a j u ∧
      (∀ i, i ≠ j → lookup .memory w.state i = lookup .memory c.world.state i) ∧
      (lookup .memory c.world.state j = none → lookup .memory w.state j = none) ∧
      ∀ job, lookup .memory c.world.state j = some job →
        ∃ job', lookup .memory w.state j = some job' ∧ Rewritten u job job') ∨
    (recordWrite o = none ∧
      ((∀ i, lookup .memory w.state i = lookup .memory c.world.state i) ∨
        ∃ j request now, lookup .memory c.world.state j = none ∧
          lookup .memory w.state j = some (newJob j request now) ∧
          ∀ i, i ≠ j → lookup .memory w.state i = lookup .memory c.world.state i)) := by
  obtain ⟨s, hs, rfl⟩ := World.fire_eq_some.mp hf
  have hl : ∀ i, lookup .memory s i =
      written .memory o (toISOString inp.ms) i (lookup .memory c.world.state i) :=
    lookup_exec hs .memory
  obtain ⟨hready, hpermit⟩ := hc.guar hp
  cases o with
  | host o => exact Or.inr ⟨rfl, Or.inl hl⟩
  | redis o => exact Or.inr ⟨rfl, Or.inl hl⟩
  | mem o =>
    cases o with
    | enqueue job =>
      obtain ⟨-, id, request, now, rfl⟩ := hpermit
      obtain ⟨-, -, hnew, -⟩ := hready
      refine Or.inr ⟨rfl, Or.inr ⟨id, request, now, ?_, ?_, fun i hi => ?_⟩⟩
      · cases hold : lookup .memory c.world.state id with
        | none => rfl
        | some job => exact absurd (hc.inv.known id job hold) hnew
      · rw [hl]; exact if_pos rfl
      · rw [hl]; exact if_neg hi
    | updateJob j u =>
      refine Or.inl ⟨j, u, rfl, hpermit, fun i hi => ?_, fun hn => ?_, fun job hj => ?_⟩
      · rw [hl]; exact if_neg hi
      · rw [hl, hn]; exact if_pos rfl
      · exact ⟨_, by rw [hl, hj]; exact if_pos rfl, rfl, rfl, rfl⟩
    | assign j u =>
      refine Or.inl ⟨j, u, rfl, .exec hpermit, fun i hi => ?_, fun hn => ?_, fun job hj => ?_⟩
      · rw [hl]; exact if_neg hi
      · rw [hl, hn]; exact if_pos rfl
      · exact ⟨_, by rw [hl, hj]; exact if_pos rfl, rfl, rfl, rfl⟩
    | _ => exact Or.inr ⟨rfl, Or.inl hl⟩

/-- **A relation between the records before and after a step.** If records that are left alone are
in it, and new ones, then whether all are in it is a matter of the update that is written. -/
theorem related_iff_onWrites {R : Option Job → Option Job → Prop} {g : PartialJob → Job → Prop}
    {c : MemConfig} (hc : Reachable .memory c) {t : ℕ} {a : Actor} {o : Op} {k : o.Answer → Thread}
    {inp : Input} {r : o.Answer} {w : World} (hp : c.pool[t]? = some (a, .op o k))
    (hf : c.world.fire a o inp = some (r, w))
    (hsame : ∀ i, R (lookup .memory c.world.state i) (lookup .memory c.world.state i))
    (hnew : ∀ j request now, R none (some (newJob j request now)))
    (hwrite : ∀ j u job job', Update a j u → Rewritten u job job' →
      (R (some job) (some job') ↔ g u job)) :
    (∀ i, R (lookup .memory c.world.state i) (lookup .memory w.state i)) ↔
      OnWrites g a c.world o := by
  rcases record_cases hc hp hf with ⟨j, u, ho, hu, hother, hnone, hsome⟩ | ⟨ho, hl⟩
  · constructor
    · rintro h i u' ho' job hjob
      obtain ⟨rfl, rfl⟩ : j = i ∧ u = u' := by simpa [ho] using ho'
      obtain ⟨job', hjob', hrew⟩ := hsome job hjob
      have hR := h j
      rw [hjob, hjob'] at hR
      exact (hwrite j u job job' hu hrew).mp hR
    · intro h i
      by_cases hij : i = j
      · subst hij
        cases hold : lookup .memory c.world.state i with
        | none =>
          have hR := hsame i
          rw [hold] at hR
          rw [hnone hold]
          exact hR
        | some job =>
          obtain ⟨job', hjob', hrew⟩ := hsome job hold
          rw [hjob']
          exact (hwrite i u job job' hu hrew).mpr (h i u ho job hold)
      · rw [hother i hij]
        exact hsame i
  · refine iff_of_true (fun i => ?_) fun i u ho' => by rw [ho] at ho'; cases ho'
    rcases hl with hl | ⟨j, request, now, hnone, hsome, hl⟩
    · rw [hl i]
      exact hsame i
    · by_cases hij : i = j
      · subst hij
        rw [hnone, hsome]
        exact hnew i request now
      · rw [hl i hij]
        exact hsame i

theorem resultStatus_terminal {v : Json} {s : Status} (h : resultStatus v = some s) :
    s.terminal = true := by
  unfold resultStatus at h
  split at h <;> cases h <;> rfl

/-- A result that is accepted is the result of an ended job. -/
theorem resultSchema_terminal {body : Json} {r : ResultBody} (h : resultSchema body = some r) :
    r.status.terminal = true := by
  simp only [resultSchema, Option.bind_eq_bind, Option.bind_eq_some_iff] at h
  obtain ⟨_, _, _, _, _, _, s, ⟨v, _, hs⟩, _, _, _, _, hr⟩ := h
  cases hr
  exact resultStatus_terminal hs

/-- An update says that the job is running, or it gives a result, with the result's status. -/
theorem update_shape {a : Actor} {i : String} {u : PartialJob} (h : Update a i u) :
    (u.status = some .running ∧ u.result = none) ∨
    ∃ r, u.status = some r.status ∧ u.result = some (some r) ∧ r.status.terminal = true ∧
      (u.workerId = none ∨ u.workerId = some none) := by
  cases h with
  | exec h =>
    cases h with
    | start => exact Or.inl ⟨rfl, rfl⟩
    | finish res _ hst =>
      exact Or.inr ⟨res, rfl, rfl, by rcases hst with h | h <;> rw [h] <;> rfl, Or.inl rfl⟩
  | claim => exact Or.inl ⟨rfl, rfl⟩
  | @post _ _ r _ hr =>
    exact Or.inr ⟨r.toResult i, rfl, rfl, resultSchema_terminal hr, Or.inr rfl⟩

/-! ### A status only moves forward -/

/-- Queued, then running, then ended; an ended job keeps its status. -/
def Forward (s s' : Status) : Prop :=
  s = s' ∨ s = .queued ∨ (s = .running ∧ s'.terminal = true)

/-- A record does not disappear, it begins as queued, and its status moves forward. -/
def Advances : Option Job → Option Job → Prop
  | none, none => True
  | none, some job' => job'.status = .queued
  | some job, some job' => Forward job.status job'.status
  | some _, none => False

/-- In this step the status of every job only moves forward. -/
def StatusForward (c : MemConfig) (_ : Label Task Input) (c' : MemConfig) : Prop :=
  ∀ i, Advances (lookup .memory c.world.state i) (lookup .memory c'.world.state i)

/-- A job that has ended is not started or claimed; it is given no result but one with the status
that it has. -/
def KeepsEnd (u : PartialJob) (job : Job) : Prop :=
  job.status.terminal = true → ∃ r, u.result = some (some r) ∧ r.status = job.status

theorem Advances.refl (x : Option Job) : Advances x x := by
  cases x with
  | none => trivial
  | some job => exact Or.inl rfl

/-- Towards a status other than `queued`. -/
theorem forward_iff {s s' : Status} (h : s' ≠ .queued) :
    Forward s s' ↔ (s.terminal = true → s' = s) := by
  revert h
  cases s <;> cases s' <;> simp [Forward, Status.terminal]

/-- **One write.** The status moves forward just when the update keeps the end of an ended job. -/
theorem forward_rewritten {a : Actor} {i : String} {u : PartialJob} {job job' : Job}
    (hu : Update a i u) (h : Rewritten u job job') :
    Forward job.status job'.status ↔ KeepsEnd u job := by
  rcases update_shape hu with ⟨hst, hres⟩ | ⟨r, hst, hres, hterm, -⟩
  · have hst' : job'.status = .running := by rw [h.status, hst]; rfl
    have hne : job'.status ≠ .queued := by rw [hst']; decide
    rw [forward_iff hne, hst']
    refine forall_congr' fun hend => iff_of_false (fun he => ?_) ?_
    · rw [← he] at hend
      cases hend
    · simp [hres]
  · have hst' : job'.status = r.status := by rw [h.status, hst]; rfl
    have hne : job'.status ≠ .queued := by
      rw [hst']
      intro he
      rw [he] at hterm
      cases hterm
    rw [forward_iff hne, hst']
    simp [KeepsEnd, hres]

/-- **Status only moves forward, exactly as far as ended jobs are left alone.** Along a run of the
API on the in-memory queue the status of every job only moves forward if and only if no job that has
ended is started or claimed, or given a result with another status. -/
theorem status_forward (ls : List (Label Task Input)) :
    Along StatusForward (start .memory) ls ↔
      Along (fun c l _ => Allowed (OnWrites KeepsEnd) c l) (start .memory) ls := by
  refine along_congr (P := StatusForward) (fun c l c' hc hs => ?_) ls
  refine step_iff_allowed hs (fun l c' hst i => ?_) fun t a o k inp r c' hp hf => ?_
  · rw [hst]
    exact .refl _
  · exact related_iff_onWrites hc hp hf (fun i => .refl _) (fun j request now => rfl)
      fun j u job job' hu hrew => forward_rewritten hu hrew

/-- A job that has ended is claimed: the submission is executed inline to its end, and then a worker
polls. The last step is the claim. -/
def endedThenClaimed : List (Label Task Input) :=
  submission 0 ++ inlineExecution 1 ++
    .arrive (.request (.jobsNext "w")) :: turn 2 2 {} ++ turn 2 1 {}

/-- From completed back to running. -/
theorem status_backward : ∃ c c', (start .memory).run endedThenClaimed = some c ∧
    c.step (.next {}) = some c' ∧ ¬ StatusForward c (.next {}) c' := by
  obtain ⟨c, hc⟩ : ∃ c, (start .memory).run endedThenClaimed = some c :=
    Option.isSome_iff_exists.mp rfl
  have hold : ((start .memory).run endedThenClaimed).bind
      (fun c => (lookup .memory c.world.state "job").map (·.status)) = some .completed := rfl
  have hnew : (((start .memory).run endedThenClaimed).bind fun c => c.step (.next {})).bind
      (fun c => (lookup .memory c.world.state "job").map (·.status)) = some .running := rfl
  rw [hc, Option.bind_some] at hold hnew
  obtain ⟨c', hc', hnew⟩ := Option.bind_eq_some_iff.mp hnew
  obtain ⟨job, hjob, hst⟩ := Option.map_eq_some_iff.mp hold
  obtain ⟨job', hjob', hst'⟩ := Option.map_eq_some_iff.mp hnew
  refine ⟨c, c', hc, hc', fun h => ?_⟩
  have hadv := h "job"
  rw [hjob, hjob'] at hadv
  change Forward job.status job'.status at hadv
  rw [hst, hst'] at hadv
  simp [Forward] at hadv

/-! ### Status, result and worker fit together -/

/-- **Coherence of a record**: it has a result just when the job has ended, the result has the
job's status, so that the status told is the one stored, and only a running job has a worker. -/
structure Coherent (job : Job) : Prop where
  ended : job.result ≠ none ↔ job.status ∈ [Status.completed, .failed, .timeout]
  same : ∀ r, job.result = some r → r.status = job.status
  told : (statusResult job).status = job.status
  worker : job.workerId ≠ none → job.status = .running

/-- Every stored record is coherent. -/
def AllCoherent (c : MemConfig) : Prop :=
  ∀ i job, lookup .memory c.world.state i = some job → Coherent job

/-- A write without a result finds no result, and a result that keeps the worker finds no worker. -/
def Fits (u : PartialJob) (job : Job) : Prop :=
  (u.result = none → job.result = none) ∧
  (u.result ≠ none → u.workerId = none → job.workerId = none)

theorem mem_ended (s : Status) :
    s ∈ [Status.completed, .failed, .timeout] ↔ s.terminal = true := by
  cases s <;> simp [Status.terminal]

/-- Without a result. -/
theorem coherent_of_none {job : Job} (h : job.result = none) :
    Coherent job ↔ job.status.terminal = false ∧ (job.workerId ≠ none → job.status = .running) := by
  constructor
  · intro hc
    refine ⟨?_, hc.worker⟩
    by_contra hterm
    exact hc.ended.mpr ((mem_ended _).mpr (by simpa using hterm)) h
  · rintro ⟨hterm, hworker⟩
    refine ⟨?_, fun r hr => ?_, ?_, hworker⟩
    · rw [mem_ended, hterm]; simp [h]
    · rw [h] at hr; cases hr
    · simp [statusResult, h]

/-- With a result. -/
theorem coherent_of_some {job : Job} {r : ExecutionResult} (h : job.result = some r) :
    Coherent job ↔ job.status.terminal = true ∧ r.status = job.status ∧ job.workerId = none := by
  constructor
  · intro hc
    have hterm := (mem_ended _).mp (hc.ended.mp (by rw [h]; simp))
    refine ⟨hterm, hc.same r h, ?_⟩
    by_contra hw
    rw [hc.worker hw] at hterm
    cases hterm
  · rintro ⟨hterm, hsame, hworker⟩
    refine ⟨?_, fun r' hr' => ?_, ?_, fun hw => absurd hworker hw⟩
    · rw [mem_ended, hterm]; simp [h]
    · rw [h, Option.some.injEq] at hr'
      exact hr' ▸ hsame
    · simp [statusResult, h, hsame]

/-- **One write.** A coherent record stays coherent just when the update fits it. -/
theorem coherent_rewritten {a : Actor} {i : String} {u : PartialJob} {job job' : Job}
    (hu : Update a i u) (h : Rewritten u job job') : Coherent job' ↔ Fits u job := by
  rcases update_shape hu with ⟨hst, hres⟩ | ⟨r, hst, hres, hterm, hw⟩
  · have hst' : job'.status = .running := by rw [h.status, hst]; rfl
    have hres' : job'.result = job.result := by rw [h.result, hres]; rfl
    cases hold : job.result with
    | none =>
      rw [coherent_of_none (hres'.trans hold), hst']
      simp [Fits, hres, hold, Status.terminal]
    | some r =>
      rw [coherent_of_some (hres'.trans hold), hst']
      simp [Fits, hres, hold, Status.terminal]
  · have hst' : job'.status = r.status := by rw [h.status, hst]; rfl
    have hres' : job'.result = some r := by rw [h.result, hres]; rfl
    rw [coherent_of_some hres', hst', hterm, h.workerId]
    rcases hw with hw | hw <;> simp [Fits, hres, hw]

/-- **Records are coherent, exactly as far as every write fits.** Along a run of the API on the
in-memory queue all records are coherent in every state if and only if no inline start and no claim
finds a result, and no end of an inline execution finds a worker. -/
theorem records_coherent (ls : List (Label Task Input)) :
    Along (fun _ _ c' => AllCoherent c') (start .memory) ls ↔
      Along (fun c l _ => Allowed (OnWrites Fits) c l) (start .memory) ls := by
  refine along_iff (Q := AllCoherent) (fun i job h => by cases h) (fun c l c' hc hq hs => ?_) ls
  refine step_iff_allowed (P := fun _ _ c' => AllCoherent c') hs (fun l c' hst => ?_)
    fun t a o k inp r c' hp hf => ?_
  · rw [AllCoherent, hst]
    exact hq
  · refine related_iff_onWrites (R := fun _ x => ∀ job, x = some job → Coherent job) hc hp hf hq
      (fun j request now job hjob => ?_) fun j u job job' hu hrew => ?_
    · cases hjob
      exact (coherent_of_none rfl).mpr ⟨rfl, fun hw => absurd rfl hw⟩
    · simpa using coherent_rewritten hu hrew

/-- A claimed job is executed inline to its end: the worker polls before the process has ended. -/
def claimedThenEnded : List (Label Task Input) :=
  submission 0 ++ turn 1 5 {} ++ poll 2 ++ turn 1 4 {} ++ turn 1 3 {}

/-- Completed, and still claimed by a worker. -/
theorem record_incoherent : ∃ c, (start .memory).run claimedThenEnded = some c ∧
    ¬ AllCoherent c := by
  obtain ⟨c, hc⟩ : ∃ c, (start .memory).run claimedThenEnded = some c :=
    Option.isSome_iff_exists.mp rfl
  have hjob : ((start .memory).run claimedThenEnded).bind
      (fun c => (lookup .memory c.world.state "job").map fun job => (job.status, job.workerId)) =
      some (.completed, some "w") := rfl
  rw [hc, Option.bind_some, Option.map_eq_some_iff] at hjob
  obtain ⟨job, hl, hj⟩ := hjob
  obtain ⟨hst, hw⟩ := Prod.mk.inj hj
  refine ⟨c, hc, fun h => ?_⟩
  have := (h "job" job hl).worker (by rw [hw]; simp)
  rw [hst] at this
  cases this

end CodeHive.Api.RecordState
