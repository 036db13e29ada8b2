import CodeHive.Api.Directories
import CodeHive.Api.RecordState
import CodeHive.Concurrency.Resting

/-! # The API left alone

When no more requests arrive, the API comes to rest, on either backend and whatever was going on:
every request is answered, every execution has settled and its directory is gone. In memory every
job that was accepted then has a result, unless no directory could be made for it (`left_alone`).

This is about a process that goes on: no exception that nobody catches ends it
(`ChildEvents.never_uncaught_iff` says when none does), javac returns, and each command sent to Redis
succeeds. Directories go where `rmSync` removes what it is asked to. -/

namespace CodeHive.Api.Quiescence

set_option autoImplicit false

open CodeHive.Api.Types CodeHive.Api.Stores CodeHive.Api.Messages CodeHive.Api.Program
open CodeHive.Api.Queue CodeHive.Api.System CodeHive.Api.History CodeHive.Api.Invariant
open CodeHive.Api.Logic CodeHive.Api.Handlers CodeHive.Api.Runs CodeHive.Api.RecordState
open CodeHive.Api.Course CodeHive.Api.Directories
open CodeHive.Concurrency.Calls CodeHive.Concurrency.Pool CodeHive.Concurrency.Protocols
open CodeHive.Concurrency.RelyGuarantee CodeHive.Concurrency.Resting
open CodeHive.Concurrency.Settling

/-! ### A result that is recorded stays -/

section
variable {c c' : MemConfig}

/-- The job has a result. -/
def Given (s : Store) (i : String) : Prop :=
  ∃ rec, lookup .memory s i = some rec ∧ rec.result ≠ none

theorem result_rewritten {a : Actor} {i : String} {u : PartialJob} {job job' : Job}
    (hu : Update a i u) (h : Rewritten u job job') (hres : job.result ≠ none) :
    job'.result ≠ none := by
  rw [h.result]
  rcases update_shape hu with ⟨-, hnone⟩ | ⟨r, -, hsome, -⟩
  · rw [hnone]
    exact hres
  · rw [hsome]
    exact Option.some_ne_none r

/-- **No step takes a result away.** -/
theorem Given.step (hc : Reachable .memory c) {l : Label Task (apiSystem .memory).Input}
    (hs : c.step l = some c') {i : String} (h : Given c.world.state i) :
    Given c'.world.state i := by
  cases stepped_of_step hs with
  | arrive hrun hp => exact h
  | resume hrun hp => exact h
  | fork hrun hp => exact h
  | pause hrun hp hsus => exact h
  | @op t a o k inp r w hrun hp hf =>
    obtain ⟨rec, hrec, hres⟩ := h
    rcases record_cases hc hp hf with ⟨j, u, -, hu, hother, -, hsome⟩ |
      ⟨-, hl | ⟨j, request, now, hnone, -, hother⟩⟩
    · by_cases hij : i = j
      · subst hij
        obtain ⟨rec', hrec', hrew⟩ := hsome rec hrec
        exact ⟨rec', hrec', result_rewritten hu hrew hres⟩
      · exact ⟨rec, (hother i hij).trans hrec, hres⟩
    · exact ⟨rec, (hl i).trans hrec, hres⟩
    · have hij : i ≠ j := by
        rintro rfl
        rw [hrec] at hnone
        cases hnone
      exact ⟨rec, (hother i hij).trans hrec, hres⟩

/-- **What an execution records is the result of its job**, from then on. -/
theorem given_of_recording (hc : Reachable .memory c) : ∀ (a : Actor) (o : Op) (r : o.Answer)
    (j : String), .ran a o r ∈ c.world.log → a.tag = .inline j → recordingOp o = true →
    Given c.world.state j := by
  induction hc with
  | refl => exact fun a o r j h => absurd h List.not_mem_nil
  | @step c c' l hc _ hs ih =>
    intro a o r j he ha ho
    have hold : .ran a o r ∈ c.world.log → Given c'.world.state j :=
      fun he => (ih a o r j he ha ho).step hc hs
    cases stepped_of_step hs with
    | arrive hrun hp =>
      rcases List.mem_append.mp he with he | he
      · exact hold he
      · cases List.mem_singleton.mp he
    | resume hrun hp => exact hold he
    | pause hrun hp hsus => exact hold he
    | fork hrun hp =>
      rcases List.mem_append.mp he with he | he
      · exact hold he
      · cases List.mem_singleton.mp he
    | @op t a' o' k inp r' w hrun hp hf =>
      obtain ⟨s, -, rfl⟩ := World.fire_eq_some.mp hf
      rcases List.mem_append.mp he with he | he
      · exact hold he
      cases List.mem_singleton.mp he
      -- the execution writes into the record of its own job, which is there
      have hcourse := onCourse hc
      obtain ⟨d, m, hq⟩ := executing_of_tag (b := .memory) ha c.world.log
      have hallowed := (follows_op.mp (hcourse.conforms.follows t a _ hp)).1
      rw [hq] at hallowed
      obtain ⟨rec, hrec⟩ := Inv.lookup_some (Reachable.inv hc) (hcourse.known t a _ j hp ha)
      have hwrite : ∃ u, recordWrite o = some (j, u) ∧ recording u = true := by
        cases o with
        | host o => cases ho
        | redis o => cases ho
        | mem o =>
          cases o with
          | updateJob i u =>
            obtain rfl : i = j := hallowed.1
            exact ⟨u, rfl, ho⟩
          | assign i u =>
            obtain rfl : i = j := hallowed.1
            exact ⟨u, rfl, ho⟩
          | _ => cases ho
      obtain ⟨u, hwrite, hrecording⟩ := hwrite
      rcases record_cases hc hp hf with ⟨i, u', ho', -, -, -, hsome⟩ | ⟨hnone, -⟩
      · rw [hwrite] at ho'
        cases ho'
        obtain ⟨rec', hrec', hrew⟩ := hsome rec hrec
        refine ⟨rec', hrec', ?_⟩
        rw [hrew.result]
        unfold recording at hrecording
        cases hu : u.result with
        | none =>
          rw [hu] at hrecording
          cases hrecording
        | some res =>
          rw [hu] at hrecording
          exact Option.isSome_iff_ne_none.mp hrecording
      · rw [hwrite] at hnone
        cases hnone

/-- The stage says that the execution has recorded a result. -/
def recordedAt : Stage → Bool
  | .executing _ _ m => m
  | _ => false

/-- What the stage says is in the log. -/
theorem exists_recording {b : Backend} {a : Actor} {log : List Event}
    (h : recordedAt ((course b).stage a log) = true) :
    ∃ d o r, .ran d o r ∈ log ∧ d.tid = a.tid ∧ recordingOp o = true := by
  revert h
  refine stage_induction (P := course b) (R := fun log q => recordedAt q = true →
    ∃ d o r, .ran d o r ∈ log ∧ d.tid = a.tid ∧ recordingOp o = true) ?_
    (fun pre e _ _ ih h => ?_) fun pre d o r _ hd ih h => ?_
  · intro h
    cases htag : a.tag with
    | request r => cases r <;> rw [htag] at h <;> cases h
    | _ => rw [htag] at h; cases h
  · obtain ⟨d, o, r, he, hd, ho⟩ := ih h
    exact ⟨d, o, r, List.mem_append_left _ he, hd, ho⟩
  · have hcases : recordingOp o = true ∨ recordedAt ((course b).stage a pre) = true := by
      cases hq : (course b).stage a pre with
      | serving status => rw [hq] at h; cases h
      | submitting known =>
        obtain ⟨known', hnext⟩ := next_submitting b known o r
        rw [hq, hnext] at h
        cases h
      | executing j dir m =>
        rw [hq] at h
        exact Bool.or_eq_true_iff.mp h
    rcases hcases with ho | hold
    · exact ⟨d, o, r, List.mem_append_right _ List.mem_cons_self, hd, ho⟩
    · obtain ⟨d', o', r', he, hd', ho'⟩ := ih hold
      exact ⟨d', o', r', List.mem_append_left _ he, hd', ho'⟩

end

/-! ### At rest -/

/-- **The API at rest.** -/
structure AtRest (b : Backend) (c : Config (apiSystem b)) : Prop where
  idle : c.running = none
  settled : ∀ (t : ℕ) (a : Actor) (p : Thread), c.pool[t]? = some (a, p) → ∃ out, p = .done out
  answered : ∀ (t : ℕ) (a : Actor) (p : Thread) (r : Request), c.pool[t]? = some (a, p) →
    a.tag = .request r → ∃ reply, p = .done (.reply reply)
  /-- No directory is left behind. -/
  cleared : Fresh c.world.log → directories c.world.log = []
  /-- A job that was accepted has a result, unless no directory could be made for it. -/
  results : b = .memory → ∀ i ∈ ids c.world.log, Given c.world.state i ∨
    ∃ t a out err, c.pool[t]? = some (a, .done out) ∧ a.tag = .inline i ∧
      work t c.world.log = [⟨.mkdtempSync, .error err⟩]

section
variable {b : Backend} {c : Config (apiSystem b)}

/-- A submission that has been answered has called the execution of its job. -/
theorem execution_of_answered (hc : Reachable b c) {x : Actor × Job}
    (hx : x ∈ enqueues c.world.log) {out : Outcome}
    (hp : c.pool[x.1.tid]? = some (x.1, .done out)) :
    ∃ (d : Actor) (q : Thread), c.pool[d.tid]? = some (d, q) ∧ d.tag = .inline x.2.id := by
  obtain ⟨body, hbody⟩ : ∃ body, x.1.tag = .request (.execute body) := hc.owners.1 x hx
  obtain ⟨reply, rfl⟩ := hc.replied hbody hp
  have hachieved := hc.achieved hp
  unfold Achieved at hachieved
  rw [hbody] at hachieved
  have hown : x.2 ∈ ownEnqueues c.world.log x.1.tid := mem_ownEnqueues.mpr ⟨x.1, rfl, hx⟩
  rcases hachieved with ⟨job, language, -, howned, d, hd, htag⟩ | ⟨-, hnone⟩
  · rw [howned, List.mem_singleton] at hown
    obtain ⟨q, hq⟩ := hc.ok.wf.log _ hd
    exact ⟨d, q, hq, hown ▸ htag⟩
  · rw [hnone] at hown
    cases hown

/-- Where all calls have settled, each job in memory has been executed. -/
theorem results_of_settled {c : MemConfig} (hc : Reachable .memory c)
    (hsettled : ∀ (t : ℕ) (a : Actor) (p : Thread), c.pool[t]? = some (a, p) → ∃ out, p = .done out)
    {i : String} (hi : i ∈ ids c.world.log) : Given c.world.state i ∨
      ∃ t a out err, c.pool[t]? = some (a, .done out) ∧ a.tag = .inline i ∧
        work t c.world.log = [⟨.mkdtempSync, .error err⟩] := by
  obtain ⟨x, hx, rfl⟩ := mem_ids.mp hi
  -- the submission has been answered, so it has called the execution
  obtain ⟨p, hp⟩ := hc.of_enqueue hx
  obtain ⟨out, rfl⟩ := hsettled _ _ p hp
  obtain ⟨d, q, hq, htag⟩ := execution_of_answered hc hx hp
  -- and the execution has come to the end of its course
  have hconf := (onCourse hc).conforms
  obtain ⟨out', rfl⟩ := hsettled _ _ q hq
  obtain ⟨dir, m, hstage⟩ := executing_of_tag (b := .memory) htag c.world.log
  have hends := hconf.ends hq
  have hdid := work_did hconf hq List.prefix_rfl
  rw [hstage] at hends hdid
  rcases hends with ⟨-, hb⟩ | rfl | ⟨e, rfl, hm⟩
  · cases hb
  · obtain ⟨err, hwork⟩ : ∃ err, work d.tid c.world.log = [⟨.mkdtempSync, .error err⟩] := hdid
    exact .inr ⟨d.tid, d, out', err, hq, htag, hwork⟩
  · have hrecorded : recordedAt ((course .memory).stage d c.world.log) = true := by
      rw [hstage]
      exact hm rfl
    obtain ⟨d', o, r, he, htid, ho⟩ := exists_recording hrecorded
    obtain rfl : d' = d := hconf.actor hq (e := .ran d' o r) he htid
    exact .inl (given_of_recording hc d' o r x.2.id he htag ho)

/-- Where no call can go on, everything has come to its end. -/
theorem atRest_of_stuck (hc : Reachable b c) (hstuck : Stuck OwnStep c) : AtRest b c := by
  obtain ⟨hidle, hsettled⟩ := settled_of_rests hc.ok enabled hstuck
  refine ⟨hidle, hsettled, fun t a p r hp ha => ?_, fun hf => ?_, fun hb i hi => ?_⟩
  · obtain ⟨out, rfl⟩ := hsettled t a p hp
    obtain ⟨reply, rfl⟩ := hc.replied ha hp
    exact ⟨reply, rfl⟩
  · refine List.eq_nil_iff_forall_not_mem.mpr fun dir hdir => ?_
    obtain ⟨t, a, p, hp, hopen, -⟩ := (mem_directories hc hf dir).mp hdir
    obtain ⟨out, rfl⟩ := hsettled t a p hp
    exact hopen out rfl
  · subst hb
    exact results_of_settled hc hsettled hi

/-- Left alone, the API comes to whatever holds where no call can go on. -/
theorem comes_of_stuck {P : Config (apiSystem b) → Prop} (hc : Reachable b c)
    (h : ∀ c', Reachable b c' → Stuck OwnStep c' → P c') : ComesToRest OwnStep c P := by
  refine comesToRest wellFounded_less (I := fun _ => True)
    (fun _ _ _ hs => ⟨trivial, less_of_step hs⟩) trivial fun c' hr hstuck => ?_
  exact h c' (hc.trans (reaches_of_own hr)) hstuck

/-- **Left alone, the API comes to rest**, from whatever it has come to, if nothing ends the process
and Redis does what it is asked to. -/
theorem left_alone (hc : Reachable b c) : ComesToRest OwnStep c (AtRest b) :=
  comes_of_stuck hc fun _ hc' hstuck => atRest_of_stuck hc' hstuck

end

/-- A job has just been accepted; its execution, call 1, has still to run. -/
theorem left_alone_run : ∃ c, (start .memory).run (submission 0) = some c ∧
    c.pool.length = 2 ∧ ComesToRest OwnStep c (AtRest .memory) := by
  obtain ⟨c, hc⟩ : ∃ c, (start .memory).run (submission 0) = some c :=
    Option.isSome_iff_exists.mp rfl
  have hlength : ((start .memory).run (submission 0)).map (fun c => c.pool.length) = some 2 := rfl
  rw [hc, Option.map_some, Option.some_inj] at hlength
  exact ⟨c, hc, hlength, left_alone (reaches_of_run hc)⟩

end CodeHive.Api.Quiescence
