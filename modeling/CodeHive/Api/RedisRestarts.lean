import CodeHive.Api.Runs
import CodeHive.Concurrency.Crashes

/-! # Restarts on Redis

A process of the API on Redis may go down at any point, and the next one starts on the same Redis,
which does every command that it is sent. Every job that was accepted, by whatever process, is still
known; each is handed out at most once, in the order of the submissions; and one that is not in the
queue any more was told to the one worker that asked for it, unless its poll is under way or went
down with its process (`outlives`). -/

namespace CodeHive.Api.RedisRestarts

set_option autoImplicit false

open CodeHive.Js.Value CodeHive.Api.Types CodeHive.Api.Stores CodeHive.Api.Messages
open CodeHive.Api.Program CodeHive.Api.Queue CodeHive.Api.Routes CodeHive.Api.System
open CodeHive.Api.History CodeHive.Api.Invariant CodeHive.Api.Logic CodeHive.Api.Handlers
open CodeHive.Api.Runs
open CodeHive.Concurrency.Calls CodeHive.Concurrency.Pool CodeHive.Concurrency.RelyGuarantee
open CodeHive.Concurrency.Crashes

/-- What a call counts as that went down with its process; a request that was answered does not. -/
def lost : Outcome := .settled (.error (.error "lost"))

/-- What a restart leaves: Redis, and that ids are not given out twice. -/
def forget (s : Store) : Store := { s with mem := .empty }

/-- `c` is reached by processes of the API that follow one another on one Redis. -/
abbrev Restarted (c : Config (apiSystem .redis)) : Prop :=
  Endures lost forget (start .redis) c

theorem inv_forget {w : World} (h : Inv (terms .redis) w) :
    Inv (terms .redis) ⟨forget w.state, w.log⟩ :=
  ⟨h.issued, h.unique, h.owned, h.nodup, h.stored, h.known, h.fifo⟩

section
variable {c : Config (apiSystem .redis)}

theorem Restarted.ok (h : Restarted c) :
    Ok (mortal lost (spec (terms .redis) (apiEntry .redis))) c :=
  Endures.ok (entries .redis) (fun _ _ _ => trivial) (fun _ => inv_forget)
    (fun _ _ => ⟨List.prefix_rfl, rfl, rfl⟩) (.init (Inv.empty _)) h

theorem Restarted.inv (h : Restarted c) : Inv (terms .redis) c.world := (Restarted.ok h).inv

/-- A request that has settled was answered, with what its handler is for, or was lost. -/
theorem Restarted.achieved (h : Restarted c) {t : ℕ} {a : Actor} {out : Outcome} {r : Request}
    (ha : a.tag = .request r) (ht : c.pool[t]? = some (a, .done out)) :
    out = lost ∨ ∃ reply, out = .reply reply ∧ Achieved .redis a out c.world := by
  by_cases hlost : out = lost
  · exact .inl hlost
  · have hp : Achieved .redis a out c.world := post_of_ok (Restarted.ok h) ht hlost
    cases out with
    | reply reply => exact .inr ⟨reply, rfl, hp⟩
    | settled x => cases r <;> simp [Achieved, ha] at hp
    | returned x => cases r <;> simp [Achieved, ha] at hp

theorem Restarted.owners (h : Restarted c) :
    (∀ x ∈ enqueues c.world.log, Submits x.1) ∧ ∀ x ∈ pops c.world.log, Polls x.1 := by
  refine Endures.keeps (fun c hc => Restarted.ok hc)
    (J := fun w => (∀ x ∈ enqueues w.log, Submits x.1) ∧ ∀ x ∈ pops w.log, Polls x.1)
    (by simp [Config.init, enqueues, pops]) (fun w a hJ => ?_) (fun w hJ => hJ)
    (fun a w o i r w' _ hg hJ hf => owners_fire hg.2 hJ hf) h
  simpa [World.start, enqueueOf, popOf] using hJ

/-- **What outlives the processes.** -/
structure Outlives (c : Config (apiSystem .redis)) : Prop where
  /-- Jobs are taken off the queue in the order of their submission; the others wait. -/
  queue : (pops c.world.log).map (·.2) ++ pending .redis c.world.state = ids c.world.log
  once : (ids c.world.log).Nodup
  /-- A submission that was answered 202 has enqueued the job it names, -/
  accepted : ∀ (t : ℕ) (a : Actor) (body : Json) (id language : String),
    a.tag = .request (.execute body) →
    c.pool[t]? = some (a, .done (.reply ⟨202, .queued id language⟩)) → id ∈ ids c.world.log
  /-- and the record is there, with what was submitted. -/
  records : ∀ x ∈ enqueues c.world.log, ∃ rec, lookup .redis c.world.state x.2.id = some rec ∧
    Keeps x.2 rec
  /-- A job waits, or was taken off the queue by a poll that has told it to its worker, is under
  way, or was lost. -/
  placed : ∀ i ∈ ids c.world.log, i ∈ pending .redis c.world.state ∨
    ∃ (t : ℕ) (a : Actor) (p : Thread), c.pool[t]? = some (a, p) ∧ Polls a ∧
      (a, i) ∈ pops c.world.log ∧
      ((∃ job : Job, p = .done (.reply ⟨200, .job job⟩) ∧ job.id = i) ∨ (∀ out, p ≠ .done out) ∨
        p = .done lost)
  /-- Whoever asks for a job that was accepted before, by whatever process, is told of it. -/
  told : ∀ (t : ℕ) (a : Actor) (i : String) (reply : Reply), a.tag = .request (.status i) →
    c.pool[t]? = some (a, .done (.reply reply)) → i ∈ ids (c.world.log.take a.born) →
    ∃ rec, reply = ⟨200, .result (statusResult rec)⟩ ∧
      ∃ x ∈ enqueues c.world.log, x.2.id = i ∧ Keeps x.2 rec

/-- **On Redis nothing that was accepted is forgotten**, over any number of restarts, while the
commands succeed. -/
theorem outlives (h : Restarted c) : Outlives c := by
  have hinv := Restarted.inv h
  have hreply : ∀ reply : Reply, Outcome.reply reply ≠ lost := fun _ he => by cases he
  refine ⟨hinv.fifo, hinv.nodup, fun t a body id language ha ht => ?_, hinv.stored,
    fun i hi => ?_, fun t a i reply ha ht hi => ?_⟩
  · have hp : Achieved .redis a _ c.world := post_of_ok (Restarted.ok h) ht (hreply _)
    unfold Achieved at hp
    rw [ha] at hp
    rcases hp with ⟨job, lang, heq, hown, -⟩ | ⟨hcode, -⟩
    · cases heq
      have hmem : job ∈ ownEnqueues c.world.log a.tid := by
        rw [hown]
        exact List.mem_cons_self
      obtain ⟨b, -, hb⟩ := mem_ownEnqueues.mp hmem
      exact mem_ids.mpr ⟨(b, job), hb, rfl⟩
    · cases hcode
  · rw [← hinv.fifo] at hi
    rcases List.mem_append.mp hi with hpop | hwait
    · obtain ⟨⟨a, i⟩, hx, rfl⟩ := List.mem_map.mp hpop
      have hpolls := (Restarted.owners h).2 _ hx
      obtain ⟨worker, hworker⟩ := hpolls
      obtain ⟨e, he, hex⟩ := List.mem_filterMap.mp hx
      obtain ⟨p, hp⟩ := (Restarted.ok h).wf.log e he
      rw [← popOf_actor hex] at hp
      refine .inr ⟨a.tid, a, p, hp, ⟨worker, hworker⟩, hx, ?_⟩
      by_cases hdone : ∃ out, p = .done out
      · obtain ⟨out, rfl⟩ := hdone
        rcases Restarted.achieved h hworker hp with rfl | ⟨reply, rfl, hach⟩
        · exact .inr (.inr rfl)
        · unfold Achieved at hach
          rw [hworker] at hach
          have hown : i ∈ ownPops c.world.log a.tid := mem_ownPops.mpr ⟨a, rfl, hx⟩
          rcases hach with ⟨-, hnone⟩ | ⟨job, rfl, hone⟩
          · rw [hnone] at hown
            cases hown
          · rw [hone, List.mem_singleton] at hown
            exact .inl ⟨job, rfl, hown.symm⟩
      · exact .inr (.inl fun out hp => hdone ⟨out, hp⟩)
    · exact .inl hwait
  · have hp : Achieved .redis a _ c.world := post_of_ok (Restarted.ok h) ht (hreply _)
    unfold Achieved at hp
    rw [ha] at hp
    rcases hp with ⟨rec, rfl, -, htold⟩ | ⟨hnone, -⟩
    · exact ⟨rec, rfl, htold⟩
    · exact absurd hi hnone

end

/-- The code that a request was answered with. -/
def answered : Thread → Option ℕ
  | .done (.reply r) => some r.code
  | _ => none

/-- Call `t` is resumed again and again, and makes the given numbers of steps. -/
def turns (t : ℕ) (ns : List ℕ) (inp : Input) : List (Label Task Input) :=
  ns.flatMap fun n => turn t n inp

/-- The first process accepts a job and goes down before it is executed; the second one hands it out;
the third one is asked for it. -/
def threeProcesses : Option (Config (apiSystem .redis)) :=
  ((start .redis).run
    (.arrive (.request (.execute (.obj [("language", .str "python"), ("code", .str "print(1)")]))) ::
      turns 0 [3, 2, 1, 3] { uuid := "job" })).bind fun c =>
  ((crash lost forget c).run
    (.arrive (.request (.jobsNext "w")) ::
      turns 2 [1, 2, 1, 2, 1, 1, 2, 1, 2, 2, 1, 1] {})).bind fun c =>
  (crash lost forget c).run (.arrive (.request (.status "job")) :: turns 3 [1, 2, 1, 1] {})

theorem outlives_run : ∃ c, threeProcesses = some c ∧
    c.pool.map (fun x => answered x.2) = [some 202, none, some 200, some 200] ∧
    ids c.world.log = ["job"] ∧ Outlives c := by
  obtain ⟨c, hc⟩ : ∃ c, threeProcesses = some c := Option.isSome_iff_exists.mp rfl
  have hcodes : threeProcesses.map (fun c => c.pool.map fun x => answered x.2) =
      some [some 202, none, some 200, some 200] := rfl
  have hids : threeProcesses.map (fun c => ids c.world.log) = some ["job"] := rfl
  rw [hc, Option.map_some, Option.some_inj] at hcodes hids
  have hrun := hc
  unfold threeProcesses at hrun
  obtain ⟨c₁, h₁, hrest⟩ := Option.bind_eq_some_iff.mp hrun
  obtain ⟨c₂, h₂, h₃⟩ := Option.bind_eq_some_iff.mp hrest
  have hfirst : Restarted c₁ := Endures.refl.reaches (reaches_of_run h₁)
  have hsecond : Restarted c₂ := hfirst.crash.reaches (reaches_of_run h₂)
  exact ⟨c, hc, hcodes, hids, outlives (hsecond.crash.reaches (reaches_of_run h₃))⟩

end CodeHive.Api.RedisRestarts
