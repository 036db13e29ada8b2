import CodeHive.Api.InlineOutcome

/-! # Which executions leave a terminal record

Inside its `try` block every failure of `executeJob` is recorded by the `catch` branch. The
temporary directory is made before that block, when the record is `running` already; where this
fails, the record stays as it is. -/

namespace CodeHive.Api.TerminalRecords

set_option autoImplicit false

open CodeHive.Js.Value CodeHive.Api.Types CodeHive.Api.Stores CodeHive.Api.Messages
open CodeHive.Api.Program CodeHive.Api.Queue CodeHive.Api.Executor CodeHive.Api.System
open CodeHive.Api.History CodeHive.Api.Records CodeHive.Api.Clients CodeHive.Api.SoleWriter
open CodeHive.Api.InlineOutcome (Records execution one_writer)
open CodeHive.Concurrency.Calls CodeHive.Concurrency.Pool CodeHive.Concurrency.RelyGuarantee
open CodeHive.Concurrency.Triples

/-- What a step of `executeJob` throws. -/
inductive Thrown where
  /-- Before the `try` block. -/
  | unguarded (err : JsError)
  /-- Inside it. -/
  | guarded (err : JsError)

/-- What a step of call `t` has thrown. -/
def thrownBy (t : ℕ) : Event → Option Thrown
  | .ran a (.host .mkdtempSync) (.error err) => if a.tid = t then some (.unguarded err) else none
  | .ran a (.host (.writeFileSync _ _)) (.error err) =>
    if a.tid = t then some (.guarded err) else none
  | .ran a (.host (.execSync _)) (.error err) => if a.tid = t then some (.guarded err) else none
  | .ran a (.host (.runProcess _ _ _ _)) (.error err) =>
    if a.tid = t then some (.guarded err) else none
  | _ => none

/-- A step of call `a` has thrown. -/
def Threw (a : Actor) (log : List Event) : Prop := ∃ e ∈ log, (thrownBy a.tid e).isSome

/-- **The record is terminal**, and says so where a step has thrown. -/
def Terminal (jobId : String) (threw : Prop) (rec : Job) : Prop :=
  ∃ r, rec.result = some r ∧ r.id = jobId ∧ (rec.status = .completed ∨ rec.status = .failed) ∧
    (threw → rec.status = .failed ∧ r.exitCode = some (-1) ∧ r.error.isSome)

instance own_thrownBy : Own thrownBy where
  started _ _ := rfl
  other t a o r h := by
    unfold thrownBy
    split
    case h_5 => rfl
    all_goals
      next he =>
        cases he
        exact if_neg h
  now _ _ _ := rfl
  mem _ _ _ _ := rfl
  redis _ _ _ _ := rfl

/-! ### What `executeJob` leaves -/

/-- Nothing has been thrown, and what is recorded is `running`. -/
def Fresh (rec : Job) (l : List Thrown) : Prop := l = [] ∧ rec.status = .running

/-- The environment has answered. -/
def Asked {α : Type} (x : Except JsError α) (rec : Job) (l : List Thrown) : Prop :=
  rec.status = .running ∧
    l = match x with
      | .ok _ => []
      | .error err => [.guarded err]

/-- A step inside the `try` block has thrown. -/
def Broken (err : JsError) (_ : Job) (l : List Thrown) : Prop := l = [.guarded err]

/-- The outcome of the process is recorded, or the error that was thrown. -/
def Finished (jobId language : String) (rec : Job) (l : List Thrown) : Prop :=
  (l = [] ∧ ∃ p, Records jobId language p rec) ∨
  ∃ err startedAt finishedAt, l = [.guarded err] ∧ rec.status = .failed ∧
    rec.result = some (failureOf jobId language err startedAt finishedAt)

/-- The directory could not be made. -/
def Abandoned (rec : Job) (l : List Thrown) : Prop :=
  ∃ err, l = [.unguarded err] ∧ rec.status = .running

/-- What is so when `executeJob` has settled. -/
def Left (jobId language : String) (rec : Job) (l : List Thrown) : Prop :=
  Finished jobId language rec l ∨ Abandoned rec l

section
variable {t : ℕ} {j language code : String} {stdin : Option String} {timeoutSec : Finite}
  {a : Actor} {post : Actor → Outcome → World → Prop}

/-- What is answered inside the `try` block. -/
theorem triple_answer {α : Type} {x : Except JsError α} :
    Triple (sole .memory t j thrownBy post) a (Now .memory t j thrownBy (Asked x))
      (settle x : Async α) (fun _ => Now .memory t j thrownBy Fresh)
      fun err => Now .memory t j thrownBy (Broken err) := by
  refine triple_settle (fun y w hx hw => ?_) fun err w hx hw => ?_
  · obtain ⟨rec, hl, hs, hlog⟩ := hw
    rw [hx] at hlog
    exact ⟨rec, hl, hlog, hs⟩
  · obtain ⟨rec, hl, -, hlog⟩ := hw
    rw [hx] at hlog
    exact ⟨rec, hl, hlog⟩

/-- A step inside the `try` block: the environment is asked. -/
theorem triple_step {o : HostOp} {α : Type} {f : o.Answer → Except JsError α}
    {E : JsError → World → Prop}
    (hf : ∀ r, (thrownBy t (.ran a (.host o) r)).toList =
      match f r with
      | .ok _ => []
      | .error err => [.guarded err]) :
    Triple (sole .memory t j thrownBy post) a (Now .memory t j thrownBy Fresh) (host o)
      (fun r => Now .memory t j thrownBy (Asked (f r))) E := by
  refine triple_ask fun r rec l ⟨hl, hs⟩ => ⟨hs, ?_⟩
  rw [hl, List.nil_append]
  exact hf r

theorem triple_runFile (ha : a.tid = t) {startedAt file : String} {cfg : LangCfg} :
    Triple (sole .memory t j thrownBy post) a (Now .memory t j thrownBy Fresh)
      (runFile .memory j language stdin timeoutSec startedAt cfg file)
      (fun _ => Now .memory t j thrownBy (Finished j language))
      fun err => Now .memory t j thrownBy (Broken err) := by
  refine Triple.bind (triple_host fun _ => rfl) fun startMs => ?_
  have hrun : Triple (sole .memory t j thrownBy post) a (Now .memory t j thrownBy Fresh)
      (do settle (← host (.runProcess cfg file stdin timeoutSec)))
      (fun _ => Now .memory t j thrownBy Fresh)
      fun err => Now .memory t j thrownBy (Broken err) :=
    Triple.bind (triple_step (f := fun x => x) fun r => by
      cases r with
      | ok _ => rfl
      | error _ => simp [thrownBy, ha]) fun _ => triple_answer
  refine (hrun.await (fun _ => stable_now ha) fun _ => stable_now ha).bind fun p => ?_
  refine Triple.bind (triple_host fun _ => rfl) fun endMs => ?_
  refine Triple.bind triple_isoNow fun finishedAt => ?_
  refine ((triple_getJob ha).await_never_throws fun _ => stable_now ha).never_throws.bind
    fun obj => ?_
  refine Triple.of_pre (C := obj = some (.stored j)) (fun w ⟨_, _, h, _⟩ => ?_) ?_
  · obtain ⟨obj', rfl, hobj⟩ := h
    exact congrArg some hobj
  rintro rfl
  -- the object is the stored one, so the assignment is to the record
  have hassign : Triple (sole .memory t j thrownBy post) a
      (Now .memory t j thrownBy fun rec l =>
        (∃ obj', some (JobObj.stored j) = some obj' ∧ Held .memory j obj') ∧ Fresh rec l)
      (assign (.stored j)
        { result := some (some (resultOf j language p startedAt finishedAt (endMs - startMs)))
          status := some (resultOf j language p startedAt finishedAt (endMs - startMs)).status })
      (fun _ => Now .memory t j thrownBy (Finished j language))
      fun err => Now .memory t j thrownBy (Broken err) := by
    refine Triple.bind (triple_op (o := .mem (.assign j _)) (R := fun _ => Finished j language)
      fun w i r s rec hl hφ hs => ⟨_, if_pos rfl, Or.inl ⟨?_, p, startedAt, finishedAt,
        endMs - startMs, rfl, rfl⟩⟩) fun _ => triple_pure fun _ h => h
    simpa [thrownBy] using hφ.2.1
  refine Triple.bind hassign fun _ => triple_pure fun _ h => h

theorem triple_runAndRecord (ha : a.tid = t) {startedAt dir file : String} {cfg : LangCfg} :
    Triple (sole .memory t j thrownBy post) a (Now .memory t j thrownBy Fresh)
      (runAndRecord .memory j language code stdin timeoutSec startedAt dir cfg file)
      (fun _ => Now .memory t j thrownBy (Finished j language))
      fun err => Now .memory t j thrownBy (Broken err) := by
  refine Triple.bind (triple_step (f := fun x => x) fun r => by
    cases r with
    | ok _ => rfl
    | error _ => simp [thrownBy, ha]) fun x => triple_answer.bind fun _ => ?_
  split_ifs
  · exact Triple.bind (triple_step (f := fun x => x) fun r => by
      cases r with
      | ok _ => rfl
      | error _ => simp [thrownBy, ha]) fun y => triple_answer.bind fun _ => triple_runFile ha
  · exact triple_runFile ha

/-- **`executeJob`**, with nobody else writing the record: it throws only where the directory could
not be made. -/
theorem triple_executeJob (ha : a.tid = t) :
    Triple (sole .memory t j thrownBy post) a (Now .memory t j thrownBy fun _ l => l = [])
      (executeJob .memory j language code stdin timeoutSec)
      (fun _ => Now .memory t j thrownBy (Finished j language))
      fun _ => Now .memory t j thrownBy Abandoned := by
  have hstart : Triple (sole .memory t j thrownBy post) a
      (Now .memory t j thrownBy fun _ l => l = [])
      (await (updateJob .memory j { status := some .running }))
      (fun _ => Now .memory t j thrownBy Fresh) fun _ => Now .memory t j thrownBy Abandoned :=
    ((triple_updateJob ha fun _ _ _ _ h => ⟨h, rfl⟩).await_never_throws fun _ =>
      stable_now ha).never_throws
  -- the `catch` branch records what was thrown
  have hcatch : ∀ (startedAt : String) (err : JsError),
      Triple (sole .memory t j thrownBy post) a (Now .memory t j thrownBy (Broken err)) (do
        let res := failureOf j language err startedAt (← isoNow)
        await (updateJob .memory j { status := some .failed, result := some (some res) }))
      (fun _ => Now .memory t j thrownBy (Finished j language))
      fun _ => Now .memory t j thrownBy Abandoned := by
    intro startedAt err
    refine Triple.bind triple_isoNow fun now => Triple.never_throws ?_
    exact (triple_updateJob ha fun _ _ _ _ h =>
      Or.inr ⟨err, startedAt, now, h, rfl, rfl⟩).await_never_throws fun _ => stable_now ha
  refine Triple.bind triple_isoNow fun startedAt => hstart.bind fun _ => ?_
  refine Triple.bind (triple_ask (R := fun (x : Except JsError String) rec l =>
    rec.status = .running ∧ l = match x with
      | .ok _ => []
      | .error err => [.unguarded err]) ?_) fun x => ?_
  · rintro (err | dir) rec l ⟨rfl, hs⟩
    · exact ⟨hs, by simp [thrownBy, ha]⟩
    · exact ⟨hs, rfl⟩
  refine Triple.bind (Q := fun _ => Now .memory t j thrownBy Fresh)
    (triple_settle (fun dir w hx hw => ?_) fun err w hx hw => ?_) fun dir => ?_
  · obtain ⟨rec, hl, hs, hlog⟩ := hw
    rw [hx] at hlog
    exact ⟨rec, hl, hlog, hs⟩
  · obtain ⟨rec, hl, hs, hlog⟩ := hw
    rw [hx] at hlog
    exact ⟨rec, hl, err, hlog, hs⟩
  · exact ((triple_runAndRecord ha).tryCatch (hcatch startedAt)).tryFinally
      (fun _ => triple_host fun _ => rfl) fun _ => triple_host fun _ => rfl

/-- The call that executes job `j`. -/
theorem triple_perform (ha : a.tid = t) :
    Triple (sole .memory t j thrownBy post) a (Now .memory t j thrownBy fun _ l => l = [])
      (perform .memory (.executeJob j language code stdin timeoutSec))
      (fun _ => Now .memory t j thrownBy (Left j language))
      fun _ => Now .memory t j thrownBy (Left j language) := by
  have htriple : Triple (sole .memory t j thrownBy post) a
      (Now .memory t j thrownBy fun _ l => l = [])
      (perform .memory (.executeJob j language code stdin timeoutSec))
      (fun _ => Now .memory t j thrownBy (Finished j language))
      fun _ => Now .memory t j thrownBy Abandoned :=
    Triple.bind (triple_executeJob ha) fun _ => triple_pure fun _ h => h
  exact htriple.conseq (fun _ _ h => h) (fun _ _ ⟨rec, hl, h⟩ => ⟨rec, hl, .inl h⟩)
    fun _ _ ⟨rec, hl, h⟩ => ⟨rec, hl, .inr h⟩

end

/-! ### Runs -/

/-- What is noted as thrown before the `try` block is what `mkdtempSync` has thrown. -/
theorem unguarded_iff {t : ℕ} {e : Event} {err : JsError} :
    thrownBy t e = some (.unguarded err) ↔
      ∃ a, a.tid = t ∧ e = .ran a (.host .mkdtempSync) (.error err) := by
  constructor
  · intro h
    unfold thrownBy at h
    split at h
    case h_1 a err' =>
      split_ifs at h with ha
      cases h
      exact ⟨a, ha, rfl⟩
    case h_5 => cases h
    all_goals
      split_ifs at h
      cases h
  · rintro ⟨a, ha, rfl⟩
    exact if_pos ha

/-- What was thrown is noted. -/
theorem threw_iff {a : Actor} {log : List Event} : Threw a log ↔ noted a.tid thrownBy log ≠ [] := by
  unfold Threw noted
  simp [List.filterMap_eq_nil_iff, Option.isSome_iff_ne_none]

/-- **What is recorded is terminal**, and a failure where something was thrown. -/
theorem Finished.terminal {jobId language : String} {rec : Job} {l : List Thrown}
    (h : Finished jobId language rec l) : Terminal jobId (l ≠ []) rec := by
  rcases h with ⟨rfl, p, startedAt, finishedAt, durationMs, hr, hs⟩ |
    ⟨err, startedAt, finishedAt, rfl, hs, hr⟩
  · refine ⟨_, hr, rfl, ?_, fun hnot => absurd rfl hnot⟩
    rw [hs]
    unfold resultOf
    dsimp only
    split_ifs <;> simp
  · exact ⟨_, hr, rfl, .inr hs, fun _ => ⟨hs, rfl, rfl⟩⟩

/-- **A settled execution has left a terminal record exactly when the temporary directory could be
made**, whatever other calls clients make, as long as none of them writes the record. -/
theorem terminal_iff {s : Store} {jobId language code : String} {stdin : Option String}
    {timeoutSec : Finite} {job : Job} (hjob : lookup .memory s jobId = some job)
    {c : Config (clients .memory fun _ => true)}
    (hc : Reaches (AnyStep (clients .memory fun _ => true)) (Config.init _ s) c)
    {t : ℕ} {a : Actor} {out : Outcome} (hdone : c.pool[t]? = some (a, .done out))
    (ha : a.tag = .call (.executeJob jobId language code stdin timeoutSec))
    (hone : ∀ (d : Actor) o r, .ran d o r ∈ c.world.log → Touches .memory jobId o → d.tid = t) :
    (∃ rec, lookup .memory c.world.state jobId = some rec ∧
      Terminal jobId (Threw a c.world.log) rec) ↔
      ∀ err, .ran a (.host .mkdtempSync) (.error err) ∉ c.world.log := by
  have htriple : ∀ a, a.tid = t → Triple (sole .memory t jobId thrownBy
      (After .memory t jobId thrownBy (.executeJob jobId language code stdin timeoutSec)
        (Left jobId language))) a (Now .memory t jobId thrownBy fun _ l => l = [])
      (perform .memory (.executeJob jobId language code stdin timeoutSec))
      (fun _ => Now .memory t jobId thrownBy (Left jobId language))
      fun _ => Now .memory t jobId thrownBy (Left jobId language) :=
    fun _ hat => triple_perform hat
  obtain ⟨rfl, rec, hl, hleft⟩ := now_of_done htriple hjob hc hdone ha hone
  have hmem : ∀ err, .unguarded err ∈ noted a.tid thrownBy c.world.log ↔
      .ran a (.host .mkdtempSync) (.error err) ∈ c.world.log := by
    intro err
    simp only [noted, List.mem_filterMap, unguarded_iff]
    constructor
    · rintro ⟨e, he, d, hd, rfl⟩
      -- the log names a call as the pool does
      obtain ⟨p, hp⟩ := (hc.wf (.init _)).log _ he
      have hpool : c.pool[d.tid]? = some (d, p) := hp
      rw [hd, hdone] at hpool
      cases hpool
      exact he
    · exact fun he => ⟨_, he, a, rfl, rfl⟩
  rcases hleft with hfin | ⟨err, hlog, hrunning⟩
  · refine iff_of_true ⟨rec, hl, ?_⟩ fun err he => ?_
    · rw [threw_iff]
      exact hfin.terminal
    · have hthrown := (hmem err).mpr he
      rcases hfin with ⟨hlog, -⟩ | ⟨err', -, -, hlog, -⟩
      · rw [hlog] at hthrown
        cases hthrown
      · rw [hlog] at hthrown
        simp at hthrown
  · refine iff_of_false ?_ fun hnot => hnot err ((hmem err).mp (by rw [hlog]; simp))
    rintro ⟨rec', hl', r, -, -, hstatus, -⟩
    obtain rfl : rec = rec' := Option.some.inj (hl.symm.trans hl')
    rw [hrunning] at hstatus
    simp at hstatus

/-! ### Two runs -/

/-- The source cannot be written. -/
def unwritten : List (Label Task Input) :=
  .arrive (.call execution) ::
    turn 0 3 {} ++ turn 0 5 { write := .error (.error "EACCES") } ++ turn 0 2 {}

/-- A source that cannot be written is a failed job. -/
theorem unwritten_terminal : ∃ c a out, (Config.init (clients .memory fun _ => true)
      (oneJob .memory)).run unwritten = some c ∧ c.pool[0]? = some (a, .done out) ∧
    ∃ rec, lookup .memory c.world.state "job" = some rec ∧
      Terminal "job" (Threw a c.world.log) rec := by
  obtain ⟨c, hc⟩ : ∃ c, (Config.init (clients .memory fun _ => true) (oneJob .memory)).run
      unwritten = some c := Option.isSome_iff_exists.mp rfl
  have hdone : ((Config.init (clients .memory fun _ => true) (oneJob .memory)).run
      unwritten).bind (fun c => c.pool[0]?) =
      some (⟨0, .call execution, 0⟩, .done (.returned (.ok none))) := rfl
  have hlen : ((Config.init (clients .memory fun _ => true) (oneJob .memory)).run
      unwritten).map (fun c => c.pool.length) = some 1 := rfl
  have hthrown : ((Config.init (clients .memory fun _ => true) (oneJob .memory)).run
      unwritten).map (fun c => c.world.log.filterMap (thrownBy 0)) =
      some [.guarded (.error "EACCES")] := rfl
  rw [hc, Option.bind_some] at hdone
  rw [hc, Option.map_some, Option.some.injEq] at hlen hthrown
  have hr := reaches_of_run hc
  refine ⟨c, _, _, hc, hdone, (terminal_iff rfl hr hdone rfl fun d o r he _ =>
    one_writer (hr.wf (.init _)) hlen d o r he).mpr fun err he => ?_⟩
  have hmem : Thrown.unguarded err ∈ c.world.log.filterMap (thrownBy 0) :=
    List.mem_filterMap.mpr ⟨_, he, rfl⟩
  rw [hthrown] at hmem
  simp at hmem

/-- The directory cannot be made. -/
def undirected : List (Label Task Input) :=
  .arrive (.call execution) :: turn 0 3 {} ++ turn 0 2 { dir := .error (.error "ENOSPC") }

/-- **A job whose directory cannot be made is left at `running`**, though its execution has
settled. -/
theorem undirected_running : ∃ c a out, (Config.init (clients .memory fun _ => true)
      (oneJob .memory)).run undirected = some c ∧ c.pool[0]? = some (a, .done out) ∧
    (∀ d o r, .ran d o r ∈ c.world.log → d.tid = 0) ∧
    (lookup .memory c.world.state "job").map (·.status) = some .running ∧
    ¬ ∃ rec, lookup .memory c.world.state "job" = some rec ∧
      Terminal "job" (Threw a c.world.log) rec := by
  obtain ⟨c, hc⟩ : ∃ c, (Config.init (clients .memory fun _ => true) (oneJob .memory)).run
      undirected = some c := Option.isSome_iff_exists.mp rfl
  have hdone : ((Config.init (clients .memory fun _ => true) (oneJob .memory)).run
      undirected).bind (fun c => c.pool[0]?) =
      some (⟨0, .call execution, 0⟩, .done (.returned (.error (.error "ENOSPC")))) := rfl
  have hlen : ((Config.init (clients .memory fun _ => true) (oneJob .memory)).run
      undirected).map (fun c => c.pool.length) = some 1 := rfl
  have hstatus : ((Config.init (clients .memory fun _ => true) (oneJob .memory)).run
      undirected).bind (fun c => (lookup .memory c.world.state "job").map (·.status)) =
      some .running := rfl
  rw [hc, Option.bind_some] at hdone hstatus
  rw [hc, Option.map_some, Option.some.injEq] at hlen
  refine ⟨c, _, _, hc, hdone, one_writer ((reaches_of_run hc).wf (.init _)) hlen, hstatus, ?_⟩
  rintro ⟨rec, hl, r, -, -, hterminal, -⟩
  rw [hl, Option.map_some, Option.some.injEq] at hstatus
  rw [hstatus] at hterminal
  simp at hterminal

end CodeHive.Api.TerminalRecords
