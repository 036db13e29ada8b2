import CodeHive.Api.SoleWriter

/-! # What inline execution records

`executeJob` ends by mutating the record that `getJob` has returned. In memory that is the stored
object; on Redis it is a parsed copy, and nothing sends it back. So the outcome of a process is
recorded on one backend only, and on the other the record is left at `running`. -/

namespace CodeHive.Api.InlineOutcome

set_option autoImplicit false

open CodeHive.Js.Value CodeHive.Api.Types CodeHive.Api.Stores CodeHive.Api.Messages
open CodeHive.Api.Program CodeHive.Api.Queue CodeHive.Api.Executor CodeHive.Api.System
open CodeHive.Api.History CodeHive.Api.Records CodeHive.Api.SameStore CodeHive.Api.Clients
open CodeHive.Concurrency.Calls CodeHive.Concurrency.Pool CodeHive.Concurrency.RelyGuarantee
open CodeHive.Concurrency.Triples CodeHive.Api.SoleWriter

/-- The record has the result that stands for `p`, and its status. -/
def Records (jobId language : String) (p : ProcResult) (rec : Job) : Prop :=
  ∃ startedAt finishedAt durationMs,
    rec.result = some (resultOf jobId language p startedAt finishedAt durationMs) ∧
    rec.status = (resultOf jobId language p startedAt finishedAt durationMs).status

/-- `getJob` returns a record that has the outcome `p` of the process. -/
def OutcomeRecorded (b : Backend) (s : Store) (jobId language : String) (p : ProcResult) : Prop :=
  ∃ rec, Records jobId language p rec ∧
    ∀ inp, serve b (.getJob jobId, inp) s = some (.returned (.ok (some rec)), s)

/-- How `executeJob` leaves the record after a process that ended with `p`. -/
def Leaves (b : Backend) (jobId language : String) (p : ProcResult) (rec : Job) : Prop :=
  match b with
  | .memory => Records jobId language p rec
  | .redis => rec.status = .running

/-- A result's status is not `running`. -/
theorem Records.not_running {jobId language : String} {p : ProcResult} {rec : Job}
    (h : Records jobId language p rec) : rec.status ≠ .running := by
  obtain ⟨startedAt, finishedAt, durationMs, -, hs⟩ := h
  rw [hs, resultOf]
  dsimp only
  split_ifs <;> simp

/-- A record that is running has no outcome. -/
theorem not_recorded_of_running {b : Backend} {s : Store} {jobId language : String} {p : ProcResult}
    {rec : Job} (hl : lookup b s jobId = some rec) (hrunning : rec.status = .running) :
    ¬ OutcomeRecorded b s jobId language p := by
  rintro ⟨rec', hrec', hget⟩
  have hread := hget default
  rw [serve_getJob, hl] at hread
  obtain rfl : rec = rec' := by simpa using hread
  exact hrec'.not_running hrunning

/-! ### One writer -/

/-- What `runProcess` has answered to call `t`. -/
def outcomeOf (t : ℕ) : Event → Option ProcResult
  | .ran a (.host (.runProcess _ _ _ _)) (.ok p) => if a.tid = t then some p else none
  | _ => none

/-- Call `t`, if it is the one that executes job `j`, has recorded what it has run. -/
def Settled (b : Backend) (jobId language : String) (rec : Job) (l : List ProcResult) : Prop :=
  l = [] ∨ ∃ p, l = [p] ∧ Leaves b jobId language p rec

variable {b : Backend} {t : ℕ} {j language code : String} {stdin : Option String}
  {timeoutSec : Finite} {a : Actor} {post : Actor → Outcome → World → Prop}

/-- The outcomes of a call are noted by itself. -/
instance own_outcomeOf : Own outcomeOf where
  started _ _ := rfl
  other t a o r h := by
    unfold outcomeOf
    split
    · next he => cases he; exact if_neg h
    · rfl
  now _ _ _ := rfl
  mem _ _ _ _ := rfl
  redis _ _ _ _ := rfl

section
variable {jobId : String}

/-! ### `executeJob` -/

/-- No process has been run, and what is recorded is `running`. -/
def Started (rec : Job) (l : List ProcResult) : Prop := l = [] ∧ rec.status = .running

/-- No process has been run. -/
def Unrun (_ : Job) (l : List ProcResult) : Prop := l = []

/-- A step of the environment may fail before any process has been run. -/
theorem triple_env {α : Type} {r : Except JsError α} :
    Triple (sole b t j outcomeOf post) a (Now b t j outcomeOf Started) (settle r : Async α)
      (fun _ => Now b t j outcomeOf Started) fun _ => Now b t j outcomeOf Unrun :=
  triple_settle (fun _ _ _ h => h) fun _ _ _ ⟨rec, hl, h⟩ => ⟨rec, hl, h.1⟩

/-- The process that was run ended with `p`. -/
def Ran (p : ProcResult) (rec : Job) (l : List ProcResult) : Prop :=
  l = [p] ∧ rec.status = .running

theorem triple_runProcess (ha : a.tid = t) {file : String} {cfg : LangCfg} :
    Triple (sole b t j outcomeOf post) a (Now b t j outcomeOf Started)
      (do settle (← host (.runProcess cfg file stdin timeoutSec)))
      (fun p => Now b t j outcomeOf (Ran p)) fun _ => Now b t j outcomeOf Unrun := by
  refine Triple.bind (triple_op (o := .host (.runProcess cfg file stdin timeoutSec))
    (R := fun (x : Except JsError ProcResult) rec l =>
      rec.status = .running ∧ l = x.toOption.toList)
    fun w i r s rec hl hφ hs => ?_) fun x => ?_
  · refine ⟨rec, by cases b <;> rfl, hφ.2, ?_⟩
    rw [hφ.1]
    cases r with
    | error err => rfl
    | ok p => simp [outcomeOf, ha, Except.toOption]
  · refine triple_settle (fun p w hx hw => ?_) fun err w hx hw => ?_
    · obtain ⟨rec, hl, hs, hlog⟩ := hw
      exact ⟨rec, hl, hlog.trans (by rw [hx]; rfl), hs⟩
    · obtain ⟨rec, hl, hs, hlog⟩ := hw
      exact ⟨rec, hl, hlog.trans (by rw [hx]; rfl)⟩

/-- The writer assigns the result to what `getJob` has given it. -/
theorem triple_finish {obj : JobObj} (hobj : Held b j obj) {p : ProcResult}
    {startedAt finishedAt : String} {durationMs : ℤ} {E : JsError → World → Prop} :
    Triple (sole b t j outcomeOf post) a (Now b t j outcomeOf (Ran p))
      (assign obj { result := some (some (resultOf j language p startedAt finishedAt durationMs))
                    status := some (resultOf j language p startedAt finishedAt durationMs).status })
      (fun _ => Now b t j outcomeOf (Settled b j language)) E := by
  cases b with
  | memory =>
    obtain rfl : obj = .stored j := hobj
    refine Triple.bind (triple_op (o := .mem (.assign j _))
      (R := fun _ => Settled .memory j language) fun w i r s rec hl hφ hs => ⟨_, if_pos rfl, ?_⟩)
      fun _ => triple_pure fun w h => h
    refine Or.inr ⟨p, by rw [hφ.1]; rfl, startedAt, finishedAt, durationMs, rfl, rfl⟩
  | redis =>
    obtain ⟨job, rfl⟩ := hobj
    exact triple_pure fun w ⟨rec, hl, hlog, hs⟩ => ⟨rec, hl, Or.inr ⟨p, hlog, hs⟩⟩

theorem triple_runFile (ha : a.tid = t) {startedAt file : String} {cfg : LangCfg} :
    Triple (sole b t j outcomeOf post) a (Now b t j outcomeOf Started)
      (runFile b j language stdin timeoutSec startedAt cfg file)
      (fun _ => Now b t j outcomeOf (Settled b j language)) fun _ => Now b t j outcomeOf Unrun := by
  refine (triple_host fun _ => rfl).bind fun startMs => ?_
  refine ((triple_runProcess ha).await (fun _ => stable_now ha) fun _ => stable_now ha).bind
    fun p => ?_
  refine (triple_host fun _ => rfl).bind fun endMs => triple_isoNow.bind fun finishedAt => ?_
  refine ((triple_getJob ha).await_never_throws fun _ => stable_now ha).never_throws.bind
    fun obj => ?_
  refine Triple.of_pre (C := ∃ obj', obj = some obj' ∧ Held b j obj')
    (fun w ⟨_, _, h, _⟩ => h) ?_
  rintro ⟨obj', rfl, hobj⟩
  have hfinish : Triple (sole b t j outcomeOf post) a (Now b t j outcomeOf (Ran p)) (do
      let res := resultOf j language p startedAt finishedAt (endMs - startMs)
      let _ ← assign obj' { result := some (some res), status := some res.status }
      return ()) (fun _ => Now b t j outcomeOf (Settled b j language))
      fun _ => Now b t j outcomeOf Unrun :=
    (triple_finish hobj).bind fun _ => triple_pure fun _ h => h
  exact hfinish.conseq (fun w _ ⟨rec, hl, _, h⟩ => ⟨rec, hl, h⟩) (fun _ _ h => h) fun _ _ h => h

theorem triple_runAndRecord (ha : a.tid = t) {startedAt dir file : String} {cfg : LangCfg} :
    Triple (sole b t j outcomeOf post) a (Now b t j outcomeOf Started)
      (runAndRecord b j language code stdin timeoutSec startedAt dir cfg file)
      (fun _ => Now b t j outcomeOf (Settled b j language)) fun _ => Now b t j outcomeOf Unrun := by
  refine (triple_host fun _ => rfl).bind fun x => triple_env.bind fun _ => ?_
  split_ifs
  · exact (triple_host fun _ => rfl).bind fun y => triple_env.bind fun _ => triple_runFile ha
  · exact triple_runFile ha

/-- **`executeJob`**, with nobody else writing the record. -/
theorem triple_executeJob (ha : a.tid = t) :
    Triple (sole b t j outcomeOf post) a (Now b t j outcomeOf Unrun)
      (executeJob b j language code stdin timeoutSec)
      (fun _ => Now b t j outcomeOf (Settled b j language)) fun _ => Now b t j outcomeOf Unrun := by
  have hstart : Triple (sole b t j outcomeOf post) a (Now b t j outcomeOf Unrun)
      (await (updateJob b j { status := some .running })) (fun _ => Now b t j outcomeOf Started)
      fun _ => Now b t j outcomeOf Unrun :=
    ((triple_updateJob ha fun _ _ _ _ h => ⟨h, rfl⟩).await_never_throws fun _ =>
      stable_now ha).never_throws
  -- the `catch` branch records a failure before any process has been run
  have hcatch : ∀ (startedAt : String) (err : JsError),
      Triple (sole b t j outcomeOf post) a (Now b t j outcomeOf Unrun) (do
        let res := failureOf j language err startedAt (← isoNow)
        await (updateJob b j { status := some .failed, result := some (some res) }))
      (fun _ => Now b t j outcomeOf (Settled b j language)) fun _ => Now b t j outcomeOf Unrun := by
    intro startedAt err
    refine triple_isoNow.bind fun now => Triple.never_throws ?_
    exact (triple_updateJob ha fun _ _ _ _ h => Or.inl h).await_never_throws fun _ => stable_now ha
  refine triple_isoNow.bind fun startedAt => hstart.bind fun _ => ?_
  refine (triple_host fun _ => rfl).bind fun x => triple_env.bind fun dir => ?_
  exact ((triple_runAndRecord ha).tryCatch (hcatch startedAt)).tryFinally
    (fun _ => triple_host fun _ => rfl) fun _ => triple_host fun _ => rfl

/-! ### Runs -/

/-- The call that executes job `j`: where it throws, it has run no process. -/
theorem triple_perform (ha : a.tid = t) :
    Triple (sole b t j outcomeOf post) a (Now b t j outcomeOf Unrun)
      (perform b (.executeJob j language code stdin timeoutSec))
      (fun _ => Now b t j outcomeOf (Settled b j language))
      fun _ => Now b t j outcomeOf (Settled b j language) := by
  have htriple : Triple (sole b t j outcomeOf post) a (Now b t j outcomeOf Unrun)
      (perform b (.executeJob j language code stdin timeoutSec))
      (fun _ => Now b t j outcomeOf (Settled b j language)) fun _ => Now b t j outcomeOf Unrun :=
    (triple_executeJob ha).bind fun _ => triple_pure fun _ h => h
  exact htriple.conseq (fun _ _ h => h) (fun _ _ h => h) fun _ _ ⟨rec, hl, h⟩ => ⟨rec, hl, Or.inl h⟩

/-- **The outcome of a process is recorded in memory, and only there.** Whatever other calls clients
make, as long as none of them writes the record of job `jobId`: when `executeJob` has settled after
a process that ended with `p`, `getJob` returns a record with that outcome if and only if the queue
is the in-memory one. -/
theorem outcome_recorded_iff (b : Backend) {s : Store} {jobId language code : String}
    {stdin : Option String} {timeoutSec : Finite} {job : Job} (hjob : lookup b s jobId = some job)
    {c : Config (clients b fun _ => true)}
    (hc : Reaches (AnyStep (clients b fun _ => true)) (Config.init _ s) c)
    {t : ℕ} {a : Actor} {out : Outcome} (hdone : c.pool[t]? = some (a, .done out))
    (ha : a.tag = .call (.executeJob jobId language code stdin timeoutSec))
    (hone : ∀ (d : Actor) o r, .ran d o r ∈ c.world.log → Touches b jobId o → d.tid = t)
    {cfg : LangCfg} {file : String} {p : ProcResult}
    (hp : .ran a (.host (.runProcess cfg file stdin timeoutSec)) (.ok p) ∈ c.world.log) :
    OutcomeRecorded b c.world.state jobId language p ↔ b = .memory := by
  have htriple : ∀ a, a.tid = t → Triple (sole b t jobId outcomeOf (After b t jobId outcomeOf
      (.executeJob jobId language code stdin timeoutSec) (Settled b jobId language))) a
      (Now b t jobId outcomeOf Unrun)
      (perform b (.executeJob jobId language code stdin timeoutSec))
      (fun _ => Now b t jobId outcomeOf (Settled b jobId language))
      fun _ => Now b t jobId outcomeOf (Settled b jobId language) := fun a hat => triple_perform hat
  obtain ⟨hat, hnow⟩ := now_of_done htriple hjob hc hdone ha hone
  obtain ⟨rec, hl, hsettled⟩ := hnow
  have hmem : p ∈ noted t outcomeOf c.world.log :=
    List.mem_filterMap.mpr ⟨_, hp, if_pos hat⟩
  have hleaves : Leaves b jobId language p rec := by
    rcases hsettled with hnil | ⟨q, hq, h⟩
    · rw [hnil] at hmem; cases hmem
    · rw [hq, List.mem_singleton] at hmem
      exact hmem ▸ h
  cases b with
  | memory =>
    refine iff_of_true ⟨rec, hleaves, fun inp => ?_⟩ rfl
    rw [serve_getJob, hl]
  | redis =>
    exact iff_of_false (not_recorded_of_running hl hleaves) (by simp)

/-- Where one call has been made, it is the only writer. -/
theorem one_writer {c : Config (clients b fun _ => true)} (h : Wf c) (hlen : c.pool.length = 1)
    (d : Actor) (o : Op) (r : o.Answer) (he : .ran d o r ∈ c.world.log) : d.tid = 0 := by
  obtain ⟨p, hp⟩ := h.log _ he
  have hlt : d.tid < c.pool.length := (List.getElem?_eq_some_iff.mp hp).1
  omega

end

/-! ### Two runs -/

/-- The stored job is executed. -/
def execution : Call := .executeJob "job" "python" "print(1)" none 30

def executed : Backend → List (Label Task Input)
  | .memory => .arrive (.call execution) ::
      turn 0 3 {} ++ turn 0 5 {} ++ turn 0 4 {} ++ turn 0 3 {}
  | .redis => .arrive (.call execution) ::
      turn 0 2 {} ++ turn 0 2 {} ++ turn 0 1 {} ++ turn 0 2 {} ++ turn 0 2 {} ++ turn 0 1 {} ++
      turn 0 5 {} ++ turn 0 3 {} ++ turn 0 2 {} ++ turn 0 1 {} ++ turn 0 2 {}

/-- The process that was run. -/
def printed : Op :=
  .host (.runProcess (LANG_INTERPRETER "python") (join "/tmp/ch-" "code.py") none 30)

/-- The result that is recorded in memory. -/
theorem outcome_recorded_run : ∃ c, (Config.init (clients .memory fun _ => true)
    (oneJob .memory)).run (executed .memory) = some c ∧
    OutcomeRecorded .memory c.world.state "job" "python" ⟨"", "", 0, none⟩ := by
  obtain ⟨c, hc⟩ : ∃ c, (Config.init (clients .memory fun _ => true) (oneJob .memory)).run
      (executed .memory) = some c := Option.isSome_iff_exists.mp rfl
  have hdone : ((Config.init (clients .memory fun _ => true) (oneJob .memory)).run
      (executed .memory)).bind (fun c => c.pool[0]?) =
      some (⟨0, .call execution, 0⟩, .done (.returned (.ok none))) := rfl
  have hran : ((Config.init (clients .memory fun _ => true) (oneJob .memory)).run
      (executed .memory)).bind (fun c => c.world.log[6]?) =
      some (.ran ⟨0, .call execution, 0⟩ printed (.ok ⟨"", "", 0, none⟩)) := rfl
  have hlen : ((Config.init (clients .memory fun _ => true) (oneJob .memory)).run
      (executed .memory)).map (fun c => c.pool.length) = some 1 := rfl
  rw [hc, Option.bind_some] at hdone hran
  rw [hc, Option.map_some, Option.some.injEq] at hlen
  have hr := reaches_of_run hc
  refine ⟨c, hc, (outcome_recorded_iff .memory rfl hr hdone rfl (fun d o r he _ => ?_)
    (List.mem_of_getElem? hran)).mpr rfl⟩
  exact one_writer (hr.wf (.init _)) hlen d o r he

/-- On Redis the record is left at `running`. -/
theorem outcome_not_recorded : ∃ c, (Config.init (clients .redis fun _ => true)
    (oneJob .redis)).run (executed .redis) = some c ∧
    c.pool[0]? = some (⟨0, .call execution, 0⟩, .done (.returned (.ok none))) ∧
    (∀ d o r, .ran d o r ∈ c.world.log → d.tid = 0) ∧
    .ran ⟨0, .call execution, 0⟩ printed (.ok ⟨"", "", 0, none⟩) ∈ c.world.log ∧
    ¬ OutcomeRecorded .redis c.world.state "job" "python" ⟨"", "", 0, none⟩ := by
  obtain ⟨c, hc⟩ : ∃ c, (Config.init (clients .redis fun _ => true) (oneJob .redis)).run
      (executed .redis) = some c := Option.isSome_iff_exists.mp rfl
  have hdone : ((Config.init (clients .redis fun _ => true) (oneJob .redis)).run
      (executed .redis)).bind (fun c => c.pool[0]?) =
      some (⟨0, .call execution, 0⟩, .done (.returned (.ok none))) := rfl
  have hran : ((Config.init (clients .redis fun _ => true) (oneJob .redis)).run
      (executed .redis)).bind (fun c => c.world.log[8]?) =
      some (.ran ⟨0, .call execution, 0⟩ printed (.ok ⟨"", "", 0, none⟩)) := rfl
  have hlen : ((Config.init (clients .redis fun _ => true) (oneJob .redis)).run
      (executed .redis)).map (fun c => c.pool.length) = some 1 := rfl
  have hstatus : ((Config.init (clients .redis fun _ => true) (oneJob .redis)).run
      (executed .redis)).bind (fun c => (lookup .redis c.world.state "job").map (·.status)) =
      some .running := rfl
  rw [hc, Option.bind_some] at hdone hran hstatus
  rw [hc, Option.map_some, Option.some.injEq] at hlen
  obtain ⟨rec, hl, hrunning⟩ := Option.map_eq_some_iff.mp hstatus
  refine ⟨c, hc, hdone, one_writer ((reaches_of_run hc).wf (.init _)) hlen,
    List.mem_of_getElem? hran, not_recorded_of_running hl hrunning⟩

end CodeHive.Api.InlineOutcome
