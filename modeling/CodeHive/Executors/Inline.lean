import CodeHive.Api.Alone
import CodeHive.Executors.Programs

/-! # What an inline execution records

The tools take the place of the environment of `executeJob`: files are written, and commands find
them. Left alone on the in-memory queue, `executeJob` then records the execution of what `apiReport`
says that it runs. -/

namespace CodeHive.Executors.Inline

set_option autoImplicit false

open CodeHive.Js.Value CodeHive.Api.Types CodeHive.Api.Stores CodeHive.Api.Program
open CodeHive.Api.Queue CodeHive.Api.Executor CodeHive.Api.Process CodeHive.Api.System
open CodeHive.Api.History CodeHive.Api.Records
open CodeHive.Concurrency.Calls CodeHive.Concurrency.Pool CodeHive.Concurrency.Solo
open CodeHive.Os.Executions
open CodeHive.Os.Toolchains (Toolchain Tools Files Content Report)
open CodeHive.Executors.Classification CodeHive.Executors.Programs

variable {T : Toolchain}

/-- The file in a command `javac "file"`. -/
def javacFile (command : String) : String := String.ofList (command.toList.drop 7).dropLast

theorem javacFile_command (file : String) : javacFile s!"javac \"{file}\"" = file := by
  have hlist : (s!"javac \"{file}\"").toList = "javac \"".toList ++ (file.toList ++ ['"']) := by
    simp [toString]
  have hseven : ("javac \"".toList ++ (file.toList ++ ['"'])).drop 7 = file.toList ++ ['"'] := rfl
  unfold javacFile
  rw [hlist, hseven, List.dropLast_concat, String.ofList_toList]

/-- What the tools make of a primitive of the environment; `observe` is how the reports of commands
are seen. -/
def toolExec (tools : Tools T) (observe : Report T.Program → Execution) (o : Op) (i : Input)
    (s : Store × Files T.Program) : Option (o.Answer × Store × Files T.Program) :=
  match o with
  | .host (.writeFileSync file code) =>
    some (.ok (), s.1, Function.update s.2 file (some (.source code)))
  | .host (.execSync command) =>
    let x := tools s.2 "javac" [javacFile command] ""
    some (if x.1.exitCode = 0 then .ok () else .error (.error "Command failed"),
      s.1, x.2)
  | .host (.runProcess cfg file stdin _) =>
    let x := tools s.2 cfg.cmd (args cfg file) (stdin.getD "")
    (runProcess (observe x.1)).map fun answer => (answer, s.1, x.2)
  | o => (exec o i s.1).map fun x => (x.1, x.2, s.2)

/-- The machine of the API, with the tools. -/
@[reducible] def toolMachine (tools : Tools T) (observe : Report T.Program → Execution) :
    Machine api := ⟨Store × Files T.Program, Input, toolExec tools observe⟩

section
variable (tools : Tools T) (observe : Report T.Program → Execution) (env : Op → Input) {s s' : Store}
  {fs : Files T.Program} {jobId language code : String} {stdin : Option String} {job : Job}

/-! ### Primitives -/

/-- The clock. -/
theorem settles_now : Settles (M := toolMachine tools observe) env (host .now) (s, fs)
    (.ok (env (.host .now)).ms) (s, fs) := Settles.call rfl

theorem settles_isoNow : Settles (M := toolMachine tools observe) env isoNow (s, fs)
    (.ok (toISOString (env (.host .now)).ms)) (s, fs) :=
  (settles_now tools observe env).bind (Settles.pure _ _ _)

/-- The queue is what it is without the tools. -/
theorem settles_mem {c : MemCall} {r : c.Answer} (h : c.exec (env (.mem c)) s = some (r, s')) :
    Settles (M := toolMachine tools observe) env (mem c) (s, fs) (.ok r) (s', fs) := by
  refine Settles.call ?_
  have hexec : toolExec tools observe (.mem c) (env (.mem c)) (s, fs) =
      (c.exec (env (.mem c)) s).map fun x => (x.1, x.2, fs) := rfl
  rw [h] at hexec
  exact hexec

/-- A process is run to its end. -/
theorem settles_runProcess (s : Store) {cfg : LangCfg} {file : String} {p : ProcResult}
    (timeoutSec : Finite)
    (hp : runProcess (observe (tools fs cfg.cmd (args cfg file) (stdin.getD "")).1) = some (.ok p)) :
    ∃ fs', Settles (M := toolMachine tools observe) env (do
      settle (← host (.runProcess cfg file stdin timeoutSec))) (s, fs) (.ok p) (s, fs') := by
  have hexec : toolExec tools observe (.host (.runProcess cfg file stdin timeoutSec))
      (env (.host (.runProcess cfg file stdin timeoutSec))) (s, fs) =
      (runProcess (observe (tools fs cfg.cmd (args cfg file) (stdin.getD "")).1)).map fun answer =>
        (answer, s, (tools fs cfg.cmd (args cfg file) (stdin.getD "")).2) := rfl
  rw [hp] at hexec
  exact ⟨_, (Settles.call hexec).bind (Settles.settle _ _ _)⟩

/-- Fields of the record are assigned. -/
theorem settles_assign (fs : Files T.Program) (hjob : lookup .memory s jobId = some job)
    (u : PartialJob) : ∃ s',
    Settles (M := toolMachine tools observe) env (assign (.stored jobId) u) (s, fs)
      (.ok (.stored jobId)) (s', fs) ∧
    lookup .memory s' jobId = some (job.assign u) := by
  have hrecord : s.mem.jobs jobId = some job := hjob
  have hexec : MemCall.exec (.assign jobId u) (env (.mem (.assign jobId u))) s =
      some ((), { s with mem := s.mem.assign jobId u }) := by
    show (s.mem.jobs jobId).map _ = _
    rw [hrecord]
    rfl
  refine ⟨_, (settles_mem tools observe env hexec).bind (Settles.pure _ _ _), ?_⟩
  exact (jobs_exec hexec jobId).trans ((map_at hrecord _ jobId).trans (if_pos rfl))

theorem settles_updateJob (fs : Files T.Program) (hjob : lookup .memory s jobId = some job)
    (u : PartialJob) : ∃ s' now,
    Settles (M := toolMachine tools observe) env (updateJob .memory jobId u) (s, fs) (.ok ())
      (s', fs) ∧
    lookup .memory s' jobId = some (job.update u now) := by
  have hrecord : s.mem.jobs jobId = some job := hjob
  have hupdate (now : String) : (s.mem.updateJob jobId u now).1 = .ok () := by
    simp only [MemoryQueue.updateJob, hrecord]
  have hexec : MemCall.exec (.updateJob jobId u) (env (.mem (.updateJob jobId u))) s =
      some (.ok (), { s with mem := (s.mem.updateJob jobId u
        (toISOString (env (.mem (.updateJob jobId u))).ms)).2 }) := by
    rw [← hupdate]
    rfl
  refine ⟨_, toISOString (env (.mem (.updateJob jobId u))).ms,
    (settles_mem tools observe env hexec).bind (Settles.settle _ _ _), ?_⟩
  exact (jobs_exec hexec jobId).trans ((map_at hrecord _ jobId).trans (if_pos rfl))

/-! ### `executeJob` -/

/-- The record has the result of a process that ended with `p`. -/
def Recorded (jobId language : String) (p : ProcResult) (s : Store) : Prop :=
  ∃ rec startedAt finishedAt durationMs, lookup .memory s jobId = some rec ∧
    rec.result = some (resultOf jobId language p startedAt finishedAt durationMs) ∧
    rec.status = (resultOf jobId language p startedAt finishedAt durationMs).status

/-- The process is run, and its result is recorded. -/
theorem settles_runFile (hjob : lookup .memory s jobId = some job) (cfg : LangCfg)
    (language file startedAt : String) {p : ProcResult} (timeoutSec : Finite)
    (hp : runProcess (observe (tools fs cfg.cmd (args cfg file) (stdin.getD "")).1) = some (.ok p)) :
    ∃ s' fs', Settles (M := toolMachine tools observe) env
      (runFile .memory jobId language stdin timeoutSec startedAt cfg file) (s, fs) (.ok ()) (s', fs') ∧
    Recorded jobId language p s' := by
  obtain ⟨fs', hrun⟩ := settles_runProcess tools observe env s timeoutSec hp
  have hrecord : s.mem.jobs jobId = some job := hjob
  have hget : Settles (M := toolMachine tools observe) env (getJob .memory jobId) (s, fs')
      (.ok (some (.stored jobId))) (s, fs') := by
    refine settles_mem tools observe env ?_
    simp [MemCall.exec, MemoryQueue.getJob, hrecord]
  have hassign := settles_assign tools observe env fs' hjob
    { result := some (some (resultOf jobId language p startedAt
        (toISOString (env (.host .now)).ms) ((env (.host .now)).ms - (env (.host .now)).ms)))
      status := some (resultOf jobId language p startedAt (toISOString (env (.host .now)).ms)
        ((env (.host .now)).ms - (env (.host .now)).ms)).status }
  obtain ⟨s', hassign, hjob'⟩ := hassign
  refine ⟨s', fs', ?_, _, _, _, _, hjob', rfl, rfl⟩
  exact (settles_now tools observe env).bind (hrun.await.bind ((settles_now tools observe env).bind
    ((settles_isoNow tools observe env).bind (hget.await.bind (hassign.bind
      (Settles.pure _ _ _))))))

/-- The source is written. -/
theorem settles_writeFile (s : Store) (file code : String) :
    Settles (M := toolMachine tools observe) env (do settle (← host (.writeFileSync file code)))
      (s, fun _ => none) (.ok ()) (s, sourceFile file code) := by
  have hfiles : Function.update (fun _ => none) file (some (.source code)) =
      (sourceFile file code : Files T.Program) := by
    funext f
    rw [Function.update_apply]
    rfl
  have hexec : toolExec tools observe (.host (.writeFileSync file code))
      (env (.host (.writeFileSync file code))) (s, fun _ => none) =
      some (.ok (), s, Function.update (fun _ => none) file (some (.source code))) := rfl
  rw [hfiles] at hexec
  exact (Settles.call hexec).bind (Settles.settle _ _ _)

/-- `javac` succeeds. -/
theorem settles_javac (s : Store) (fs : Files T.Program) (file : String)
    (h : (tools fs "javac" [file] "").1.exitCode = 0) :
    Settles (M := toolMachine tools observe) env (do
      settle (← host (.execSync s!"javac \"{file}\""))) (s, fs) (.ok ())
      (s, (tools fs "javac" [file] "").2) := by
  have hexec : toolExec tools observe (.host (.execSync s!"javac \"{file}\""))
      (env (.host (.execSync s!"javac \"{file}\""))) (s, fs) =
      some (if (tools fs "javac" [javacFile s!"javac \"{file}\""] "").1.exitCode = 0 then .ok ()
          else .error (.error "Command failed"),
        s, (tools fs "javac" [javacFile s!"javac \"{file}\""] "").2) := rfl
  rw [javacFile_command, if_pos h] at hexec
  exact (Settles.call hexec).bind (Settles.settle _ _ _)

/-- **The source is written, compiled if it is Java, and run.** -/
theorem settles_runAndRecord (hjob : lookup .memory s jobId = some job) {dir file : String}
    (startedAt : String) {report : Report T.Program} {p : ProcResult} (timeoutSec : Finite)
    (hfile : file = join dir (if language = "java" then "Main.java"
      else "code" ++ (LANG_INTERPRETER language).ext))
    (hreport : apiReport tools dir language code stdin = some report)
    (hp : runProcess (observe report) = some (.ok p)) :
    ∃ s' fs', Settles (M := toolMachine tools observe) env
      (runAndRecord .memory jobId language code stdin timeoutSec startedAt dir
        (LANG_INTERPRETER language) file) (s, fun _ => none) (.ok ()) (s', fs') ∧
    Recorded jobId language p s' := by
  have hwrite := settles_writeFile tools observe env s file code
  unfold apiReport at hreport
  simp only [← hfile] at hreport
  unfold runAndRecord
  by_cases hlang : language = "java"
  · rw [if_pos hlang] at hreport
    split at hreport
    · next hjavac =>
      obtain rfl := Option.some.inj hreport
      obtain ⟨s', fs', hrun, hrec⟩ := settles_runFile tools observe env hjob
        { cmd := "java", ext := ".java", args := some ["-cp", dir, "Main"] } language file startedAt
        timeoutSec hp
      refine ⟨s', fs', ?_, hrec⟩
      simp only [if_pos hlang]
      exact hwrite.bind ((settles_javac tools observe env s _ _ hjavac).bind hrun)
    · cases hreport
  · rw [if_neg hlang] at hreport
    obtain rfl := Option.some.inj hreport
    obtain ⟨s', fs', hrun, hrec⟩ := settles_runFile tools observe env hjob
      (LANG_INTERPRETER language) language file startedAt timeoutSec hp
    refine ⟨s', fs', ?_, hrec⟩
    simp only [if_neg hlang]
    exact hwrite.bind hrun

/-- **What an inline execution records**, left alone: how what the API runs has ended. -/
theorem settles_executeJob (hjob : lookup .memory s jobId = some job) {dir : String}
    (hdir : (env (.host .mkdtempSync)).dir = .ok dir) {report : Report T.Program} {p : ProcResult}
    (timeoutSec : Finite) (hreport : apiReport tools dir language code stdin = some report)
    (hp : runProcess (observe report) = some (.ok p)) :
    ∃ s' fs', Settles (M := toolMachine tools observe) env
      (executeJob .memory jobId language code stdin timeoutSec) (s, fun _ => none) (.ok ())
      (s', fs') ∧ Recorded jobId language p s' := by
  obtain ⟨s₁, now, hrunning, hjob₁⟩ := settles_updateJob tools observe env (fun _ => none)
    hjob { status := some .running }
  obtain ⟨s', fs', hrun, hrec⟩ := settles_runAndRecord tools observe env hjob₁
    (toISOString (env (.host .now)).ms) timeoutSec rfl hreport hp
  have hmkdtemp : Settles (M := toolMachine tools observe) env (do
      settle (← host .mkdtempSync)) (s₁, fun _ => none) (.ok dir) (s₁, fun _ => none) := by
    have hcall : Settles (M := toolMachine tools observe) env (host .mkdtempSync)
        (s₁, fun _ => none) (.ok (env (.host .mkdtempSync)).dir) (s₁, fun _ => none) :=
      Settles.call rfl
    rw [hdir] at hcall
    exact hcall.bind (Settles.settle _ _ _)
  have hrm : Settles (M := toolMachine tools observe) env (host (.rmSync dir)) (s', fs') (.ok ())
      (s', fs') := Settles.call rfl
  refine ⟨s', fs', ?_, hrec⟩
  exact (settles_isoNow tools observe env).bind (hrunning.await.bind
    (hmkdtemp.bind (hrun.tryCatch.tryFinally hrm)))

end

end CodeHive.Executors.Inline
