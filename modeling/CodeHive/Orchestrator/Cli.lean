import CodeHive.Go.Durations
import CodeHive.Orchestrator.Progress
import CodeHive.Orchestrator.WorkerApi

/-! # The command `run`

`runExecute` of `cmd/main.go` starts a dispatcher with one worker, submits one job, waits for its
result, stops the dispatcher, prints and exits; the worker loop runs beside it. Where `Execute`
returns, this comes to its end and shows what was returned (`cli_exits`). -/

namespace CodeHive.Orchestrator.Cli

set_option autoImplicit false

open CodeHive.Concurrency.Interleaving CodeHive.Concurrency.Settling CodeHive.Go.Sync
open CodeHive.Go.Durations
open CodeHive.Orchestrator.Types CodeHive.Orchestrator.Runner CodeHive.Orchestrator.JobFlow
open CodeHive.Orchestrator.Outcomes CodeHive.Orchestrator.Stopping
open CodeHive.Orchestrator.Conservation CodeHive.Orchestrator.Progress

/-! ### What is run -/

structure Flags where
  lang : String
  code : String
  file : String
  stdin : String
  timeout : ℤ

/-- The defaults of the flags. -/
def defaults : Flags := ⟨"python", "", "", "", 30⟩

def cliRequest (pid : ℕ) (flags : Flags) (code : String) : ExecutionRequest where
  ID := "cli-" ++ toString pid
  Language := flags.lang
  Code := code
  Stdin := flags.stdin
  Timeout := flags.timeout
  MemoryLimit := 0
  CreatedAt := WorkerApi.zeroTime

/-- The request of process `pid`, or what it dies of; `readFile` is what the file system makes of a
path. -/
def requestOf (pid : ℕ) (readFile : String → Except String String) (flags : Flags) :
    Except String ExecutionRequest := do
  let code ←
    if flags.file ≠ "" then
      match readFile flags.file with
      | .error err => .error ("failed to read file: " ++ err)
      | .ok data => .ok data
    else .ok flags.code
  if code = "" then .error "code or file flag required" else return cliRequest pid flags code

/-- **What may be run**: what is in the file, or in the flag where no file is named, unless it is
empty. -/
theorem requestOf_ok_iff {pid : ℕ} {readFile : String → Except String String} {flags : Flags}
    {req : ExecutionRequest} : requestOf pid readFile flags = .ok req ↔
      (if flags.file ≠ "" then readFile flags.file else .ok flags.code) = .ok req.Code ∧
        req.Code ≠ "" ∧ req = cliRequest pid flags req.Code := by
  have hcode : ∀ code, (if code = "" then (.error "code or file flag required" : Except String _)
      else .ok (cliRequest pid flags code)) = .ok req ↔
        code = req.Code ∧ req.Code ≠ "" ∧ req = cliRequest pid flags req.Code := by
    intro code
    by_cases hempty : code = ""
    · rw [if_pos hempty]
      refine iff_of_false (by simp) fun h => h.2.1 (h.1.symm.trans hempty)
    · rw [if_neg hempty]
      constructor
      · intro h
        cases h
        exact ⟨rfl, hempty, rfl⟩
      · rintro ⟨h, -, hreq⟩
        rw [h, ← hreq]
  unfold requestOf
  by_cases hfile : flags.file ≠ ""
  · rw [if_pos hfile, if_pos hfile]
    cases hread : readFile flags.file with
    | error err => exact iff_of_false (fun h => by cases h) fun h => by cases h.1
    | ok data => exact (hcode data).trans (and_congr_left' (by simp))
  · rw [if_neg hfile, if_neg hfile]
    exact (hcode flags.code).trans (and_congr_left' (by simp))

/-- A part of the output that is left out where there is nothing to show. -/
def shown (title text : String) : String := if text ≠ "" then title ++ text ++ "\n" else ""

/-- What is printed. -/
def printed (result : ExecutionResult) : String :=
  "Exit Code: " ++ toString result.ExitCode ++ "\n" ++
    "Duration: " ++ Duration.String result.Duration ++ "\n" ++
    shown "Stdout:\n" result.Stdout ++ shown "Stderr:\n" result.Stderr ++
    shown "Error: " result.Error

/-! ### The process -/

/-- Where `runExecute` is, from where the dispatcher is started. -/
inductive Main where
  | starting
  /-- In `Submit`. -/
  | submitting
  /-- At `<-resultCh`. -/
  | receiving
  | received (result : ExecutionResult)
  /-- In `Stop`. -/
  | stopping (result : ExecutionResult)
  | exited (result : ExecutionResult)

structure State where
  runner : Runner.State
  main : Main

inductive Event where
  | runner (e : Runner.Event)
  /-- The process has printed and exited. -/
  | exited (stdout : String) (code : ℤ)

inductive Label where
  /-- `runExecute` goes on. -/
  | main
  /-- The worker loop goes on. -/
  | loop (i : ℕ) (step : LoopStep)

/-- `runExecute` goes on. -/
def State.next (req : ExecutionRequest) (s : State) : Option (State × List Event) :=
  match s.main with
  | .starting => some (⟨s.runner.submit req WorkerApi.zeroTime 0, .submitting⟩, [])
  | .submitting => (s.runner.send 0).map fun r => (⟨r, .receiving⟩, [.runner (.sent 0)])
  | .receiving => (s.runner.receive 0).map fun x =>
    (⟨x.2, .received x.1⟩, [.runner (.delivered 0 x.1)])
  | .received result =>
    some (⟨{ s.runner with stops := s.runner.stops ++ [.calling] }, .stopping result⟩, [])
  | .stopping result =>
    match s.runner.stops[0]? with
    | some Stopper.returned =>
      some (⟨s.runner, .exited result⟩, [.exited (printed result) result.ExitCode])
    | _ => (s.runner.stop 0).map fun r => (⟨r, .stopping result⟩, [])
  | .exited _ => none

/-- **The process**, once it has its request; with `os.Exit` the worker loop is gone too. -/
def cli (req : ExecutionRequest) : Automaton State Label Event where
  step s
    | .main => s.next req
    | .loop i step =>
      match s.main with
      | .exited _ => none
      | _ => (s.runner.workerLoop i step).map fun x => (⟨x.1, s.main⟩, x.2.map .runner)

def begin : State := ⟨start 1, .starting⟩

def runnerEvent : Event → Option Runner.Event
  | .runner e => some e
  | .exited _ _ => none

def exitOf : Event → Option (String × ℤ)
  | .runner _ => none
  | .exited stdout code => some (stdout, code)

/-! ### What a step can do -/

/-- **The moves of the process.** -/
inductive Move (req : ExecutionRequest) : State → State → List Event → Prop where
  | submit (r : Runner.State) :
      Move req ⟨r, .starting⟩ ⟨r.submit req WorkerApi.zeroTime 0, .submitting⟩ []
  | send {r r' : Runner.State} (hr : r.send 0 = some r') :
      Move req ⟨r, .submitting⟩ ⟨r', .receiving⟩ [.runner (.sent 0)]
  | receive {r r' : Runner.State} {result : ExecutionResult}
      (hr : r.receive 0 = some (result, r')) :
      Move req ⟨r, .receiving⟩ ⟨r', .received result⟩ [.runner (.delivered 0 result)]
  | callStop (r : Runner.State) (result : ExecutionResult) :
      Move req ⟨r, .received result⟩ ⟨{ r with stops := r.stops ++ [.calling] }, .stopping result⟩ []
  | exit {r : Runner.State} (result : ExecutionResult) (hr : r.stops[0]? = some .returned) :
      Move req ⟨r, .stopping result⟩ ⟨r, .exited result⟩
        [.exited (printed result) result.ExitCode]
  | stop {r r' : Runner.State} (result : ExecutionResult) (hr : r.stop 0 = some r') :
      Move req ⟨r, .stopping result⟩ ⟨r', .stopping result⟩ []
  | loop {r r' : Runner.State} {m : Main} {i : ℕ} {step : LoopStep} {es : List Runner.Event}
      (hm : ∀ result, m ≠ .exited result) (hr : r.workerLoop i step = some (r', es)) :
      Move req ⟨r, m⟩ ⟨r', m⟩ (es.map .runner)

section
variable {req : ExecutionRequest} {s s' : State} {es new : List Event}

theorem move_of_step {l : Label} (h : (cli req).step s l = some (s', new)) :
    Move req s s' new := by
  obtain ⟨r, m⟩ := s
  cases l with
  | main =>
    cases m with
    | starting => cases h; exact .submit r
    | submitting =>
      obtain ⟨r', hr, h⟩ := Option.map_eq_some_iff.mp h
      cases h
      exact .send hr
    | receiving =>
      obtain ⟨⟨result, r'⟩, hr, h⟩ := Option.map_eq_some_iff.mp h
      cases h
      exact .receive hr
    | received result => cases h; exact .callStop r result
    | stopping result =>
      unfold cli State.next at h
      simp only at h
      split at h
      · next hret => cases h; exact .exit result hret
      · obtain ⟨r', hr, h⟩ := Option.map_eq_some_iff.mp h
        cases h
        exact .stop result hr
    | exited result => cases h
  | loop i step =>
    cases m with
    | exited result => cases h
    | _ =>
      obtain ⟨⟨r', es⟩, hr, h⟩ := Option.map_eq_some_iff.mp h
      cases h
      exact .loop (by simp) hr

theorem filterMap_map_runner (es : List Runner.Event) :
    (es.map Event.runner).filterMap runnerEvent = es := by
  rw [List.filterMap_map]
  exact List.filterMap_some

/-- **The dispatcher is a part of the process.** -/
theorem runner_part : Part (cli req) runner State.runner runnerEvent where
  step s l s' new hs := by
    cases move_of_step hs with
    | submit r => exact .inr ⟨.submit req WorkerApi.zeroTime 0, rfl⟩
    | send hr => exact .inr ⟨.send 0, Option.map_eq_some_iff.mpr ⟨_, hr, rfl⟩⟩
    | receive hr => exact .inr ⟨.receive 0, Option.map_eq_some_iff.mpr ⟨_, hr, rfl⟩⟩
    | callStop r result => exact .inr ⟨.callStop, rfl⟩
    | exit result hr => exact .inl ⟨rfl, rfl⟩
    | stop result hr => exact .inr ⟨.stop 0, Option.map_eq_some_iff.mpr ⟨_, hr, rfl⟩⟩
    | @loop r r' m i step es hm hr =>
      exact .inr ⟨.loop i step, by rw [filterMap_map_runner]; exact hr⟩

theorem runner_reaches (h : Reaches (cli req) begin es s) :
    Reaches runner (start 1) (es.filterMap runnerEvent) s.runner :=
  runner_part.reaches h

/-! ### What `runExecute` has done -/

/-- The result that `runExecute` has received. -/
def Main.result : Main → Option ExecutionResult
  | .received r | .stopping r | .exited r => some r
  | _ => none

/-- **What `runExecute` has done** when it is where it is. -/
structure Done (req : ExecutionRequest) (es : List Event) (s : State) : Prop where
  jobs : s.runner.jobs = match s.main with
    | .starting => []
    | _ => [⟨req, 0, WorkerApi.zeroTime, 0⟩]
  submitting : s.runner.submitting = match s.main with
    | .submitting => [0]
    | _ => []
  stops : s.runner.stops.length = match s.main with
    | .stopping _ | .exited _ => 1
    | _ => 0
  delivered : deliveries 0 (es.filterMap runnerEvent) = s.main.result.toList
  exits : es.filterMap exitOf = match s.main with
    | .exited r => [(printed r, r.ExitCode)]
    | _ => []
  returned : ∀ r, s.main = .exited r → s.runner.stops[0]? = some .returned
  /-- `stopCh` is open until `Stop` is called. -/
  unstopped : s.runner.stops = [] → s.runner.d.stopCh = false
  kept : dequeues (es.filterMap runnerEvent) = []

theorem done_begin : Done req [] begin where
  jobs := rfl
  submitting := rfl
  stops := rfl
  delivered := rfl
  exits := rfl
  returned r h := by cases h
  unstopped _ := rfl
  kept := rfl

theorem deliveries_append (es es' : List Runner.Event) (chan : ℕ) :
    deliveries chan (es ++ es') = deliveries chan es ++ deliveries chan es' :=
  List.filterMap_append

theorem exits_map_runner (es : List Runner.Event) :
    (es.map Event.runner).filterMap exitOf = [] :=
  List.filterMap_eq_nil_iff.mpr fun e he => by
    obtain ⟨e, -, rfl⟩ := List.mem_map.mp he
    rfl

theorem Done.move (h : Done req es s) (hchans : s.runner.chans.length = s.runner.jobs.length)
    (hm : Move req s s' new) : Done req (es ++ new) s' := by
  obtain ⟨hjobs, hsub, hstops, hdel, hexits, hret, hopen, hkept⟩ := h
  have hrunner : (es ++ new).filterMap runnerEvent =
      es.filterMap runnerEvent ++ new.filterMap runnerEvent := List.filterMap_append
  have hexit : (es ++ new).filterMap exitOf = es.filterMap exitOf ++ new.filterMap exitOf :=
    List.filterMap_append
  have hkept' : dequeues ((es ++ new).filterMap runnerEvent) =
      dequeues (new.filterMap runnerEvent) := by
    rw [hrunner, dequeues, List.filterMap_append]
    exact congrArg (· ++ dequeues (new.filterMap runnerEvent)) hkept
  cases hm with
  | submit r =>
    simp only at hjobs hsub hstops hdel hexits hchans hopen
    rw [hjobs] at hchans
    refine ⟨?_, ?_, hstops, ?_, ?_, fun _ h => (by cases h), hopen, hkept'⟩
    · simp [Runner.State.submit, hjobs, hchans]
    · simp [Runner.State.submit, hjobs, hsub]
    · rwa [List.append_nil]
    · rwa [List.append_nil]
  | @send r r' hr =>
    cases Runner.move_of_send hr with
    | send hjob hq =>
      refine ⟨hjobs, ?_, hstops, ?_, ?_, fun _ h => (by cases h), hopen, hkept'⟩
      · show r.submitting.erase 0 = []
        rw [show r.submitting = [0] from hsub]
        rfl
      · rw [hrunner, deliveries_append, hdel]
        rfl
      · rw [hexit, hexits]
        rfl
  | @receive r r' result hr =>
    cases Runner.move_of_receive hr with
    | receive hc hrecv =>
      refine ⟨hjobs, hsub, hstops, ?_, ?_, fun _ h => (by cases h), hopen, hkept'⟩
      · rw [hrunner, deliveries_append, hdel]
        rfl
      · rw [hexit, hexits]
        rfl
  | callStop r result =>
    refine ⟨hjobs, hsub, ?_, ?_, ?_, fun _ h => (by cases h), fun h => ?_, hkept'⟩
    · rw [List.length_append, hstops]
      rfl
    · rw [List.append_nil, hdel]
      rfl
    · rwa [List.append_nil]
    · exact absurd h (List.append_ne_nil_of_right_ne_nil _ (List.cons_ne_nil _ _))
  | @exit r result hr =>
    refine ⟨hjobs, hsub, hstops, ?_, ?_, fun _ _ => hr, hopen, hkept'⟩
    · rw [hrunner, deliveries_append, hdel]
      rfl
    · rw [hexit, hexits]
      rfl
  | @stop r r' result hr =>
    obtain ⟨hsub', hstops'⟩ := stop_private hr
    refine ⟨(Runner.move_of_stop hr).jobs.trans hjobs, hsub'.trans hsub, hstops'.trans hstops, ?_,
      ?_, fun _ h => (by cases h), fun h => ?_, hkept'⟩
    · rwa [List.append_nil]
    · rwa [List.append_nil]
    · have hlen := hstops'.trans hstops
      rw [h] at hlen
      cases hlen
  | @loop r r' m i step es' hm hr =>
    have hprivate := loop_private hr
    refine ⟨(Runner.move_of_workerLoop hr).jobs.trans hjobs, hprivate.submitting.trans hsub,
      (congrArg List.length hprivate.stops).trans hstops, ?_, ?_,
      fun result h => absurd h (hm result), fun h => ?_, ?_⟩
    · have hdel' : deliveries 0 es' = [] := List.eq_nil_iff_forall_not_mem.mpr fun r hr =>
        hprivate.delivered 0 r (mem_deliveries.mp hr)
      rw [hrunner, deliveries_append, filterMap_map_runner, hdel', List.append_nil]
      exact hdel
    · rw [hexit, exits_map_runner, List.append_nil]
      exact hexits
    · exact hprivate.stopCh.trans (hopen (hprivate.stops.symm.trans h))
    · rw [hkept', filterMap_map_runner]
      refine List.filterMap_eq_nil_iff.mpr fun e he => ?_
      cases e with
      | dequeued job => exact absurd he (hprivate.dequeued job)
      | _ => rfl

theorem done (h : Reaches (cli req) begin es s) : Done req es s :=
  h.keeps done_begin fun _ _ _ _ _ hr hd hs =>
    hd.move (settled (runner_reaches hr)).chans (move_of_step hs)

/-! ### The process ends -/

/-- How many steps `runExecute` makes at most, and those of the worker loop that follow from them. -/
def mainWork : Main → ℕ
  | .starting => 13
  | .submitting => 5
  | .receiving => 5
  | .received _ => 4
  | .stopping _ => 1
  | .exited _ => 0

/-- **The work that is left to the process.** -/
def work (s : State) : ℕ := mainWork s.main + Progress.work s.runner

theorem work_move (hm : Move req s s' new) : work s' < work s := by
  cases hm with
  | submit r =>
    simp only [work, mainWork, Progress.work, Runner.State.submit, List.length_append,
      List.length_singleton, List.map_append, List.sum_append, List.map_singleton,
      List.sum_singleton, Chan.make, List.length_nil]
    omega
  | @send r r' hr =>
    have hless := work_send hr
    simp only [work, mainWork]
    omega
  | @receive r r' result hr =>
    have hless := work_receive hr
    simp only [work, mainWork]
    omega
  | callStop r result =>
    simp only [work, mainWork, Progress.work, List.map_append, List.sum_append, List.map_singleton,
      List.sum_singleton, stopWork]
    omega
  | exit result hr =>
    simp only [work, mainWork]
    omega
  | @stop r r' result hr =>
    have hless := work_stop hr
    simp only [work]
    omega
  | @loop r r' m i step es hm hr =>
    have hless := work_loop hr
    simp only [work]
    omega

/-- Until it has exited, the process rests only where its dispatcher does. -/
theorem rests_runner (hrest : Rests (cli req) (fun _ => True) s)
    (hm : ∀ result, s.main ≠ .exited result) (hsub : s.runner.submitting = [])
    (hrecv : ∀ k, s.runner.receive k = none) (hstop : ∀ k, s.runner.stop k = none) :
    Rests runner own s.runner := by
  intro l hl
  cases l with
  | send job =>
    have hnot : job ∉ s.runner.submitting := by
      rw [hsub]
      exact List.not_mem_nil
    show (s.runner.send job).map _ = none
    rw [Runner.State.send, if_neg hnot]
    rfl
  | receive k =>
    show (s.runner.receive k).map _ = none
    rw [hrecv k]
    rfl
  | stop k =>
    show (s.runner.stop k).map _ = none
    rw [hstop k]
    rfl
  | loop i step =>
    have hstuck := hrest (.loop i step) trivial
    obtain ⟨r, m⟩ := s
    cases m with
    | exited result => exact absurd rfl (hm result)
    | _ => exact Option.map_eq_none_iff.mp hstuck
  | _ => cases hl

/-- A channel with nothing in it. -/
theorem receive_eq_none {r : Runner.State} {k : ℕ} (h : content r.chans k = []) :
    r.receive k = none := by
  unfold Runner.State.receive
  cases hc : r.chans[k]? with
  | none => rfl
  | some c =>
    have hbuf : c.buf = [] := by simpa [content, hc] using h
    simp [Chan.recv_eq_none.mpr hbuf]

/-- **Where the process comes to rest**: it has exited, and has printed the outcome of the one
execution of its request; the worker loop has ended. -/
structure Ran (req : ExecutionRequest) (es : List Event) (s : State) : Prop where
  result : ∃ out elapsed now, s.main = .exited (resultOf req out elapsed now) ∧
    es.filterMap exitOf = [(printed (resultOf req out elapsed now), out.exitCode)] ∧
    ∃ i, .runner (.executed i 0 out) ∈ es
  once : executions (es.filterMap runnerEvent) = [0]
  loops : ∀ (i : ℕ) (l : Loop), s.runner.loops[i]? = some l → l = .exited

/-- There is one channel. -/
theorem content_other {chans : List (Chan ExecutionResult)} (hlen : chans.length = 1) {k : ℕ}
    (hk : k ≠ 0) : content chans k = [] := by
  rw [content, List.getElem?_eq_none (by omega)]
  rfl

/-- Before its result is received, the one job is with its `Submit`, in the queue, with the loop, or
its result is in the channel. -/
theorem receives (hr : Reaches (cli req) begin es s) (hrest : Rests (cli req) (fun _ => True) s)
    (hmain : s.main = .receiving) : False := by
  obtain ⟨hjobs, hsub, hstops, hdel, -, -, hopen, hkept⟩ := done hr
  rw [hmain] at hjobs hsub hstops hdel
  have hr' := runner_reaches hr
  have hset := settled hr'
  have hnil : s.runner.stops = [] := List.eq_nil_of_length_eq_zero hstops
  have hrecv : ∀ k, s.runner.receive k = none := by
    intro k
    by_cases hk : k = 0
    · subst hk
      have hstuck := hrest .main trivial
      obtain ⟨r, m⟩ := s
      simp only at hmain
      subst hmain
      exact Option.map_eq_none_iff.mp hstuck
    · exact receive_eq_none (content_other (hset.chans.trans (congrArg List.length hjobs)) hk)
  have hruns := rests_runner hrest (by rw [hmain]; simp) hsub hrecv fun k => by
    unfold Runner.State.stop
    rw [hnil]
    rfl
  have hall := (parted_at_rest (Nat.le_refl 1) hr' hruns).all (hopen hnil)
  rw [hjobs, hkept, List.append_nil] at hall
  have hmem : 0 ∈ finished (es.filterMap runnerEvent) := hall.mem_iff.mpr (List.mem_singleton.mpr rfl)
  obtain ⟨r, hone⟩ := ((parted_at_rest (Nat.le_refl 1) hr' hruns).executed 0 hmem).2
  rw [hdel] at hone
  cases hone.1

/-- A job that is sent finds room in the queue. -/
theorem submits (hr : Reaches (cli req) begin es s) (hmain : s.main = .submitting) :
    s.runner.send 0 ≠ none := by
  obtain ⟨hjobs, hsub, -⟩ := done hr
  rw [hmain] at hjobs hsub
  have hr' := runner_reaches hr
  have hflow := flow hr'
  have hcalls := hflow.calls.length_eq
  rw [hjobs, hsub] at hcalls
  simp only [List.length_append, List.length_singleton, List.length_range] at hcalls
  have hfifo := congrArg List.length hflow.fifo
  rw [List.length_append] at hfifo
  unfold Runner.State.send
  rw [hsub, if_pos (List.mem_singleton_self 0)]
  intro hnone
  have hfull : s.runner.d.jobQueue.send 0 = none := by
    cases hq : s.runner.d.jobQueue.send 0 with
    | none => rfl
    | some q => simp [hq] at hnone
  have hbuf := Chan.send_eq_none.mp hfull
  rw [(wired hr').queue] at hbuf
  omega

/-- The call of `Stop` gets on. -/
theorem stops (hr : Reaches (cli req) begin es s) (hrest : Rests (cli req) (fun _ => True) s)
    {result : ExecutionResult} (hmain : s.main = .stopping result) : False := by
  obtain ⟨hjobs, hsub, hstops, hdel, -⟩ := done hr
  rw [hmain] at hjobs hsub hstops hdel
  have hr' := runner_reaches hr
  have hset := settled hr'
  have hstuck := hrest .main trivial
  have hempty : content s.runner.chans 0 = [] := by
    have hone := count_le_one (flow hr') 0
    have hlen := length_resultsFor 0 (es.filterMap runnerEvent)
    rw [hset.buffered 0, hdel] at hlen
    simp only [Main.result, Option.toList_some, List.length_append, List.length_singleton] at hlen
    exact List.eq_nil_of_length_eq_zero (by omega)
  have hstop : s.runner.stops[0]? ≠ some .returned ∧ s.runner.stop 0 = none := by
    obtain ⟨r, m⟩ := s
    simp only at hmain
    subst hmain
    unfold cli State.next at hstuck
    simp only at hstuck
    split at hstuck
    · cases hstuck
    · next hne => exact ⟨hne, Option.map_eq_none_iff.mp hstuck⟩
  have hlen : s.runner.stops.length = 1 := hstops
  have hruns : Rests runner own s.runner := by
    refine rests_runner hrest (by rw [hmain]; simp) hsub (fun k => ?_) fun k => ?_
    · by_cases hk : k = 0
      · exact hk ▸ receive_eq_none hempty
      · exact receive_eq_none (content_other (hset.chans.trans (congrArg List.length hjobs)) hk)
    · by_cases hk : k = 0
      · exact hk ▸ hstop.2
      · unfold Runner.State.stop
        rw [List.getElem?_eq_none (by omega)]
        rfl
  have hlt : 0 < s.runner.stops.length := hlen ▸ Nat.one_pos
  have hx := List.getElem?_eq_getElem hlt
  rw [stop_at_rest hr' hruns hx] at hx
  exact hstop.1 hx

/-- **Where it has exited**, the request has been executed once, and this is what was printed. -/
theorem ran_exited (hr : Reaches (cli req) begin es s) {result : ExecutionResult}
    (hmain : s.main = .exited result) : Ran req es s := by
  obtain ⟨hjobs, hsub, hstops, hdel, hexits, hret, -, hkept⟩ := done hr
  rw [hmain] at hjobs hsub hdel hexits
  have hr' := runner_reaches hr
  have hflow := flow hr'
  have hset := settled hr'
  have hended := (halting hr').done ((halting hr').returned 0 (hret result hmain))
  have hloops : ∀ (i : ℕ) (l : Loop), s.runner.loops[i]? = some l → l = .exited := by
    intro i l hi
    have hnone := List.filterMap_eq_nil_iff.mp hended l (List.mem_of_getElem? hi)
    cases l with
    | exited => rfl
    | _ => cases hnone
  have hres : result ∈ resultsFor 0 (es.filterMap runnerEvent) := by
    rw [hset.buffered 0, hdel]
    exact List.mem_append_left _ (List.mem_singleton_self result)
  obtain ⟨j, i, out, elapsed, now, hj, hexec, hout⟩ := hset.sent 0 result (mem_resultsFor.mp hres)
  rw [hjobs] at hj
  cases hj
  subst hout
  refine ⟨⟨out, elapsed, now, hmain, hexits, i, ?_⟩, ?_, hloops⟩
  · obtain ⟨e, he, hexec⟩ := List.mem_filterMap.mp hexec
    cases e with
    | runner e => cases hexec; exact he
    | exited stdout code => cases hexec
  · have hsends : sends (es.filterMap runnerEvent) = [0] := by
      have hcalls := hflow.calls
      rw [hsub, hjobs] at hcalls
      exact List.perm_singleton.mp hcalls
    have hnone : s.runner.loops.filterMap startedOf = [] :=
      List.filterMap_eq_nil_iff.mpr fun l hl => by
        obtain ⟨k, hk⟩ := List.mem_iff_getElem?.mp hl
        rw [hloops k l hk]
        rfl
    have hstarted := hflow.started
    rw [hnone, List.nil_append] at hstarted
    have hfin : 0 < (finished (es.filterMap runnerEvent)).count 0 := by
      rw [← length_resultsFor]
      exact List.length_pos_of_mem hres
    have hlen := (accounted hflow).length_eq
    have hpos := List.length_pos_of_mem (List.count_pos_iff.mp hfin)
    rw [hsends] at hlen
    simp only [List.length_append, List.length_singleton] at hlen
    obtain ⟨job, hjob⟩ := List.length_eq_one_iff.mp
      (show (finished (es.filterMap runnerEvent)).length = 1 by omega)
    rw [hjob] at hfin hstarted
    rw [List.perm_singleton.mp hstarted, ← List.mem_singleton.mp (List.count_pos_iff.mp hfin)]

theorem ran (hr : Reaches (cli req) begin es s) (hrest : Rests (cli req) (fun _ => True) s) :
    Ran req es s := by
  have hstuck := hrest .main trivial
  cases hmain : s.main with
  | starting =>
    unfold cli State.next at hstuck
    simp [hmain] at hstuck
  | submitting =>
    unfold cli State.next at hstuck
    simp only [hmain, Option.map_eq_none_iff] at hstuck
    exact absurd hstuck (submits hr hmain)
  | receiving => exact (receives hr hrest hmain).elim
  | received result =>
    unfold cli State.next at hstuck
    simp [hmain] at hstuck
  | stopping result => exact (stops hr hrest hmain).elim
  | exited result => exact ran_exited hr hmain

end

/-- **The command `run` ends, and shows the one execution of its program**, where `Execute` returns:
whatever the scheduler chooses, the process exits, with the exit code and the output that `Execute`
returned the one time it was called, after the worker loop has ended. -/
theorem cli_exits (req : ExecutionRequest) {es : List Event} {s : State}
    (hr : Reaches (cli req) begin es s) :
    Settles (cli req) (fun _ => True) s (work s) fun new s' => Ran req (es ++ new) s' :=
  settles (I := fun _ => True) (fun _ _ _ _ _ _ hs => ⟨trivial, work_move (move_of_step hs)⟩) trivial
    fun _ _ _ hd hrest => ran (hr.trans hd.reaches) hrest

/-- A worker executes the program of the flags; its result is not sent yet. -/
def halfway : List Label :=
  [.main, .main, .loop 0 .jobQueue, .loop 0 .next, .loop 0 (.returned (output "1\n") 5 9)]

theorem cli_exits_halfway : ∃ req, requestOf 7 (fun path => .error path)
      { defaults with code := "print(1)" } = .ok req ∧
    ∃ es s, (cli req).run begin halfway = some (s, es) ∧
      Settles (cli req) (fun _ => True) s (work s) fun new s' => Ran req (es ++ new) s' := by
  have hreq : ∃ req, requestOf 7 (fun path => .error path)
      { defaults with code := "print(1)" } = .ok req := ⟨_, rfl⟩
  obtain ⟨req, hreq⟩ := hreq
  have hrun : ∃ es s, (cli req).run begin halfway = some (s, es) := ⟨_, _, rfl⟩
  obtain ⟨es, s, hs⟩ := hrun
  exact ⟨req, hreq, es, s, hs, cli_exits req (reaches_of_run hs)⟩

end CodeHive.Orchestrator.Cli
