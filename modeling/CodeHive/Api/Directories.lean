import CodeHive.Api.Course

/-! # Temporary directories

Every inline execution makes a temporary directory of its own, writes one file into it, names no
other to the compiler and the interpreter, and removes the directory, whatever fails in between
(`Whole`). So in every run the directories there are belong to the executions that have not settled,
one to each, and requests touch no files at all (`Apart`, `apart`; `Fresh` is what is assumed of
`mkdtempSync` and `rmSync`). What the commands themselves write is not among this: `g++` is told to
write `/tmp/a.out` by all executions, and `rustc` writes into the working directory. -/

namespace CodeHive.Api.Directories

set_option autoImplicit false

open CodeHive.Js.Value CodeHive.Api.Types CodeHive.Api.Stores CodeHive.Api.Messages
open CodeHive.Api.Program CodeHive.Api.Queue CodeHive.Api.Executor CodeHive.Api.System
open CodeHive.Api.History
open CodeHive.Api.Runs CodeHive.Api.Course
open CodeHive.Concurrency.Calls CodeHive.Concurrency.Pool CodeHive.Concurrency.Protocols

/-! ### What a call does with files -/

/-- An operation on files, and its answer. -/
abbrev Work := (o : HostOp) × o.Answer

def workOf (t : ℕ) : Event → Option Work
  | .ran a (.host o) r => if a.tid = t ∧ onFiles o = true then some ⟨o, r⟩ else none
  | _ => none

/-- What call `t` has done with files. -/
def work (t : ℕ) (log : List Event) : List Work := log.filterMap (workOf t)

/-- What an execution does in its directory: a step that fails is the last one. -/
inductive Attempt (dir : String) : List Work → Prop where
  | unwritten (name code : String) (err : JsError) :
    Attempt dir [⟨.writeFileSync (join dir name) code, .error err⟩]
  | uncompiled (name code : String) (err : JsError) :
    Attempt dir [⟨.writeFileSync (join dir name) code, .ok ()⟩,
      ⟨.execSync s!"javac \"{join dir name}\"", .error err⟩]
  | ran (name code : String) (cfg : LangCfg) (stdin : Option String) (timeout : Finite)
    (r : Except JsError ProcResult) :
    Attempt dir [⟨.writeFileSync (join dir name) code, .ok ()⟩,
      ⟨.runProcess cfg (join dir name) stdin timeout, r⟩]
  | compiledRan (name code : String) (cfg : LangCfg) (stdin : Option String) (timeout : Finite)
    (r : Except JsError ProcResult) :
    Attempt dir [⟨.writeFileSync (join dir name) code, .ok ()⟩,
      ⟨.execSync s!"javac \"{join dir name}\"", .ok ()⟩,
      ⟨.runProcess cfg (join dir name) stdin timeout, r⟩]

/-- **The whole work of an execution**: the directory could not be made, or it was made, used and
removed. -/
inductive Whole : List Work → Prop where
  | unmade (err : JsError) : Whole [⟨.mkdtempSync, .error err⟩]
  | made {dir : String} {l : List Work} (h : Attempt dir l) :
    Whole (⟨.mkdtempSync, .ok dir⟩ :: l ++ [⟨.rmSync dir, ()⟩])

/-- The directory after a piece of work. -/
def holding (d : Option String) : Work → Option String
  | ⟨.mkdtempSync, .ok dir⟩ => some dir
  | ⟨.rmSync _, _⟩ => none
  | _ => d

/-- The directory that call `t` has made and not removed. -/
def holds (t : ℕ) (log : List Event) : Option String := (work t log).foldl holding none

/-! ### The directories there are -/

/-- The directory that an event makes. -/
def madeBy : Event → Option String
  | .ran _ (.host .mkdtempSync) (.ok dir) => some dir
  | _ => none

/-- The directory that an event removes. -/
def removedBy : Event → Option String
  | .ran _ (.host (.rmSync dir)) _ => some dir
  | _ => none

/-- The temporary directories there are: those made, and not removed since. That `rmSync` fails is
left out, as the code ignores it. -/
def directories (log : List Event) : List String :=
  log.foldl (fun l e => (madeBy e).toList ++ l.filter fun dir => some dir ≠ removedBy e) []

/-- `mkdtempSync` makes a directory that is not there. -/
def Fresh (log : List Event) : Prop :=
  ∀ n < log.length, ∀ dir ∈ (log[n]?).bind madeBy, dir ∉ directories (log.take n)

instance (log : List Event) : Decidable (Fresh log) := by unfold Fresh; infer_instance

section
variable {log pre : List Event} {e : Event} {t : ℕ}

theorem work_concat : work t (log ++ [e]) = work t log ++ (workOf t e).toList := by
  unfold work
  rw [List.filterMap_append]
  cases h : workOf t e <;> simp [h]

theorem holds_concat : holds t (log ++ [e]) = (workOf t e).toList.foldl holding (holds t log) := by
  unfold holds
  rw [work_concat, List.foldl_append]

theorem directories_concat : directories (log ++ [e]) =
    (madeBy e).toList ++ (directories log).filter fun dir => some dir ≠ removedBy e := by
  unfold directories
  rw [List.foldl_append]
  rfl

theorem Fresh.concat (h : Fresh log) (hpre : pre ++ [e] <+: log) {dir : String}
    (he : madeBy e = some dir) : dir ∉ directories pre := by
  obtain ⟨rest, hrest⟩ := hpre
  have hlog : log = pre ++ e :: rest := by rw [← hrest, List.append_assoc]; rfl
  have hfresh := h pre.length (by rw [hlog]; simp) dir (by rw [hlog]; simpa using he)
  rwa [hlog, List.take_left' rfl] at hfresh

/-- Events that touch no files. -/
theorem workOf_eq_none (h : ∀ a o r, e = .ran a (.host o) r → a.tid = t → onFiles o = false) :
    workOf t e = none := by
  cases e with
  | started a => rfl
  | ran a o r =>
    cases o with
    | host o =>
      refine if_neg fun hw => ?_
      rw [h a o r rfl hw.1] at hw
      cases hw.2
    | mem o => rfl
    | redis o => rfl

end

/-! ### The work at each stage -/

/-- What an execution has done when it is at `d` with its directory. -/
def Did : Dir → List Work → Prop
  | .idle, l => l = []
  | .failed, l => ∃ err, l = [⟨.mkdtempSync, .error err⟩]
  | .made dir, l => l = [⟨.mkdtempSync, .ok dir⟩]
  | .written dir file, l => ∃ name code, file = join dir name ∧
    l = [⟨.mkdtempSync, .ok dir⟩, ⟨.writeFileSync file code, .ok ()⟩]
  | .compiled dir file, l => ∃ name code, file = join dir name ∧
    l = [⟨.mkdtempSync, .ok dir⟩, ⟨.writeFileSync file code, .ok ()⟩,
      ⟨.execSync s!"javac \"{file}\"", .ok ()⟩]
  | .spent dir, l => ∃ attempt, Attempt dir attempt ∧ l = ⟨.mkdtempSync, .ok dir⟩ :: attempt
  | .removed dir, l => ∃ attempt, Attempt dir attempt ∧
    l = ⟨.mkdtempSync, .ok dir⟩ :: attempt ++ [⟨.rmSync dir, ()⟩]

/-- The directory that the execution has. -/
def held : Dir → Option String
  | .made dir | .written dir _ | .compiled dir _ | .spent dir => some dir
  | _ => none

section
variable {d : Dir} {l : List Work} {o : HostOp}

/-- What has nothing to do with files is no step of the work. -/
theorem next_of_notFiles (ho : onFiles o = false) (r : o.Answer) : d.next o r = d := by
  cases o with
  | now => cases d <;> rfl
  | randomUUID => cases d <;> rfl
  | getTime text => cases d <;> rfl
  | _ => cases ho

/-- **One step of the work.** -/
theorem Did.next (h : Did d l) (ho : d.allows o) (hf : onFiles o = true) (r : o.Answer) :
    Did (d.next o r) (l ++ [⟨o, r⟩]) := by
  cases o with
  | mkdtempSync =>
    obtain rfl : d = .idle := ho
    obtain rfl : l = [] := h
    cases r with
    | error err => exact ⟨err, rfl⟩
    | ok dir => exact rfl
  | writeFileSync file code =>
    obtain ⟨dir, name, rfl, rfl⟩ := ho
    obtain rfl : l = [⟨.mkdtempSync, .ok dir⟩] := h
    cases r with
    | error err => exact ⟨_, .unwritten name code err, rfl⟩
    | ok x => exact ⟨name, code, rfl, rfl⟩
  | execSync command =>
    obtain ⟨dir, file, rfl, rfl⟩ := ho
    obtain ⟨name, code, rfl, rfl⟩ := h
    cases r with
    | error err => exact ⟨_, .uncompiled name code err, rfl⟩
    | ok x => exact ⟨name, code, rfl, rfl⟩
  | runProcess cfg file stdin timeout =>
    obtain ⟨dir, rfl | rfl⟩ := ho
    · obtain ⟨name, code, rfl, rfl⟩ := h
      exact ⟨_, .ran name code cfg stdin timeout r, rfl⟩
    · obtain ⟨name, code, rfl, rfl⟩ := h
      exact ⟨_, .compiledRan name code cfg stdin timeout r, rfl⟩
  | rmSync dir =>
    obtain rfl : d = .spent dir := ho
    obtain ⟨attempt, hattempt, rfl⟩ := h
    exact ⟨attempt, hattempt, rfl⟩
  | _ => cases hf

/-- What an execution has done is the beginning of a whole work. -/
theorem Did.whole (h : Did d l) : ∃ rest, Whole (l ++ rest) := by
  have err : JsError := .error ""
  have hunwritten : ∀ dir, Whole [⟨.mkdtempSync, .ok dir⟩,
      ⟨.writeFileSync (join dir "") "", .error err⟩, ⟨.rmSync dir, ()⟩] :=
    fun dir => .made (.unwritten "" "" err)
  cases d with
  | idle =>
    obtain rfl : l = [] := h
    exact ⟨_, .unmade err⟩
  | failed =>
    obtain ⟨err, rfl⟩ := h
    exact ⟨[], .unmade err⟩
  | made dir =>
    obtain rfl : l = [⟨.mkdtempSync, .ok dir⟩] := h
    exact ⟨_, hunwritten dir⟩
  | written dir file =>
    obtain ⟨name, code, rfl, rfl⟩ := h
    exact ⟨[_, _], .made (.uncompiled name code err)⟩
  | compiled dir file =>
    obtain ⟨name, code, rfl, rfl⟩ := h
    exact ⟨[_, _], .made (.compiledRan name code { cmd := "", ext := "" } none 0 (.error err))⟩
  | spent dir =>
    obtain ⟨attempt, hattempt, rfl⟩ := h
    exact ⟨[_], .made hattempt⟩
  | removed dir =>
    obtain ⟨attempt, hattempt, rfl⟩ := h
    exact ⟨[], by rw [List.append_nil]; exact .made hattempt⟩

theorem holding_attempt {dir : String} (h : Attempt dir l) (d : Option String) :
    l.foldl holding d = d := by
  cases h <;> rfl

/-- The directory that the execution has is the one it has made and not removed. -/
theorem Did.held (h : Did d l) : l.foldl holding none = held d := by
  cases d with
  | idle =>
    obtain rfl : l = [] := h
    rfl
  | failed =>
    obtain ⟨err, rfl⟩ := h
    rfl
  | made dir =>
    obtain rfl : l = [⟨.mkdtempSync, .ok dir⟩] := h
    rfl
  | written dir file =>
    obtain ⟨name, code, rfl, rfl⟩ := h
    rfl
  | compiled dir file =>
    obtain ⟨name, code, rfl, rfl⟩ := h
    rfl
  | spent dir =>
    obtain ⟨attempt, hattempt, rfl⟩ := h
    exact holding_attempt hattempt _
  | removed dir =>
    obtain ⟨attempt, hattempt, rfl⟩ := h
    rw [List.foldl_append]
    rfl

end

/-! ### The work of a call -/

/-- What a call has done with files when it is at the stage `q`. -/
def StageDid : Stage → List Work → Prop
  | .executing _ d _, l => Did d l
  | _, l => l = []

def heldAt : Stage → Option String
  | .executing _ d _ => held d
  | _ => none

section
variable {b : Backend} {c : Config (apiSystem b)} {a : Actor} {p : Thread}

/-- **One step of a call.** -/
theorem StageDid.next {q : Stage} {l : List Work} {o : Op} (h : StageDid q l)
    (ho : (course b).allows q o) (a : Actor) (r : o.Answer) :
    StageDid ((course b).next q o r) (l ++ (workOf a.tid (.ran a o r)).toList) := by
  cases o with
  | host o =>
    cases hf : onFiles o with
    | false =>
      have hnone : workOf a.tid (.ran a (.host o) r) = none := if_neg (by simp [hf])
      rw [hnone, Option.toList_none, List.append_nil]
      cases q with
      | executing j d m =>
        show Did (d.next o r) l
        rw [next_of_notFiles hf]
        exact h
      | _ => exact h
    | true =>
      have hsome : workOf a.tid (.ran a (.host o) r) = some ⟨o, r⟩ := if_pos ⟨rfl, hf⟩
      rw [hsome, Option.toList_some]
      cases q with
      | executing j d m => exact Did.next h ho hf r
      | _ => exact absurd (hf.symm.trans ho) (by decide)
  | mem o =>
    rw [show workOf a.tid (.ran a (.mem o) r) = none from rfl, Option.toList_none, List.append_nil]
    cases q with
    | submitting known => cases o <;> exact h
    | _ => exact h
  | redis o =>
    rw [show workOf a.tid (.ran a (.redis o) r) = none from rfl, Option.toList_none, List.append_nil]
    cases q with
    | submitting known => cases o <;> exact h
    | _ => exact h

/-- **Every call has done with files what belongs to its stage.** -/
theorem work_did {t : ℕ} (h : Conforms (course b) c) (ht : c.pool[t]? = some (a, p))
    {log : List Event} (hlog : log <+: c.world.log) :
    StageDid ((course b).stage a log) (work a.tid log) := by
  refine stage_induction (P := course b) (R := fun log q => StageDid q (work a.tid log)) ?_
    (fun pre e hpre hne hdid => ?_) fun pre d o r hpre hown hdid => ?_
  · show StageDid ((course b).begin a.tag) []
    cases a.tag with
    | request r => cases r <;> rfl
    | _ => rfl
  · rw [work_concat, workOf_eq_none fun d o r he htid => absurd htid (hne d _ r he)]
    simpa using hdid
  · have hpre' := hpre.trans hlog
    obtain rfl : d = a := h.actor ht (e := .ran d o r) (hpre'.subset (by simp)) hown
    rw [work_concat]
    exact hdid.next (h.allowed_prefix hpre') d r

/-- The directory that a call has is the one of its stage. -/
theorem holds_eq {t : ℕ} (h : Conforms (course b) c) (ht : c.pool[t]? = some (a, p)) {log : List Event}
    (hlog : log <+: c.world.log) : holds a.tid log = heldAt ((course b).stage a log) := by
  have hdid := work_did h ht hlog
  unfold holds
  cases hq : (course b).stage a log with
  | executing j d m =>
    rw [hq] at hdid
    exact Did.held hdid
  | _ =>
    rw [hq] at hdid
    rw [show work a.tid log = [] from hdid]
    rfl

/-- Only executions touch files. -/
theorem executing_of_files (h : Conforms (course b) c) {log : List Event} {o : HostOp}
    {r : o.Answer} (hlog : log ++ [.ran a (.host o) r] <+: c.world.log) (ho : onFiles o = true) :
    ∃ j d m, (course b).stage a log = .executing j d m ∧ d.allows o := by
  have hallowed := h.allowed_prefix hlog
  cases hq : (course b).stage a log with
  | executing j d m =>
    rw [hq] at hallowed
    exact ⟨j, d, m, rfl, hallowed⟩
  | _ =>
    rw [hq] at hallowed
    exact absurd (ho.symm.trans hallowed) (by decide)

end

/-! ### The directories there are, and who has them -/

section
variable {log : List Event} {a : Actor} {t : ℕ} {dir : String}

theorem holds_made : holds t (log ++ [.ran a (.host .mkdtempSync) (.ok dir)]) =
    if a.tid = t then some dir else holds t log := by
  rw [holds_concat]
  by_cases ht : a.tid = t <;> simp [workOf, onFiles, holding, ht]

theorem holds_removed : holds t (log ++ [.ran a (.host (.rmSync dir)) ()]) =
    if a.tid = t then none else holds t log := by
  rw [holds_concat]
  by_cases ht : a.tid = t <;> simp [workOf, onFiles, holding, ht]

theorem holds_other {e : Event} (hmade : madeBy e = none) (hremoved : removedBy e = none) :
    holds t (log ++ [e]) = holds t log := by
  rw [holds_concat]
  cases hw : workOf t e with
  | none => rfl
  | some w =>
    cases e with
    | started a => cases hw
    | ran a o r =>
      cases o with
      | mem o => cases hw
      | redis o => cases hw
      | host o =>
        obtain ⟨-, rfl⟩ : _ ∧ (⟨o, r⟩ : Work) = w := by simpa [workOf] using hw
        cases o with
        | mkdtempSync =>
          cases r with
          | error err => rfl
          | ok dir => cases hmade
        | rmSync dir => cases hremoved
        | _ => rfl

/-- The directories are those that the calls have, one to each. -/
structure Kept (log : List Event) : Prop where
  there : ∀ dir, dir ∈ directories log ↔ ∃ t, holds t log = some dir
  alone : ∀ t u dir, holds t log = some dir → holds u log = some dir → t = u

theorem Kept.nil : Kept [] := ⟨fun dir => by simp [directories, holds, work], by simp [holds, work]⟩

theorem Kept.made (h : Kept log) (hfresh : dir ∉ directories log) (hidle : holds a.tid log = none) :
    Kept (log ++ [.ran a (.host .mkdtempSync) (.ok dir)]) := by
  have hdirs : directories (log ++ [.ran a (.host .mkdtempSync) (.ok dir)]) =
      dir :: directories log := by
    rw [directories_concat]
    simp [madeBy, removedBy]
  have hnew : ∀ u, holds u log ≠ some dir := fun u hu => hfresh ((h.there dir).mpr ⟨u, hu⟩)
  constructor
  · intro dir'
    rw [hdirs, List.mem_cons, h.there]
    constructor
    · rintro (rfl | ⟨t, ht⟩)
      · exact ⟨a.tid, by rw [holds_made, if_pos rfl]⟩
      · refine ⟨t, ?_⟩
        rw [holds_made, if_neg fun hat => ?_]
        · exact ht
        · rw [← hat, hidle] at ht
          cases ht
    · rintro ⟨t, ht⟩
      rw [holds_made] at ht
      split_ifs at ht with hat
      · exact .inl (Option.some.inj ht).symm
      · exact .inr ⟨t, ht⟩
  · intro t u dir' ht hu
    rw [holds_made] at ht hu
    split_ifs at ht hu with hat hau hau
    · exact hat.symm.trans hau
    · cases ht
      exact absurd hu (hnew u)
    · cases hu
      exact absurd ht (hnew t)
    · exact h.alone t u dir' ht hu

theorem Kept.removed (h : Kept log) (hhas : holds a.tid log = some dir) :
    Kept (log ++ [.ran a (.host (.rmSync dir)) ()]) := by
  have hdirs : ∀ dir', dir' ∈ directories (log ++ [.ran a (.host (.rmSync dir)) ()]) ↔
      dir' ∈ directories log ∧ dir' ≠ dir := by
    intro dir'
    rw [directories_concat]
    simp [madeBy, removedBy]
  constructor
  · intro dir'
    rw [hdirs, h.there]
    constructor
    · rintro ⟨⟨t, ht⟩, hne⟩
      refine ⟨t, ?_⟩
      rw [holds_removed, if_neg fun hat => ?_]
      · exact ht
      · rw [← hat, hhas] at ht
        exact hne (Option.some.inj ht).symm
    · rintro ⟨t, ht⟩
      rw [holds_removed] at ht
      split_ifs at ht with hat
      refine ⟨⟨t, ht⟩, ?_⟩
      rintro rfl
      exact hat (h.alone _ _ _ hhas ht)
  · intro t u dir' ht hu
    rw [holds_removed] at ht hu
    split_ifs at ht hu
    exact h.alone t u dir' ht hu

theorem Kept.other (h : Kept log) {e : Event} (hmade : madeBy e = none)
    (hremoved : removedBy e = none) : Kept (log ++ [e]) := by
  have hdirs : directories (log ++ [e]) = directories log := by
    rw [directories_concat, hmade, hremoved]
    simp
  have hholds : ∀ t, holds t (log ++ [e]) = holds t log := fun t => holds_other hmade hremoved
  refine ⟨fun dir => ?_, fun t u dir ht hu => ?_⟩
  · rw [hdirs, h.there]
    simp only [hholds]
  · rw [hholds] at ht hu
    exact h.alone t u dir ht hu

end

section
variable {b : Backend} {c : Config (apiSystem b)}

/-- **At every point of a run** the directories are those that the calls have. -/
theorem kept (h : Conforms (course b) c) (hfresh : Fresh c.world.log) (log : List Event)
    (hlog : log <+: c.world.log) : Kept log := by
  induction log using List.reverseRecOn with
  | nil => exact .nil
  | append_singleton log e ih =>
    have ih := ih ((List.prefix_append _ _).trans hlog)
    obtain ⟨p, hp⟩ := h.wf.log e (hlog.subset (by simp))
    have hstage := holds_eq h hp ((List.prefix_append _ _).trans hlog)
    cases hmade : madeBy e with
    | some dir =>
      obtain ⟨a, rfl⟩ : ∃ a, e = .ran a (.host .mkdtempSync) (.ok dir) := by
        unfold madeBy at hmade
        split at hmade
        · cases hmade
          exact ⟨_, rfl⟩
        · cases hmade
      obtain ⟨j, d, m, hq, hd⟩ := executing_of_files h hlog rfl
      obtain rfl : d = .idle := hd
      exact ih.made (hfresh.concat hlog rfl)
        (hstage.trans (by rw [show Event.actor _ = a from rfl, hq]; rfl))
    | none =>
      cases hremoved : removedBy e with
      | none => exact ih.other hmade hremoved
      | some dir =>
        obtain ⟨a, rfl⟩ : ∃ a, e = .ran a (.host (.rmSync dir)) () := by
          unfold removedBy at hremoved
          split at hremoved
          · cases hremoved
            exact ⟨_, rfl⟩
          · cases hremoved
        obtain ⟨j, d, m, hq, hd⟩ := executing_of_files h hlog rfl
        obtain rfl : d = .spent dir := hd
        exact ih.removed (hstage.trans (by rw [show Event.actor _ = a from rfl, hq]; rfl))

/-- Only a call that was made has a directory. -/
theorem exists_of_holds (h : Wf c) {t : ℕ} {dir : String} (hholds : holds t c.world.log = some dir) :
    ∃ a p, c.pool[t]? = some (a, p) := by
  by_cases hwork : work t c.world.log = []
  · unfold holds at hholds
    rw [hwork] at hholds
    cases hholds
  · obtain ⟨w, hw⟩ := List.exists_mem_of_ne_nil _ hwork
    obtain ⟨e, he, hwe⟩ := List.mem_filterMap.mp hw
    have htid : e.actor.tid = t := by
      unfold workOf at hwe
      split at hwe
      · split_ifs at hwe with hif
        exact hif.1
      · cases hwe
    obtain ⟨p, hp⟩ := h.log e he
    rw [htid] at hp
    exact ⟨_, p, hp⟩

/-- **Executions have directories of their own**, and leave none behind. -/
structure Apart (b : Backend) (c : Config (apiSystem b)) : Prop where
  /-- Requests touch no files. -/
  requests : ∀ (t : ℕ) (a : Actor) (p : Thread), c.pool[t]? = some (a, p) →
    (∀ j, a.tag ≠ .inline j) → work t c.world.log = []
  /-- Every call is within the work of an execution. -/
  begun : ∀ (t : ℕ) (a : Actor) (p : Thread), c.pool[t]? = some (a, p) →
    ∃ rest, Whole (work t c.world.log ++ rest)
  /-- An execution that has settled has done all of it, or has found no record on Redis. -/
  ended : ∀ (t : ℕ) (a : Actor) (j : String) (out : Outcome), c.pool[t]? = some (a, .done out) →
    a.tag = .inline j → Whole (work t c.world.log) ∨ b = .redis ∧ work t c.world.log = []
  /-- The directories there are belong to calls that have not settled, -/
  there : Fresh c.world.log → ∀ dir, dir ∈ directories c.world.log ↔
    ∃ t a p, c.pool[t]? = some (a, p) ∧ (∀ out, p ≠ .done out) ∧ holds t c.world.log = some dir
  /-- each to one call. -/
  alone : Fresh c.world.log → ∀ t u dir, holds t c.world.log = some dir →
    holds u c.world.log = some dir → t = u

/-- The directories there are belong to executions that have not settled. -/
theorem mem_directories (hc : Reachable b c) (hf : Fresh c.world.log) (dir : String) :
    dir ∈ directories c.world.log ↔ ∃ t a p, c.pool[t]? = some (a, p) ∧ (∀ out, p ≠ .done out) ∧
      holds t c.world.log = some dir := by
  have h := (onCourse hc).conforms
  have hheld : ∀ {t a p}, c.pool[t]? = some (a, p) →
      holds t c.world.log = heldAt ((course b).stage a c.world.log) := by
    intro t a p ht
    have hholds := holds_eq h ht List.prefix_rfl
    rwa [h.wf.tid t a p ht] at hholds
  rw [(kept h hf _ List.prefix_rfl).there]
  constructor
  · rintro ⟨t, hholds⟩
    obtain ⟨a, p, ht⟩ := exists_of_holds h.wf hholds
    refine ⟨t, a, p, ht, ?_, hholds⟩
    rintro out rfl
    rw [hheld ht] at hholds
    have hends := h.ends ht
    cases hq : (course b).stage a c.world.log with
    | executing i d m =>
      rw [hq] at hholds hends
      rcases hends with ⟨rfl, -⟩ | rfl | ⟨dir, rfl, -⟩ <;> cases hholds
    | _ =>
      rw [hq] at hholds
      cases hholds
  · rintro ⟨t, -, -, -, -, ht⟩
    exact ⟨t, ht⟩

/-- **In every run of the API, executions work in directories of their own.** -/
theorem apart (hc : Reachable b c) : Apart b c := by
  have h := (onCourse hc).conforms
  have hdid : ∀ {t a p}, c.pool[t]? = some (a, p) →
      StageDid ((course b).stage a c.world.log) (work t c.world.log) := by
    intro t a p ht
    have hwork := work_did h ht List.prefix_rfl
    rwa [h.wf.tid t a p ht] at hwork
  refine ⟨fun t a p ht ha => ?_, fun t a p ht => ?_, fun t a j out ht ha => ?_,
    mem_directories hc, fun hf => (kept h hf _ List.prefix_rfl).alone⟩
  · have hd := hdid ht
    cases hq : (course b).stage a c.world.log with
    | executing j d m => exact absurd (tag_of_executing hq) (ha j)
    | _ =>
      rw [hq] at hd
      exact hd
  · have hd := hdid ht
    cases hq : (course b).stage a c.world.log with
    | executing j d m =>
      rw [hq] at hd
      exact Did.whole hd
    | _ =>
      rw [hq] at hd
      exact ⟨_, by rw [show work t c.world.log = [] from hd]; exact .unmade (.error "")⟩
  · have hd := hdid ht
    have hends := h.ends ht
    obtain ⟨d, m, hq⟩ := executing_of_tag (b := b) ha c.world.log
    rw [hq] at hd hends
    rcases hends with ⟨rfl, hb⟩ | rfl | ⟨dir, rfl, -⟩
    · exact .inr ⟨hb, hd⟩
    · obtain ⟨err, hl⟩ : ∃ err, work t c.world.log = [⟨.mkdtempSync, .error err⟩] := hd
      rw [hl]
      exact .inl (.unmade err)
    · obtain ⟨l, hl, hw⟩ := hd
      rw [hw]
      exact .inl (.made hl)

end

/-- Two jobs are executed at the same time, and the first execution comes to its end. -/
def twoExecutions : List (Label Task Input) :=
  submission 0 ++
    .arrive (.request (.execute (.obj [("language", .str "python"), ("code", .str "print(2)")]))) ::
      turn 2 4 { uuid := "job2" } ++ turn 2 5 {} ++
    turn 1 5 { dir := .ok "/tmp/ch-a" } ++ turn 3 5 { dir := .ok "/tmp/ch-b" } ++
    turn 1 4 {} ++ turn 1 3 {}

theorem apart_run : ∃ c, (start .memory).run twoExecutions = some c ∧ Fresh c.world.log ∧
    directories c.world.log = ["/tmp/ch-b"] ∧ (work 1 c.world.log).length = 4 ∧
    Apart .memory c := by
  obtain ⟨c, hc⟩ : ∃ c, (start .memory).run twoExecutions = some c :=
    Option.isSome_iff_exists.mp rfl
  have hfresh : ((start .memory).run twoExecutions).map (fun c => decide (Fresh c.world.log)) =
      some true := rfl
  have hdirs : ((start .memory).run twoExecutions).map (fun c => directories c.world.log) =
      some ["/tmp/ch-b"] := rfl
  have hwork : ((start .memory).run twoExecutions).map (fun c => (work 1 c.world.log).length) =
      some 4 := rfl
  rw [hc, Option.map_some, Option.some_inj] at hfresh hdirs hwork
  exact ⟨c, hc, of_decide_eq_true hfresh, hdirs, hwork, apart (reaches_of_run hc)⟩

end CodeHive.Api.Directories
