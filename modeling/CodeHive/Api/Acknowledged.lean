import CodeHive.Api.Runs

/-! # Acknowledged results

The result route stores what a worker posts and answers 200. Whether a later status request is told
that result depends on what is written into the record afterwards: an inline execution that ends
later replaces the result with its own, and so does another post; on Redis a copy that was read
before the post may be written back after it. Where no write does that, the result stays. -/

namespace CodeHive.Api.Acknowledged

set_option autoImplicit false

open CodeHive.Js.Value CodeHive.Api.Types CodeHive.Api.Stores CodeHive.Api.Messages
open CodeHive.Api.Program CodeHive.Api.Queue CodeHive.Api.Routes CodeHive.Api.System
open CodeHive.Api.History CodeHive.Api.Invariant CodeHive.Api.Logic CodeHive.Api.Handlers
open CodeHive.Api.Records CodeHive.Api.Runs
open CodeHive.Concurrency.Calls CodeHive.Concurrency.Pool CodeHive.Concurrency.RelyGuarantee

/-- The result `r` of job `i` has been posted and stored. -/
def Stored (b : Backend) (log : List Event) (i : String) (r : ExecutionResult) : Prop :=
  ∃ (a : Actor) (worker : String) (body : Json) (posted : ResultBody),
    a.tag = .request (.jobResult worker i body) ∧ resultSchema body = some posted ∧
    r = posted.toResult i ∧ Wrote b a log i (resultUpdate i posted)

/-- `copy` is the record of job `i`, read by call `a` when `r` had been stored. -/
def ReadSince (b : Backend) (log : List Event) (a : Actor) (i : String) (r : ExecutionResult)
    (copy : Job) : Prop :=
  ∃ l₁ e l₂, log = l₁ ++ e :: l₂ ∧ readOf e = some (a, recordKey b i, copy) ∧ Stored b l₁ i r

/-- The primitive does not update job `i` with another result than `r`; and on Redis, an update that
names no result is not written into a copy that was read before `r` was stored. -/
def Respects (b : Backend) (log : List Event) (a : Actor) (i : String) (r : ExecutionResult)
    (o : Op) : Prop :=
  match b, o with
  | .memory, .mem (.updateJob j u) => i = j → u.result = none ∨ u.result = some (some r)
  | .memory, .mem (.assign j u) => i = j → u.result = none ∨ u.result = some (some r)
  | .redis, .redis (.set key rec) => jobKey i = key → ∃ copy u now, rec = Job.update copy u now ∧
      (u.result = some (some r) ∨ (u.result = none ∧ ReadSince .redis log a i r copy))
  | _, _ => True

/-- What has been posted is respected. -/
def KeepsStored (b : Backend) (a : Actor) (w : World) (o : Op) : Prop :=
  ∀ i r, Stored b w.log i r → Respects b w.log a i r o

/-- Every read of a record after a result was stored finds that result. -/
def ReadsStored (b : Backend) (log : List Event) : Prop :=
  ∀ a i r job, ReadSince b log a i r job → job.result = some r

/-- **What a stored result entails** as long as nothing replaces it. -/
structure Held (b : Backend) (w : World) : Prop where
  record : ∀ i r, Stored b w.log i r → ∃ job, lookup b w.state i = some job ∧ job.result = some r
  reads : ReadsStored b w.log

section
variable {b : Backend} {log log' : List Event} {w : World} {i : String} {r : ExecutionResult}

theorem Stored.mono (h : Stored b log i r) (hl : log ⊆ log') : Stored b log' i r := by
  obtain ⟨a, worker, body, posted, ha, hs, hr, hw⟩ := h
  exact ⟨a, worker, body, posted, ha, hs, hr, hw.mono hl⟩

/-- The last event is the one that stored `r`, or it was stored before. -/
theorem Stored.concat {e : Event} (h : Stored b (log ++ [e]) i r) : Stored b log i r ∨
    ∃ a u, u.result = some (some r) ∧ Wrote b a [e] i u := by
  obtain ⟨a, worker, body, posted, ha, hs, rfl, hw⟩ := h
  cases b with
  | memory =>
    rcases List.mem_append.mp hw with hw | hw
    · exact Or.inl ⟨a, worker, body, posted, ha, hs, rfl, hw⟩
    · exact Or.inr ⟨a, _, rfl, hw⟩
  | redis =>
    obtain ⟨rec, now, hw⟩ := hw
    rcases List.mem_append.mp hw with hw | hw
    · exact Or.inl ⟨a, worker, body, posted, ha, hs, rfl, rec, now, hw⟩
    · exact Or.inr ⟨a, _, rfl, rec, now, hw⟩

theorem Stored.of_started {a : Actor} (h : Stored b (log ++ [.started a]) i r) :
    Stored b log i r := by
  rcases h.concat with h | ⟨d, u, -, hw⟩
  · exact h
  · cases b with
    | memory => cases List.mem_singleton.mp hw
    | redis =>
      obtain ⟨rec, now, hw⟩ := hw
      cases List.mem_singleton.mp hw

/-- One event more: it must not read anything else than what is stored. -/
theorem ReadsStored.concat {e : Event} (h : ReadsStored b log)
    (he : ∀ (a : Actor) (i : String) (job : Job) (r : ExecutionResult),
      readOf e = some (a, recordKey b i, job) → Stored b log i r → job.result = some r) :
    ReadsStored b (log ++ [e]) := by
  rintro a i r job ⟨l₁, e', l₂, hl, hread, hs⟩
  rcases List.eq_nil_or_concat l₂ with rfl | ⟨l₃, e'', rfl⟩
  · obtain ⟨rfl, he'⟩ := List.append_inj' hl rfl
    cases he'
    exact he a i job r hread hs
  · have hl' : log ++ [e] = (l₁ ++ e' :: l₃) ++ [e''] := by simpa using hl
    obtain ⟨rfl, -⟩ := List.append_inj' hl' rfl
    exact h a i r job ⟨l₁, e', l₃, rfl, hread, hs⟩

/-- A record that is read is the one that is stored. -/
theorem lookup_of_read {o : Op} {inp : Input} {s : Store} {ans : o.Answer} {a d : Actor}
    {job : Job} (hready : Ready (terms b) a w o) (hs : exec o inp w.state = some (ans, s))
    (hread : readOf (.ran a o ans) = some (d, recordKey b i, job)) :
    lookup b w.state i = some job := by
  cases o with
  | host o => cases hread
  | mem c =>
    cases c with
    | load key =>
      obtain rfl : b = .memory := hready.1
      obtain ⟨job', hl, he⟩ := Option.map_eq_some_iff.mp hs
      cases he
      simp only [readOf, recordKey, Option.some.injEq, Prod.mk.injEq] at hread
      obtain ⟨-, rfl, rfl⟩ := hread
      exact hl
    | _ => cases hread
  | redis c =>
    cases c with
    | get key =>
      obtain rfl : b = .redis := hready
      cases hs
      simp only [Redis.exec] at hread
      cases hl : w.state.redis.strings key with
      | none => rw [hl] at hread; cases hread
      | some job' =>
        rw [hl] at hread
        simp only [readOf, recordKey, Option.some.injEq, Prod.mk.injEq] at hread
        obtain ⟨-, rfl, rfl⟩ := hread
        exact hl
    | _ => cases hread

/-- A primitive that respects what is stored leaves it in the record. -/
theorem written_respects {o : Op} {a : Actor} {now : String} {job : Job}
    (hready : Ready (terms b) a w o) (hreads : ReadsStored b w.log)
    (hresp : Respects b w.log a i r o) (hi : i ∈ ids w.log) (hres : job.result = some r) :
    ∃ job', written b o now i (some job) = some job' ∧ job'.result = some r := by
  have hkeep : ∀ u : PartialJob, u.result = none ∨ u.result = some (some r) →
      u.result.getD job.result = some r := by
    rintro u (hu | hu)
    · rw [hu]; exact hres
    · rw [hu]; rfl
  cases b with
  | memory =>
    cases o with
    | mem c =>
      cases c with
      | enqueue new =>
        have hne : i ≠ new.id := fun h => hready.2.2.1 (h ▸ hi)
        exact ⟨job, if_neg hne, hres⟩
      | updateJob j u =>
        by_cases hij : i = j
        · exact ⟨_, if_pos hij, hkeep u (hresp hij)⟩
        · exact ⟨job, if_neg hij, hres⟩
      | assign j u =>
        by_cases hij : i = j
        · exact ⟨_, if_pos hij, hkeep u (hresp hij)⟩
        · exact ⟨job, if_neg hij, hres⟩
      | _ => exact ⟨job, rfl, hres⟩
    | _ => exact ⟨job, rfl, hres⟩
  | redis =>
    cases o with
    | redis c =>
      cases c with
      | set key rec =>
        by_cases hik : jobKey i = key
        · obtain ⟨copy, u, now', rfl, hu⟩ := hresp hik
          refine ⟨_, if_pos hik, ?_⟩
          rcases hu with hu | ⟨hu, hread⟩
          · rw [update_result, hu]; rfl
          · rw [update_result, hu]
            exact hreads a i r copy hread
        · exact ⟨job, if_neg hik, hres⟩
      | multiSetLpush key new list id =>
        obtain ⟨-, rfl, -, -, -, hnew, -⟩ := hready
        have hne : jobKey i ≠ jobKey new.id := fun h => hnew (jobKey_inj.mp h ▸ hi)
        exact ⟨job, if_neg hne, hres⟩
      | _ => exact ⟨job, rfl, hres⟩
    | _ => exact ⟨job, rfl, hres⟩

/-- The write of a result puts it into the record. -/
theorem written_result {o : Op} {inp : Input} {s : Store} {ans : o.Answer} {a d : Actor}
    {u : PartialJob} (hs : exec o inp w.state = some (ans, s)) (hu : u.result = some (some r))
    (hw : Wrote b d [.ran a o ans] i u) :
    ∃ job, lookup b s i = some job ∧ job.result = some r := by
  rw [lookup_exec hs]
  cases b with
  | memory =>
    cases List.mem_singleton.mp hw
    have hok := congrArg (Option.map Prod.fst) hs
    change some (w.state.mem.updateJob i u (toISOString inp.ms)).1 = some (.ok ()) at hok
    cases hl : w.state.mem.jobs i with
    | none => rw [updateJob_none hl] at hok; cases hok
    | some job =>
      refine ⟨job.update u (toISOString inp.ms), ?_, by rw [update_result, hu]; rfl⟩
      simp [written, lookup, hl]
  | redis =>
    obtain ⟨rec, now, hw⟩ := hw
    cases List.mem_singleton.mp hw
    exact ⟨_, if_pos rfl, by rw [update_result, hu]; rfl⟩

/-- **One primitive.** What is stored is held by every primitive that does not replace it. -/
theorem held_fire {o : Op} {inp : Input} {ans : o.Answer} {a : Actor} {w' : World}
    (h : Held b w) (hinv : Inv (terms b) w) (hready : Ready (terms b) a w o)
    (hkeep : KeepsStored b a w o) (hf : w.fire a o inp = some (ans, w')) : Held b w' := by
  obtain ⟨s, hs, rfl⟩ := World.fire_eq_some.mp hf
  constructor
  · intro i r hst
    rcases hst.concat with hst | ⟨d, u, hu, hw⟩
    · obtain ⟨job, hl, hres⟩ := h.record i r hst
      change ∃ job, lookup b s i = some job ∧ _
      rw [lookup_exec hs, hl]
      exact written_respects hready h.reads (hkeep i r hst) (hinv.known i job hl) hres
    · exact written_result hs hu hw
  · refine h.reads.concat fun d i job r hread hst => ?_
    obtain ⟨job', hl, hres⟩ := h.record i r hst
    rw [lookup_of_read hready hs hread, Option.some.injEq] at hl
    exact hl ▸ hres

/-- **A run.** Where no write replaces what is stored, it is held. -/
theorem held {c : Config (apiSystem b)} (hc : Reaches (Allowed (KeepsStored b)) (start b) c) :
    Held b c.world := by
  refine (start_ok b).keeps (g := KeepsStored b)
    (entries b) (fun _ _ _ _ => trivial) (J := Held b) ⟨fun i r hst => ?_, ?_⟩
    (fun w a h => ⟨fun i r hst => ?_, ?_⟩)
    (fun a w o inp r w' hi hg hkeep h hf => held_fire h hi hg.1 hkeep hf) hc
  · obtain ⟨a, worker, body, posted, -, -, -, hw⟩ := hst
    cases b with
    | memory => cases hw
    | redis =>
      obtain ⟨rec, now, hw⟩ := hw
      cases hw
  · rintro a i r job ⟨l₁, e, l₂, hl, -⟩
    simp [Config.init] at hl
  · exact h.record i r hst.of_started
  · exact h.reads.concat fun d i job r hread => by cases hread

end

/-! ### Two runs -/

/-- What a worker posts. -/
def workerResult : Json := .obj [("stdout", .str "42"), ("stderr", .str ""), ("exitCode", .num 0),
  ("status", .str "completed"), ("startedAt", .str ""), ("finishedAt", .str "")]

/-- A post of it that is answered. -/
def post : List (Label Task Input) :=
  .arrive (.request (.jobResult "w" "job" workerResult)) ::
    turn 2 2 {} ++ turn 2 2 {} ++ turn 2 1 {}

end CodeHive.Api.Acknowledged
