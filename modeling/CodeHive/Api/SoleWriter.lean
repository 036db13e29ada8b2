import CodeHive.Api.Clients
import CodeHive.Api.SameStore

/-! # A record with one writer

While one call is the only one that writes the record of a job, the record is the one that this call
has left, across all its awaits. So the functions of the queue service have triples about the record
and about what the call has noted in the log. -/

namespace CodeHive.Api.SoleWriter

set_option autoImplicit false

open CodeHive.Js.Value CodeHive.Api.Types CodeHive.Api.Stores CodeHive.Api.Messages
open CodeHive.Api.Program CodeHive.Api.Queue CodeHive.Api.Executor CodeHive.Api.System
open CodeHive.Api.History CodeHive.Api.Records CodeHive.Api.SameStore CodeHive.Api.Clients
open CodeHive.Concurrency.Calls CodeHive.Concurrency.Pool CodeHive.Concurrency.RelyGuarantee
open CodeHive.Concurrency.Triples

/-- What call `t` notes of an event is about what it has asked of the environment itself, the time
apart. -/
class Own {κ : Type} (note : ℕ → Event → Option κ) : Prop where
  started : ∀ t a, note t (.started a) = none
  other : ∀ t a o r, a.tid ≠ t → note t (.ran a o r) = none
  now : ∀ t a r, note t (.ran a (.host .now) r) = none
  mem : ∀ t a c r, note t (.ran a (.mem c) r) = none
  redis : ∀ t a c r, note t (.ran a (.redis c) r) = none

section
variable {κ : Type} (b : Backend) (t : ℕ) (j : String) (note : ℕ → Event → Option κ)

/-- What call `t` has noted. -/
def noted (log : List Event) : List κ := log.filterMap (note t)

/-- Only call `t` writes the record of job `j`. -/
def OneWriter (a : Actor) (_ : World) (o : Op) : Prop := Touches b j o → a.tid = t

/-- The record of job `j`, and what `t` has noted: nobody else changes them. -/
def view (u : ℕ) (w : World) : Option (Option Job × List κ) :=
  if u = t then some (lookup b w.state j, noted t note w.log) else none

/-- There is a record of job `j`, and it is so. -/
def Now (φ : Job → List κ → Prop) (w : World) : Prop :=
  ∃ rec, lookup b w.state j = some rec ∧ φ rec (noted t note w.log)

/-- **What holds of the record of a job with one writer.** -/
def sole [Own note] (post : Actor → Outcome → World → Prop) :
    Spec (clients b fun _ => true) :=
  viewSpec (OneWriter b t j) (fun w => (lookup b w.state j).isSome) (view b t j note) post
    (fun w a h => ⟨h, fun u => by
      have hstart : note t (.started a) = none := Own.started t a
      simp [view, noted, World.start, hstart]⟩)

end

variable {κ : Type} {b : Backend} {t : ℕ} {j : String} {note : ℕ → Event → Option κ}
  [hown : Own note] {post : Actor → Outcome → World → Prop} {a : Actor}
  {φ ψ : Job → List κ → Prop}

omit hown in
theorem noted_fire {w w' : World} {o : Op} {i : Input} {r : o.Answer}
    (hf : w.fire a o i = some (r, w')) :
    noted t note w'.log = noted t note w.log ++ (note t (.ran a o r)).toList := by
  obtain ⟨s, -, rfl⟩ := World.fire_eq_some.mp hf
  exact Lists.Slots.filterMap_concat _ _ _

variable (note) in
/-- A new call has noted nothing. -/
theorem noted_of_new {w : World} (hat : a.tid = t) (hnew : New a w) :
    noted t note w.log = [] := by
  refine List.filterMap_eq_nil_iff.mpr fun e he => ?_
  have hne : e.actor.tid ≠ t := hat ▸ hnew.tid e he
  cases e with
  | started a' => exact hown.started t a'
  | ran a' o r => exact hown.other t a' o r hne

theorem lookup_fire {w w' : World} {o : Op} {i : Input} {r : o.Answer}
    (hf : w.fire a o i = some (r, w')) :
    lookup b w'.state j = written b o (toISOString i.ms) j (lookup b w.state j) := by
  obtain ⟨s, hs, rfl⟩ := World.fire_eq_some.mp hf
  exact lookup_exec hs b j

variable (note) in
/-- **Every primitive** leaves a record, and the view to the one who writes it. -/
theorem sole_fire {w w' : World} {o : Op} {i : Input} {r : o.Answer}
    (hw : (lookup b w.state j).isSome) (hone : OneWriter b t j a w o)
    (hf : w.fire a o i = some (r, w')) :
    (lookup b w'.state j).isSome ∧ ∀ u, u ≠ a.tid → view b t j note u w' = view b t j note u w := by
  rw [lookup_fire hf]
  refine ⟨written_isSome hw, fun u hu => ?_⟩
  unfold view
  split_ifs with hut
  · subst hut
    have hnot : ¬ Touches b j o := fun h => hu (hone h).symm
    rw [lookup_fire hf, written_of_not_touches hnot, noted_fire hf,
      hown.other u a o r fun h => hu h.symm]
    simp
  · rfl

/-! ### The one writer -/

section
variable {E : JsError → World → Prop}

/-- What is so stays so while the writer is suspended. -/
theorem stable_now (ha : a.tid = t) : Stable (sole b t j note post) a (Now b t j note φ) := by
  rintro w w' ⟨rec, hl, hφ⟩ hr hi
  have hv : view b t j note a.tid w' = view b t j note a.tid w := hr
  rw [view, view, if_pos ha, if_pos ha, Option.some.injEq, Prod.mk.injEq] at hv
  exact ⟨rec, hv.1.trans hl, hv.2 ▸ hφ⟩

/-- A primitive. -/
theorem triple_op {o : Op} {R : o.Answer → Job → List κ → Prop}
    (h : ∀ (w : World) (i : Input) r s rec, lookup b w.state j = some rec →
      φ rec (noted t note w.log) → exec o i w.state = some (r, s) →
      ∃ rec', written b o (toISOString i.ms) j (some rec) = some rec' ∧
        R r rec' (noted t note w.log ++ (note t (.ran a o r)).toList)) :
    Triple (sole b t j note post) a (Now b t j note φ)
      (call (S := api) o : Async o.Answer) (fun r => Now b t j note (R r)) E := by
  refine triple_call fun w hi ⟨rec, hl, hφ⟩ => ⟨trivial, fun i r w' hone hf => ?_⟩
  obtain ⟨hi', hv⟩ := sole_fire note hi hone hf
  obtain ⟨s, hs, -⟩ := World.fire_eq_some.mp hf
  obtain ⟨rec', hl', hR⟩ := h w i r s rec hl hφ hs
  refine ⟨hi', hv, rec', ?_, ?_⟩
  · rw [lookup_fire hf, hl, hl']
  · rw [noted_fire hf]
    exact hR

/-- A question to the environment. -/
theorem triple_ask {o : HostOp} {R : o.Answer → Job → List κ → Prop}
    (h : ∀ r rec l, φ rec l → R r rec (l ++ (note t (.ran a (.host o) r)).toList)) :
    Triple (sole b t j note post) a (Now b t j note φ) (host o)
      (fun r => Now b t j note (R r)) E :=
  triple_op fun _ _ r _ rec _ hφ _ => ⟨rec, by cases b <;> rfl, h r rec _ hφ⟩

/-- One whose answer is not noted. -/
theorem triple_host {o : HostOp} (ho : ∀ r, note t (.ran a (.host o) r) = none) :
    Triple (sole b t j note post) a (Now b t j note φ) (host o)
      (fun _ => Now b t j note φ) E :=
  triple_ask fun r rec l hφ => by rw [ho r]; simpa using hφ

theorem triple_isoNow :
    Triple (sole b t j note post) a (Now b t j note φ) isoNow
      (fun _ => Now b t j note φ) E :=
  Triple.bind (triple_host (hown.now t a)) fun _ => triple_pure fun _ h => h

/-- A Redis command that succeeds. -/
theorem triple_redis (ha : a.tid = t) {c : RedisCmd} {R : c.Reply → Job → List κ → Prop}
    (h : ∀ (w : World) (i : Input) r s rec, lookup b w.state j = some rec →
      φ rec (noted t note w.log) → exec (.redis c) i w.state = some (r, s) → ∃ rec' x,
        written b (.redis c) (toISOString i.ms) j (some rec) = some rec' ∧ r = .ok x ∧
        R x rec' (noted t note w.log)) :
    Triple (sole b t j note post) a (Now b t j note φ) (await (redis c))
      (fun x => Now b t j note (R x)) fun _ _ => False := by
  have hcall : Triple (sole b t j note post) a (Now b t j note φ)
      (call (S := api) (.redis c) : Async (Except JsError c.Reply))
      (fun r => Now b t j note fun rec l => ∃ x, r = .ok x ∧ R x rec l) fun _ _ => False := by
    refine triple_op (o := .redis c) fun w i r s rec hl hφ hs => ?_
    obtain ⟨rec', x, hw, hr, hR⟩ := h w i r s rec hl hφ hs
    exact ⟨rec', hw, x, hr, by simpa [hown.redis t a c r] using hR⟩
  refine triple_command (hcall.conseq (fun _ _ h => h) (fun r w hw => ?_) fun _ _ h => h)
    (stable_now ha) fun _ => stable_now ha
  obtain ⟨rec, hl, x, hx, hR⟩ := hw
  exact ⟨x, hx, rec, hl, hR⟩

/-- What the writer is given to refer to the record. -/
def Held (b : Backend) (j : String) (obj : JobObj) : Prop :=
  match b with
  | .memory => obj = .stored j
  | .redis => ∃ job, obj = .parsed job

theorem triple_getJob (ha : a.tid = t) :
    Triple (sole b t j note post) a (Now b t j note φ) (getJob b j)
      (fun obj => Now b t j note fun rec l => (∃ obj', obj = some obj' ∧ Held b j obj') ∧ φ rec l)
      fun _ _ => False := by
  cases b with
  | memory =>
    refine triple_op (o := .mem (.getJob j))
      (R := fun (obj : Option JobObj) rec l =>
        (∃ obj', obj = some obj' ∧ Held .memory j obj') ∧ φ rec l)
      fun w i r s rec hl hφ hs => ?_
    have hl' : w.state.mem.jobs j = some rec := hl
    cases hs
    have hget : w.state.mem.getJob j = some (.stored j) := by simp [MemoryQueue.getJob, hl']
    exact ⟨rec, rfl, ⟨.stored j, hget, rfl⟩, by simpa [hown.mem] using hφ⟩
  | redis =>
    refine (triple_redis ha (R := fun data rec l => (∃ job, data = some job) ∧ φ rec l)
      fun w i r s rec hl hφ hs => ?_).bind fun data => triple_pure fun w hw => ?_
    · cases hs
      exact ⟨rec, some rec, rfl, congrArg Except.ok hl, ⟨rec, rfl⟩, hφ⟩
    · obtain ⟨rec, hl, ⟨job, rfl⟩, hφ⟩ := hw
      exact ⟨rec, hl, ⟨.parsed job, rfl, job, rfl⟩, hφ⟩

/-- `updateJob` leaves an updated record, if perhaps not the present one. -/
theorem triple_updateJob (ha : a.tid = t) {u : PartialJob}
    (hψ : ∀ (rec rec' : Job) now l, φ rec' l → ψ (rec.update u now) l) :
    Triple (sole b t j note post) a (Now b t j note φ) (updateJob b j u)
      (fun _ => Now b t j note ψ) fun _ _ => False := by
  cases b with
  | memory =>
    refine Triple.bind (Q := fun (r : Except JsError Unit) => Now .memory t j note fun rec l =>
      r = .ok () ∧ ψ rec l) (triple_op (o := .mem (.updateJob j u)) fun w i r s rec hl hφ hs => ?_)
      fun r => triple_settle (fun _ w _ hw => ?_) fun err w hr hw => ?_
    · have hl' : w.state.mem.jobs j = some rec := hl
      cases hs
      have hok : (w.state.mem.updateJob j u (toISOString i.ms)).1 = .ok () := by
        simp [MemoryQueue.updateJob, hl']
      exact ⟨rec.update u (toISOString i.ms), if_pos rfl, hok,
        by simpa [hown.mem] using hψ _ _ _ _ hφ⟩
    · obtain ⟨rec, hl, -, h⟩ := hw
      exact ⟨rec, hl, h⟩
    · obtain ⟨rec, hl, h, -⟩ := hw
      rw [h] at hr
      cases hr
  | redis =>
    refine ((triple_getJob ha).await_never_throws fun _ => stable_now ha).bind fun obj => ?_
    refine Triple.of_pre (C := ∃ job, obj = some (.parsed job)) ?_ ?_
    · rintro w ⟨rec, hl, ⟨obj', rfl, job, rfl⟩, hφ⟩
      exact ⟨job, rfl⟩
    · rintro ⟨job, rfl⟩
      refine triple_isoNow.bind fun now => ?_
      refine triple_redis ha (c := .set (jobKey j) (job.update u now)) (R := fun _ => ψ)
        fun w i r s rec hl hφ hs => ?_
      cases hs
      exact ⟨job.update u now, (), if_pos rfl, rfl, hψ _ _ _ _ hφ.2⟩

end

/-! ### Runs -/

/-- The call that `t` is to be, and what is so when it has settled. -/
def After (b : Backend) (t : ℕ) (j : String) (note : ℕ → Event → Option κ) (call : Call)
    (ψ : Job → List κ → Prop) (a : Actor) (_ : Outcome) (w : World) : Prop :=
  a.tid = t ∧ a.tag = .call call → Now b t j note ψ w

/-- **All calls of clients keep this**, the one writer and the others. -/
theorem entries {call : Call}
    (htriple : ∀ a, a.tid = t → Triple (sole b t j note (After b t j note call ψ)) a
      (Now b t j note fun _ l => l = []) (perform b call) (fun _ => Now b t j note ψ)
      fun _ => Now b t j note ψ) :
    Entries (sole b t j note (After b t j note call ψ)) := by
  refine clients_entries fun c a w w' htag hw hnew hr hw' => ?_
  by_cases ha : a.tid = t ∧ a.tag = .call call
  · obtain ⟨hat, hcall⟩ := ha
    rw [htag, Task.call.injEq] at hcall
    subst hcall
    have hnone := noted_of_new note hat hnew
    have hv : view b t j note a.tid w' = view b t j note a.tid w := hr
    rw [view, view, if_pos hat, if_pos hat, Option.some.injEq, Prod.mk.injEq, hnone] at hv
    obtain ⟨rec, hl⟩ := Option.isSome_iff_exists.mp hw'
    exact (htriple a hat).toThread (fun _ _ _ h _ => h) (fun _ _ _ h _ => h)
      (fun _ => stable_now hat) (fun _ => stable_now hat) hw' ⟨rec, hl, hv.2⟩
  · exact safe_of_single ((single_perform b c).toThread _) (fun _ _ => trivial)
      (fun w o i r w' hw hone hf => sole_fire note hw hone hf) (fun _ _ h => absurd h ha) hw'

/-- **What the one writer leaves is there when it has settled**, whatever other calls there are. -/
theorem now_of_done {call : Call}
    (htriple : ∀ a, a.tid = t → Triple (sole b t j note (After b t j note call ψ)) a
      (Now b t j note fun _ l => l = []) (perform b call) (fun _ => Now b t j note ψ)
      fun _ => Now b t j note ψ)
    {s : Store} {job : Job} (hjob : lookup b s j = some job) {c : Config (clients b fun _ => true)}
    (hc : Reaches (AnyStep (clients b fun _ => true)) (Config.init _ s) c) {out : Outcome}
    (hdone : c.pool[t]? = some (a, .done out)) (ha : a.tag = .call call)
    (hone : ∀ (d : Actor) o r, .ran d o r ∈ c.world.log → Touches b j o → d.tid = t) :
    a.tid = t ∧ Now b t j note ψ c.world := by
  have hok : Ok (sole b t j note (After b t j note call ψ)) c :=
    (Ok.init (Option.isSome_iff_exists.mpr ⟨job, hjob⟩)).reaches (entries htriple)
      (hc.allowed_of_log (g := fun d o => Touches b j o → d.tid = t) hone)
  have hat : a.tid = t := hok.wf.tid t a _ hdone
  exact ⟨hat, hok.post hdone ⟨hat, ha⟩⟩

end CodeHive.Api.SoleWriter
