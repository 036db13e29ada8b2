import CodeHive.Concurrency.Register
import CodeHive.Api.Clients

/-! # Two updates of one record

On Redis `updateJob` reads the text of a record, merges the update and writes the whole record back,
and other commands may come between. In memory the same update is one step. So two updates that name
disjoint sets of fields both last in memory, and on Redis only where they do not overlap. -/

namespace CodeHive.Api.LostUpdate

set_option autoImplicit false

open CodeHive.Js.Value CodeHive.Api.Types CodeHive.Api.Stores CodeHive.Api.Messages
open CodeHive.Api.Program CodeHive.Api.Queue CodeHive.Api.System CodeHive.Api.History
open CodeHive.Api.Records CodeHive.Api.Clients
open CodeHive.Concurrency.Calls CodeHive.Concurrency.Pool CodeHive.Concurrency.RelyGuarantee
open CodeHive.Concurrency.Triples CodeHive.Concurrency.Register

/-! ### Updates that name disjoint sets of fields -/

/-- No field is named by both. -/
structure DisjointFields (u v : PartialJob) : Prop where
  id : u.id = none ∨ v.id = none
  type : u.type = none ∨ v.type = none
  payload : u.payload = none ∨ v.payload = none
  status : u.status = none ∨ v.status = none
  workerId : u.workerId = none ∨ v.workerId = none
  createdAt : u.createdAt = none ∨ v.createdAt = none
  updatedAt : u.updatedAt = none ∨ v.updatedAt = none
  result : u.result = none ∨ v.result = none

/-- The same record, up to `updatedAt`. -/
structure Same (r r' : Job) : Prop where
  id : r.id = r'.id
  type : r.type = r'.type
  payload : r.payload = r'.payload
  status : r.status = r'.status
  workerId : r.workerId = r'.workerId
  createdAt : r.createdAt = r'.createdAt
  result : r.result = r'.result

/-- The record is `job` with the fields of both updates. -/
def Merged (job : Job) (u v : PartialJob) (rec : Job) : Prop := Same rec ((job.assign u).assign v)

/-- The fields that the update names are so already. -/
def Has (u : PartialJob) (job : Job) : Prop := Same (job.assign u) job

theorem DisjointFields.symm {u v : PartialJob} (h : DisjointFields u v) : DisjointFields v u :=
  ⟨h.id.symm, h.type.symm, h.payload.symm, h.status.symm, h.workerId.symm, h.createdAt.symm,
    h.updatedAt.symm, h.result.symm⟩

section
variable {r r' r'' job rec : Job} {u v : PartialJob}

theorem Same.symm (h : Same r r') : Same r' r :=
  ⟨h.id.symm, h.type.symm, h.payload.symm, h.status.symm, h.workerId.symm, h.createdAt.symm,
    h.result.symm⟩

theorem Same.trans (h : Same r r') (h' : Same r' r'') : Same r r'' :=
  ⟨h.id.trans h'.id, h.type.trans h'.type, h.payload.trans h'.payload, h.status.trans h'.status,
    h.workerId.trans h'.workerId, h.createdAt.trans h'.createdAt, h.result.trans h'.result⟩

theorem same_update (r : Job) (u : PartialJob) (now : String) :
    Same (r.update u now) (r.assign u) :=
  ⟨rfl, rfl, rfl, rfl, rfl, rfl, rfl⟩

theorem Same.assign (h : Same r r') (u : PartialJob) : Same (r.assign u) (r'.assign u) where
  id := congrArg u.id.getD h.id
  type := congrArg u.type.getD h.type
  payload := congrArg u.payload.getD h.payload
  status := congrArg u.status.getD h.status
  workerId := congrArg u.workerId.getD h.workerId
  createdAt := congrArg u.createdAt.getD h.createdAt
  result := congrArg u.result.getD h.result

theorem getD_comm {α : Type} {o o' : Option α} {x : α} (h : o = none ∨ o' = none) :
    o'.getD (o.getD x) = o.getD (o'.getD x) := by
  rcases h with rfl | rfl <;> rfl

/-- **Updates that name disjoint sets of fields commute.** -/
theorem same_assign_comm (h : DisjointFields u v) :
    Same ((job.assign u).assign v) ((job.assign v).assign u) :=
  ⟨getD_comm h.id, getD_comm h.type, getD_comm h.payload, getD_comm h.status, getD_comm h.workerId,
    getD_comm h.createdAt, getD_comm h.result⟩

theorem Merged.comm (h : DisjointFields u v) (hm : Merged job u v rec) : Merged job v u rec :=
  Same.trans hm (same_assign_comm h)

/-- One update after the other. -/
theorem merged_update_update (job : Job) (u v : PartialJob) (n m : String) :
    Merged job u v ((job.update u n).update v m) :=
  (same_update _ v m).trans ((same_update job u n).assign v)

theorem getD_absorb {α : Type} {o o' : Option α} {x : α} (h : o = none ∨ o' = none)
    (he : o'.getD x = o'.getD (o.getD x)) : o.getD x = x := by
  rcases h with rfl | rfl
  · rfl
  · exact he.symm

/-- The second update alone, with the fields of the first there already or not. -/
theorem merged_update_iff (h : DisjointFields u v) (now : String) :
    Merged job u v (job.update v now) ↔ Has u job := by
  constructor
  · intro hm
    exact ⟨getD_absorb h.id hm.id, getD_absorb h.type hm.type, getD_absorb h.payload hm.payload,
      getD_absorb h.status hm.status, getD_absorb h.workerId hm.workerId,
      getD_absorb h.createdAt hm.createdAt, getD_absorb h.result hm.result⟩
  · exact fun hu => (same_update job v now).trans (hu.symm.assign v)

end

/-! ### The accesses of a record on Redis -/

/-- A read or a write of the record of job `j`. -/
def accessOf (j : String) : Event → Option (Access Job)
  | .ran a (.redis (.get key)) (.ok (some rec)) =>
    if key = jobKey j then some (.read a.tid rec) else none
  | .ran a (.redis (.set key rec)) _ => if key = jobKey j then some (.write a.tid rec) else none
  | .ran a (.redis (.multiSetLpush key rec _ _)) _ =>
    if key = jobKey j then some (.write a.tid rec) else none
  | _ => none

def accesses (j : String) (log : List Event) : List (Access Job) := log.filterMap (accessOf j)

/-- The record is what the accesses make of `job`. -/
def Replayed (j : String) (job : Job) (w : World) : Prop :=
  ∃ rec, lookup .redis w.state j = some rec ∧ Replays (accesses j w.log) job rec

/-- The last two accesses of a call that updates the record. -/
def Updated (j : String) (u : PartialJob) (t : ℕ) (w : World) : Prop :=
  ∃ rec now, own Access.tid t (accesses j w.log) = [.read t rec, .write t (rec.update u now)]

/-- **What holds of the record of job `j` on Redis.** -/
def register (j : String) (job : Job) : Spec (clients .redis fun _ => true) :=
  viewSpec (fun _ _ _ => True) (Replayed j job) (fun t w => own Access.tid t (accesses j w.log))
    (fun a _ w => ∀ u, a.tag = .call (.updateJob j u) → Updated j u a.tid w)
    (fun w a h => by
      have hs : accesses j (w.start a).log = accesses j w.log := by
        have : accessOf j (.started a) = none := rfl
        simp [accesses, World.start, this]
      exact ⟨by obtain ⟨rec, hl, hr⟩ := h; exact ⟨rec, hl, hs.symm ▸ hr⟩, fun t => by rw [hs]⟩)

variable {j : String} {job : Job} {a : Actor} {w w' : World}

theorem accesses_fire {o : Op} {i : Input} {r : o.Answer} (hf : w.fire a o i = some (r, w')) :
    accesses j w'.log = accesses j w.log ++ (accessOf j (.ran a o r)).toList := by
  obtain ⟨s, -, rfl⟩ := World.fire_eq_some.mp hf
  exact Lists.Slots.filterMap_concat _ _ _

theorem accessOf_tid {e : Event} {x : Access Job} (h : accessOf j e = some x) :
    x.tid = e.actor.tid := by
  unfold accessOf at h
  split at h
  · split_ifs at h; cases h; rfl
  · split_ifs at h; cases h; rfl
  · split_ifs at h; cases h; rfl
  · cases h

/-- A primitive takes the record along its own access. -/
theorem exists_written {o : Op} {i : Input} {s s' : Store} {r : o.Answer} {rec : Job}
    (hs : exec o i s = some (r, s')) (hl : lookup .redis s j = some rec) : ∃ rec',
    written .redis o (toISOString i.ms) j (some rec) = some rec' ∧
      Replays (accessOf j (.ran a o r)).toList rec rec' := by
  cases o with
  | host o => exact ⟨rec, rfl, rfl⟩
  | mem c => exact ⟨rec, rfl, rfl⟩
  | redis c =>
    cases c with
    | get key =>
      cases hs
      by_cases hk : key = jobKey j
      · subst hk
        have hl' : s.redis.strings (jobKey j) = some rec := hl
        exact ⟨rec, rfl, by simp [Redis.exec, hl', accessOf, Replays]⟩
      · refine ⟨rec, rfl, ?_⟩
        cases hget : s.redis.strings key <;> simp [Redis.exec, hget, accessOf, hk, Replays]
    | set key val =>
      by_cases hk : key = jobKey j
      · exact ⟨val, if_pos hk.symm, by simp [accessOf, hk, Replays]⟩
      · exact ⟨rec, if_neg fun h => hk h.symm, by simp [accessOf, hk, Replays]⟩
    | multiSetLpush key val list id =>
      by_cases hk : key = jobKey j
      · exact ⟨val, if_pos hk.symm, by simp [accessOf, hk, Replays]⟩
      · exact ⟨rec, if_neg fun h => hk h.symm, by simp [accessOf, hk, Replays]⟩
    | _ => exact ⟨rec, rfl, rfl⟩

/-- **Every primitive** keeps the record in step with its accesses. -/
theorem replayed_fire {o : Op} {i : Input} {r : o.Answer} (h : Replayed j job w)
    (hf : w.fire a o i = some (r, w')) : Replayed j job w' := by
  obtain ⟨rec, hl, hr⟩ := h
  obtain ⟨s, hs, rfl⟩ := World.fire_eq_some.mp hf
  obtain ⟨rec', hw, hr'⟩ := exists_written (a := a) hs hl
  refine ⟨rec', by rw [← hw, ← hl]; exact lookup_exec hs .redis j, ?_⟩
  rw [accesses_fire hf]
  exact replays_append.mpr ⟨rec, hr, hr'⟩

/-- A primitive is no access of another call. -/
theorem own_fire {o : Op} {i : Input} {r : o.Answer} (hf : w.fire a o i = some (r, w')) {t : ℕ}
    (ht : t ≠ a.tid) :
    own Access.tid t (accesses j w'.log) = own Access.tid t (accesses j w.log) := by
  rw [accesses_fire hf, own, own, List.filter_append]
  cases hx : accessOf j (.ran a o r) with
  | none => simp
  | some x =>
    have hxt : x.tid ≠ t := fun h => ht (h.symm.trans (accessOf_tid hx))
    simp [hxt]

/-! ### `updateJob` on Redis -/

/-- The accesses of the call are these. -/
def Did (j : String) (t : ℕ) (l : List (Access Job)) (w : World) : Prop :=
  own Access.tid t (accesses j w.log) = l

section
variable {l : List (Access Job)} {E : JsError → World → Prop}

theorem stable_did {t : ℕ} (ht : a.tid = t) : Stable (register j job) a (Did j t l) := by
  rintro w w' h hr -
  subst ht
  exact Eq.trans hr h

/-- A primitive, and the access that it is. -/
theorem triple_op {o : Op} {R : o.Answer → World → Prop}
    (h : ∀ (w : World) (i : Input) r w', Replayed j job w → w.fire a o i = some (r, w') →
      own Access.tid a.tid (accesses j w'.log) = l ++ (accessOf j (.ran a o r)).toList → R r w') :
    Triple (register j job) a (Did j a.tid l) (call (S := api) o : Async o.Answer) R E := by
  refine triple_call fun w hw hl => ⟨trivial, fun i r w' _ hf => ?_⟩
  refine ⟨replayed_fire hw hf, fun t ht => own_fire hf ht, h w i r w' hw hf ?_⟩
  rw [accesses_fire hf, own, List.filter_append]
  change own Access.tid a.tid (accesses j w.log) ++ _ = _
  rw [show own Access.tid a.tid (accesses j w.log) = l from hl]
  cases hx : accessOf j (.ran a o r) with
  | none => rfl
  | some x =>
    have hxt : x.tid = a.tid := accessOf_tid hx
    simp [hxt]

theorem triple_isoNow : Triple (register j job) a (Did j a.tid l) isoNow
    (fun _ => Did j a.tid l) E :=
  (triple_op (o := .host .now) fun w i r w' _ _ h => by
    simpa [accessOf, Did] using h).bind fun _ =>
    triple_pure fun _ h => h

/-- A command that succeeds, with what is known of its reply. -/
theorem triple_redis {c : RedisCmd} {φ : c.Reply → Prop}
    (h : ∀ (w : World) (i : Input) r w', Replayed j job w →
      w.fire a (.redis c) i = some (r, w') → ∃ x, r = .ok x ∧ φ x) :
    Triple (register j job) a (Did j a.tid l) (await (redis c))
      (fun x w => Did j a.tid (l ++ (accessOf j (.ran a (.redis c) (.ok x))).toList) w ∧ φ x)
      fun _ _ => False := by
  refine triple_command (triple_op (o := .redis c) fun w i r w' hw hf hown => ?_) (stable_did rfl)
    fun x w w' hw hr hi => ⟨stable_did rfl w w' hw.1 hr hi, hw.2⟩
  obtain ⟨x, rfl, hx⟩ := h w i r w' hw hf
  exact ⟨x, rfl, hown, hx⟩

/-- `getJob` reads the record. -/
theorem triple_getJob : Triple (register j job) a (Did j a.tid []) (getJob .redis j)
    (fun obj w => ∃ rec, obj = some (.parsed rec) ∧ Did j a.tid [.read a.tid rec] w)
    fun _ _ => False := by
  refine (triple_redis (c := .get (jobKey j)) (φ := fun data => ∃ rec, data = some rec)
    fun w i r w' hw hf => ?_).bind fun data => triple_pure fun w hw => ?_
  · obtain ⟨rec, hl, -⟩ := hw
    obtain ⟨s, hs, -⟩ := World.fire_eq_some.mp hf
    cases hs
    exact ⟨some rec, congrArg Except.ok hl, rec, rfl⟩
  · obtain ⟨hdid, rec, rfl⟩ := hw
    exact ⟨rec, rfl, by simpa [accessOf] using hdid⟩

/-- `SET` of a record. -/
theorem triple_set (rec : Job) : Triple (register j job) a (Did j a.tid l)
    (await (redis (.set (jobKey j) rec))) (fun _ => Did j a.tid (l ++ [.write a.tid rec]))
    fun _ _ => False := by
  refine (triple_redis (φ := fun _ => True) fun w i r w' hw hf => ?_).conseq (fun _ _ h => h)
    (fun _ w hw => ?_) fun _ _ h => h
  · obtain ⟨s, hs, -⟩ := World.fire_eq_some.mp hf
    cases hs
    exact ⟨(), rfl, trivial⟩
  · simpa [accessOf] using hw.1

/-- **`updateJob` on Redis** is a read of the record and a write of what the update makes of it. -/
theorem triple_updateJob (u : PartialJob) : Triple (register j job) a (Did j a.tid [])
    (updateJob .redis j u) (fun _ => Updated j u a.tid) fun _ _ => False := by
  have hstable : ∀ obj, Stable (register j job) a fun w => ∃ rec, obj = some (JobObj.parsed rec) ∧
      Did j a.tid [.read a.tid rec] w := fun obj w w' ⟨rec, hobj, hdid⟩ hr hi =>
    ⟨rec, hobj, stable_did rfl w w' hdid hr hi⟩
  refine (triple_getJob.await_never_throws hstable).bind fun obj => ?_
  refine Triple.of_pre (C := ∃ rec, obj = some (.parsed rec)) (fun w ⟨rec, h, _⟩ => ⟨rec, h⟩) ?_
  rintro ⟨rec, rfl⟩
  have hwrite : Triple (register j job) a (Did j a.tid [.read a.tid rec]) (do
      let now ← isoNow
      await (redis (.set (jobKey j) (rec.update u now))))
      (fun _ => Updated j u a.tid) fun _ _ => False :=
    triple_isoNow.bind fun now => (triple_set (rec.update u now)).conseq (fun _ _ h => h)
      (fun _ _ h => ⟨rec, now, h⟩) fun _ _ h => h
  refine hwrite.conseq (fun w _ ⟨rec', h, hdid⟩ => ?_) (fun _ _ h => h) fun _ _ h => h
  cases h
  exact hdid

end

/-! ### Runs on Redis -/

/-- **All calls of clients keep this**, those that update the record and the others. -/
theorem entries_redis : Entries (register j job) := by
  refine clients_entries fun c a w w' htag hw hnew hr hw' => ?_
  by_cases hc : ∃ u, c = .updateJob j u
  · obtain ⟨u, rfl⟩ := hc
    have hnone : own Access.tid a.tid (accesses j w.log) = [] := by
      refine List.filter_eq_nil_iff.mpr fun x hx => ?_
      obtain ⟨e, he, hex⟩ := List.mem_filterMap.mp hx
      simpa [accessOf_tid hex] using hnew.tid e he
    have htriple : Triple (register j job) a (Did j a.tid []) (perform .redis (.updateJob j u))
        (fun _ => Updated j u a.tid) fun _ _ => False :=
      (triple_updateJob u).bind fun _ => triple_pure fun _ h => h
    refine htriple.toThread (fun _ w _ hu v hv => ?_) (fun _ _ _ h => h.elim)
      (fun _ w w' ⟨rec, now, h⟩ hr _ => ⟨rec, now, Eq.trans hr h⟩) (fun _ _ _ h => h.elim) hw'
      (Eq.trans hr hnone)
    rw [htag] at hv
    cases hv
    exact hu
  · refine safe_of_single ((single_perform .redis c).toThread _) (fun _ _ => trivial)
      (fun w o i r w' hw _ hf => ⟨replayed_fire hw hf, fun t ht => own_fire hf ht⟩)
      (fun _ _ u hu => ?_) hw'
    rw [htag] at hu
    cases hu
    exact absurd ⟨u, rfl⟩ hc

/-! ### The updates of a record in memory -/

/-- An update of the record of job `j`, and the call that made it. -/
def updateOf (j : String) : Event → Option (ℕ × PartialJob)
  | .ran a (.mem (.updateJob i u)) _ => if i = j then some (a.tid, u) else none
  | _ => none

def updates (j : String) (log : List Event) : List (ℕ × PartialJob) := log.filterMap (updateOf j)

/-- One update after the other. -/
def applied (job : Job) (l : List (ℕ × PartialJob)) : Job := l.foldl (fun r x => r.assign x.2) job

/-- The record is what the updates make of `job`. -/
def Applied (j : String) (job : Job) (w : World) : Prop :=
  ∃ rec, lookup .memory w.state j = some rec ∧ Same rec (applied job (updates j w.log))

/-- The record of job `j` is written only by calls of `updateJob`. -/
def OnlyUpdates (j : String) (a : Actor) (_ : World) (o : Op) : Prop :=
  Touches .memory j o → ∃ u, a.tag = .call (.updateJob j u)

/-- The updates that call `t` has made are these. -/
def Made (j : String) (t : ℕ) (l : List (ℕ × PartialJob)) (w : World) : Prop :=
  own Prod.fst t (updates j w.log) = l

/-- **What holds of the record of job `j` in memory.** -/
def object (j : String) (job : Job) : Spec (clients .memory fun _ => true) :=
  viewSpec (OnlyUpdates j) (Applied j job) (fun t w => own Prod.fst t (updates j w.log))
    (fun a _ w => ∀ u, a.tag = .call (.updateJob j u) → Made j a.tid [(a.tid, u)] w)
    (fun w a h => by
      have hs : updates j (w.start a).log = updates j w.log := by
        have : updateOf j (.started a) = none := rfl
        simp [updates, World.start, this]
      exact ⟨by obtain ⟨rec, hl, hr⟩ := h; exact ⟨rec, hl, hs.symm ▸ hr⟩, fun t => by rw [hs]⟩)

theorem updates_fire {o : Op} {i : Input} {r : o.Answer} (hf : w.fire a o i = some (r, w')) :
    updates j w'.log = updates j w.log ++ (updateOf j (.ran a o r)).toList := by
  obtain ⟨s, -, rfl⟩ := World.fire_eq_some.mp hf
  exact Lists.Slots.filterMap_concat _ _ _

theorem updateOf_tid {e : Event} {x : ℕ × PartialJob} (h : updateOf j e = some x) :
    x.1 = e.actor.tid := by
  unfold updateOf at h
  split at h
  · split_ifs at h; cases h; rfl
  · cases h

/-- A primitive that leaves the record is no update of it. -/
theorem updateOf_none {o : Op} {r : o.Answer} (h : ¬ Touches .memory j o) :
    updateOf j (.ran a o r) = none := by
  unfold updateOf
  split
  · next he => cases he; exact if_neg fun hij => h hij.symm
  · rfl

theorem applied_keep {o : Op} {i : Input} {r : o.Answer} (h : Applied j job w)
    (ho : ¬ Touches .memory j o) (hf : w.fire a o i = some (r, w')) :
    Applied j job w' ∧ updates j w'.log = updates j w.log := by
  obtain ⟨rec, hl, hs⟩ := h
  have hup : updates j w'.log = updates j w.log := by simp [updates_fire hf, updateOf_none ho]
  obtain ⟨s, he, rfl⟩ := World.fire_eq_some.mp hf
  refine ⟨⟨rec, ?_, hup.symm ▸ hs⟩, hup⟩
  rw [← hl]
  exact (lookup_exec he .memory j).trans (written_of_not_touches ho)

theorem applied_update {u : PartialJob} {i : Input} {r : Except JsError Unit} (h : Applied j job w)
    (hf : w.fire a (.mem (.updateJob j u)) i = some (r, w')) :
    Applied j job w' ∧ updates j w'.log = updates j w.log ++ [(a.tid, u)] := by
  obtain ⟨rec, hl, hs⟩ := h
  have hup : updates j w'.log = updates j w.log ++ [(a.tid, u)] := by
    simp [updates_fire hf, updateOf]
  obtain ⟨s, he, rfl⟩ := World.fire_eq_some.mp hf
  have hl' : lookup .memory s j = _ := lookup_exec (o := .mem (.updateJob j u)) he .memory j
  refine ⟨⟨rec.update u (toISOString i.ms), ?_, ?_⟩, hup⟩
  · rw [hl', hl]
    exact if_pos rfl
  · rw [hup, applied, List.foldl_append]
    exact (same_update _ _ _).trans (hs.assign u)

/-- **`updateJob` in memory** is one update of the record. -/
theorem triple_updateJob_memory {u : PartialJob} :
    Triple (object j job) a (Made j a.tid []) (updateJob .memory j u)
      (fun _ => Made j a.tid [(a.tid, u)]) fun _ => Made j a.tid [(a.tid, u)] := by
  refine Triple.bind (triple_call fun w hw hl => ⟨trivial, fun i r w' _ hf => ?_⟩) fun r =>
    triple_settle (fun _ _ _ h => h) fun _ _ _ h => h
  obtain ⟨hw'', hup⟩ := applied_update hw hf
  refine ⟨hw'', fun t ht => ?_, ?_⟩
  · change own Prod.fst t (updates j w'.log) = own Prod.fst t (updates j w.log)
    simp [hup, own, Ne.symm ht]
  · rw [Made, hup, own, List.filter_append]
    change own Prod.fst a.tid (updates j w.log) ++ _ = _
    rw [show own Prod.fst a.tid (updates j w.log) = [] from hl]
    simp

/-- **All calls of clients keep this.** -/
theorem entries_memory : Entries (object j job) := by
  refine clients_entries fun c a w w' htag hw hnew hr hw' => ?_
  by_cases hc : ∃ u, c = .updateJob j u
  · obtain ⟨u, rfl⟩ := hc
    have hnone : own Prod.fst a.tid (updates j w.log) = [] := by
      refine List.filter_eq_nil_iff.mpr fun x hx => ?_
      obtain ⟨e, he, hex⟩ := List.mem_filterMap.mp hx
      simpa [updateOf_tid hex] using hnew.tid e he
    have htriple : Triple (object j job) a (Made j a.tid []) (perform .memory (.updateJob j u))
        (fun _ => Made j a.tid [(a.tid, u)]) fun _ => Made j a.tid [(a.tid, u)] :=
      triple_updateJob_memory.bind fun _ => triple_pure fun _ h => h
    have hpost : ∀ w, Made j a.tid [(a.tid, u)] w → ∀ v, a.tag = .call (.updateJob j v) →
        Made j a.tid [(a.tid, v)] w := by
      intro w hu v hv
      rw [htag] at hv
      cases hv
      exact hu
    exact htriple.toThread (fun _ w _ => hpost w) (fun _ w _ => hpost w)
      (fun _ w w' h hr _ => Eq.trans hr h) (fun _ w w' h hr _ => Eq.trans hr h) hw'
      (Eq.trans hr hnone)
  · refine safe_of_single ((single_perform .memory c).toThread _) (fun _ _ => trivial)
      (fun w o i r w' hw hone hf => ?_) (fun _ _ u hu => ?_) hw'
    · have ho : ¬ Touches .memory j o := fun ht => by
        obtain ⟨u, hu⟩ := hone ht
        rw [htag] at hu
        cases hu
        exact hc ⟨u, rfl⟩
      obtain ⟨hw'', hup⟩ := applied_keep hw ho hf
      exact ⟨hw'', fun t _ => congrArg (own Prod.fst t) hup⟩
    · rw [htag] at hu
      cases hu
      exact absurd ⟨u, rfl⟩ hc

/-! ### Two updates -/

/-- The accesses of two calls. -/
def accessesOf (j : String) (t u : ℕ) (log : List Event) : List (Access Job) :=
  (accesses j log).filter fun x => x.tid = t ∨ x.tid = u

theorem own_filter {t : ℕ} {l : List (Access Job)} {p : Access Job → Bool}
    (hp : ∀ x ∈ l, x.tid = t → p x = true) :
    own Access.tid t (l.filter p) = own Access.tid t l := by
  rw [own, own, List.filter_filter]
  refine List.filter_congr fun x hx => ?_
  by_cases h : x.tid = t
  · simp [h, hp x hx h]
  · simp [h]

/-- Two updates in memory, by calls `t₁` and `t₂`. -/
theorem merged_of_updates {t₁ t₂ : ℕ} {u v : PartialJob} {rec : Job} {l : List (ℕ × PartialJob)}
    (hne : t₁ ≠ t₂) (hdisjoint : DisjointFields u v) (hall : ∀ x ∈ l, x.1 = t₁ ∨ x.1 = t₂)
    (h₁ : own Prod.fst t₁ l = [(t₁, u)]) (h₂ : own Prod.fst t₂ l = [(t₂, v)])
    (hs : Same rec (applied job l)) : Merged job u v rec := by
  have hshuffle := shuffle_own Prod.fst hne hall
  rw [h₁, h₂] at hshuffle
  rcases shuffle_singles hshuffle with rfl | rfl
  · exact hs
  · exact Merged.comm hdisjoint.symm hs

/-- Two updates on Redis, by calls `t₁` and `t₂`. -/
theorem merged_iff_of_accesses {t₁ t₂ : ℕ} {u v : PartialJob} {rec r₁ r₂ : Job} {n₁ n₂ : String}
    {l : List (Access Job)} (hne : t₁ ≠ t₂) (hdisjoint : DisjointFields u v)
    (hall : ∀ x ∈ l, x.tid = t₁ ∨ x.tid = t₂)
    (h₁ : own Access.tid t₁ l = [.read t₁ r₁, .write t₁ (r₁.update u n₁)])
    (h₂ : own Access.tid t₂ l = [.read t₂ r₂, .write t₂ (r₂.update v n₂)])
    (hr : Replays l job rec) : Merged job u v rec ↔
      Serial t₁ t₂ l ∨ Serial t₂ t₁ l ∨ (writers l = [t₁, t₂] ∧ Has u job) ∨
        (writers l = [t₂, t₁] ∧ Has v job) := by
  rcases two_updates (f := fun r => r.update u n₁) (g := fun r => r.update v n₂) hne hr hall h₁ h₂
    with ⟨hs, rfl⟩ | ⟨hs, rfl⟩ | ⟨hs, hs', hw, rfl⟩ | ⟨hs, hs', hw, rfl⟩
  · exact iff_of_true (merged_update_update _ _ _ _ _) (Or.inl hs)
  · exact iff_of_true (Merged.comm hdisjoint.symm (merged_update_update _ _ _ _ _))
      (Or.inr (Or.inl hs))
  · rw [merged_update_iff hdisjoint]
    simp [hs, hs', hw, hne]
  · have hcomm : Merged job u v (job.update u n₁) ↔ Merged job v u (job.update u n₁) :=
      ⟨Merged.comm hdisjoint, Merged.comm hdisjoint.symm⟩
    rw [hcomm, merged_update_iff hdisjoint.symm]
    simp [hs, hs', hw, Ne.symm hne]

/-- An update of the record is a primitive that may change it. -/
theorem touches_of_updates {log : List Event} {x : ℕ × PartialJob} (hx : x ∈ updates j log) :
    ∃ (d : Actor) (o : Op) (r : o.Answer), .ran d o r ∈ log ∧ Touches .memory j o ∧ d.tid = x.1 := by
  obtain ⟨e, he, hex⟩ := List.mem_filterMap.mp hx
  unfold updateOf at hex
  split at hex
  · next d i u r =>
    split_ifs at hex with hij
    cases hex
    exact ⟨d, .mem (.updateJob i u), r, he, hij.symm, rfl⟩
  · cases hex

/-- And so is a write of it. -/
theorem touches_of_accesses {log : List Event} {t : ℕ} {z : Job}
    (hz : .write t z ∈ accesses j log) :
    ∃ (d : Actor) (o : Op) (r : o.Answer), .ran d o r ∈ log ∧ Touches .redis j o ∧ d.tid = t := by
  obtain ⟨e, he, hez⟩ := List.mem_filterMap.mp hz
  unfold accessOf at hez
  split at hez
  · split_ifs at hez
    cases hez
  · next d key val r =>
    split_ifs at hez with hk
    cases hez
    exact ⟨d, .redis (.set key z), r, he, hk.symm, rfl⟩
  · next d key val list i r =>
    split_ifs at hez with hk
    cases hez
    exact ⟨d, .redis (.multiSetLpush key z list i), r, he, hk.symm, rfl⟩
  · cases hez

section
variable {s : Store} {t₁ t₂ : ℕ} {a₁ a₂ : Actor} {out₁ out₂ : Outcome} {u v : PartialJob}

/-- In memory the record has the fields of both calls. -/
theorem merged_in_memory (hjob : lookup .memory s j = some job)
    {c : Config (clients .memory fun _ => true)}
    (hc : Reaches (AnyStep (clients .memory fun _ => true)) (Config.init _ s) c) (hne : t₁ ≠ t₂)
    (h₁ : c.pool[t₁]? = some (a₁, .done out₁)) (hu : a₁.tag = .call (.updateJob j u))
    (h₂ : c.pool[t₂]? = some (a₂, .done out₂)) (hv : a₂.tag = .call (.updateJob j v))
    (hdisjoint : DisjointFields u v)
    (hone : ∀ (d : Actor) o r, .ran d o r ∈ c.world.log → Touches .memory j o →
      d.tid = t₁ ∨ d.tid = t₂) :
    ∃ rec, lookup .memory c.world.state j = some rec ∧ Merged job u v rec := by
  have hwf : Wf c := hc.wf (.init s)
  have honly : ∀ (d : Actor) o r, .ran d o r ∈ c.world.log → OnlyUpdates j d c.world o := by
    intro d o r he ht
    obtain ⟨p, hp⟩ := hwf.log _ he
    have hp' : c.pool[d.tid]? = some (d, p) := hp
    rcases hone d o r he ht with hd | hd
    · rw [hd, h₁, Option.some.injEq, Prod.mk.injEq] at hp'
      exact ⟨u, hp'.1 ▸ hu⟩
    · rw [hd, h₂, Option.some.injEq, Prod.mk.injEq] at hp'
      exact ⟨v, hp'.1 ▸ hv⟩
  have hinit : Applied j job ⟨s, []⟩ := ⟨job, hjob, ⟨rfl, rfl, rfl, rfl, rfl, rfl, rfl⟩⟩
  have hok : Ok (object j job) c := (Ok.init hinit).reaches entries_memory
    (hc.allowed_of_log (g := fun d o => OnlyUpdates j d c.world o) honly)
  obtain ⟨rec, hl, hs⟩ : Applied j job c.world := hok.inv
  have hmade₁ : Made j t₁ [(t₁, u)] c.world := hwf.tid t₁ a₁ _ h₁ ▸ hok.post h₁ u hu
  have hmade₂ : Made j t₂ [(t₂, v)] c.world := hwf.tid t₂ a₂ _ h₂ ▸ hok.post h₂ v hv
  have hall : ∀ x ∈ updates j c.world.log, x.1 = t₁ ∨ x.1 = t₂ := by
    intro x hx
    obtain ⟨d, o, r, he, ht, hd⟩ := touches_of_updates hx
    exact hd ▸ hone d o r he ht
  exact ⟨rec, hl, merged_of_updates hne hdisjoint hall hmade₁ hmade₂ hs⟩

/-- On Redis it depends on the order of the accesses. -/
theorem merged_on_redis (hjob : lookup .redis s j = some job)
    {c : Config (clients .redis fun _ => true)}
    (hc : Reaches (AnyStep (clients .redis fun _ => true)) (Config.init _ s) c) (hne : t₁ ≠ t₂)
    (h₁ : c.pool[t₁]? = some (a₁, .done out₁)) (hu : a₁.tag = .call (.updateJob j u))
    (h₂ : c.pool[t₂]? = some (a₂, .done out₂)) (hv : a₂.tag = .call (.updateJob j v))
    (hdisjoint : DisjointFields u v)
    (hone : ∀ (d : Actor) o r, .ran d o r ∈ c.world.log → Touches .redis j o →
      d.tid = t₁ ∨ d.tid = t₂) :
    ∃ rec, lookup .redis c.world.state j = some rec ∧ (Merged job u v rec ↔
      Serial t₁ t₂ (accessesOf j t₁ t₂ c.world.log) ∨
        Serial t₂ t₁ (accessesOf j t₁ t₂ c.world.log) ∨
        (writers (accessesOf j t₁ t₂ c.world.log) = [t₁, t₂] ∧ Has u job) ∨
        (writers (accessesOf j t₁ t₂ c.world.log) = [t₂, t₁] ∧ Has v job)) := by
  have hwf : Wf c := hc.wf (.init s)
  have hinit : Replayed j job ⟨s, []⟩ := ⟨job, hjob, rfl⟩
  have hok : Ok (register j job) c := (Ok.init hinit).reaches entries_redis
    (hc.mono fun _ _ _ _ _ _ _ _ _ _ _ => trivial)
  obtain ⟨rec, hl, hreplay⟩ : Replayed j job c.world := hok.inv
  obtain ⟨r₁, n₁, hown₁⟩ : Updated j u t₁ c.world := hwf.tid t₁ a₁ _ h₁ ▸ hok.post h₁ u hu
  obtain ⟨r₂, n₂, hown₂⟩ : Updated j v t₂ c.world := hwf.tid t₂ a₂ _ h₂ ▸ hok.post h₂ v hv
  have hwriters : ∀ t z, .write t z ∈ accesses j c.world.log → t = t₁ ∨ t = t₂ := by
    intro t z hz
    obtain ⟨d, o, r, he, ht, hd⟩ := touches_of_accesses hz
    exact hd ▸ hone d o r he ht
  exact ⟨rec, hl, merged_iff_of_accesses hne hdisjoint
    (fun x hx => by simpa using (List.mem_filter.mp hx).2)
    ((own_filter fun x _ hx => by simp [hx]).trans hown₁)
    ((own_filter fun x _ hx => by simp [hx]).trans hown₂)
    (hreplay.filter fun t z hz => decide_eq_true (hwriters t z hz))⟩

end

/-- **No update is lost, as far as it goes.** Two calls of `updateJob` for one job name disjoint
sets of fields, have settled, and are the only ones to write its record. Then the record is the
stored one with the fields of both, up to `updatedAt` and in either order, if and only if the queue
is the in-memory one, or the accesses of one call came before those of the other, or the fields of
the call that wrote first were so already. -/
theorem no_lost_update (b : Backend) {s : Store} {j : String} {job : Job}
    (hjob : lookup b s j = some job) {c : Config (clients b fun _ => true)}
    (hc : Reaches (AnyStep (clients b fun _ => true)) (Config.init _ s) c)
    {t₁ t₂ : ℕ} {a₁ a₂ : Actor} {out₁ out₂ : Outcome} {u v : PartialJob} (hne : t₁ ≠ t₂)
    (h₁ : c.pool[t₁]? = some (a₁, .done out₁)) (hu : a₁.tag = .call (.updateJob j u))
    (h₂ : c.pool[t₂]? = some (a₂, .done out₂)) (hv : a₂.tag = .call (.updateJob j v))
    (hdisjoint : DisjointFields u v)
    (hone : ∀ (d : Actor) o r, .ran d o r ∈ c.world.log → Touches b j o →
      d.tid = t₁ ∨ d.tid = t₂) :
    (∃ rec, lookup b c.world.state j = some rec ∧ Merged job u v rec ∧ Merged job v u rec) ↔
      b = .memory ∨ Serial t₁ t₂ (accessesOf j t₁ t₂ c.world.log) ∨
        Serial t₂ t₁ (accessesOf j t₁ t₂ c.world.log) ∨
        (writers (accessesOf j t₁ t₂ c.world.log) = [t₁, t₂] ∧ Has u job) ∨
        (writers (accessesOf j t₁ t₂ c.world.log) = [t₂, t₁] ∧ Has v job) := by
  cases b with
  | memory =>
    obtain ⟨rec, hl, hm⟩ := merged_in_memory hjob hc hne h₁ hu h₂ hv hdisjoint hone
    exact iff_of_true ⟨rec, hl, hm, hm.comm hdisjoint⟩ (Or.inl rfl)
  | redis =>
    obtain ⟨rec, hl, hiff⟩ := merged_on_redis hjob hc hne h₁ hu h₂ hv hdisjoint hone
    constructor
    · rintro ⟨rec', hl', hm, -⟩
      rw [hl, Option.some.injEq] at hl'
      exact Or.inr (hiff.mp (hl' ▸ hm))
    · rintro (hb | hcond)
      · cases hb
      · have hm := hiff.mpr hcond
        exact ⟨rec, hl, hm, hm.comm hdisjoint⟩

/-! ### Two runs -/

/-- What `executeJob` records when it starts, and half of what a claim records. -/
def started : PartialJob := { status := some .running }
def claimed : PartialJob := { workerId := some (some "w") }

theorem disjoint_started : DisjointFields started claimed := by
  constructor <;> simp [started, claimed]

/-- Two updates arrive; a call reads the record; it writes it. -/
def arrivals : List (Label Task Input) :=
  [.arrive (.call (.updateJob "job" started)), .arrive (.call (.updateJob "job" claimed))]

def reading (t : ℕ) : List (Label Task Input) := turn t 1 {} ++ turn t 2 {}

def writing (t : ℕ) : List (Label Task Input) :=
  turn t 1 {} ++ turn t 2 {} ++ turn t 2 {} ++ turn t 1 {}

/-- Where two calls have been made, nobody else writes. -/
theorem two_writers {b : Backend} {c : Config (clients b fun _ => true)} (h : Wf c)
    (hlen : c.pool.length = 2) (d : Actor) (o : Op) (r : o.Answer)
    (he : .ran d o r ∈ c.world.log) : d.tid = 0 ∨ d.tid = 1 := by
  obtain ⟨p, hp⟩ := h.log _ he
  have hlt : d.tid < c.pool.length := (List.getElem?_eq_some_iff.mp hp).1
  omega

/-- One after the other. -/
def inTurn : List (Label Task Input) :=
  arrivals ++ reading 0 ++ writing 0 ++ reading 1 ++ writing 1

theorem no_lost_update_run : ∃ c rec,
    (Config.init (clients .redis fun _ => true) (oneJob .redis)).run inTurn = some c ∧
    lookup .redis c.world.state "job" = some rec ∧
    Merged (newJob "job" ⟨"", [], none, none, none, none⟩ "") started claimed rec := by
  obtain ⟨c, hc⟩ : ∃ c, (Config.init (clients .redis fun _ => true) (oneJob .redis)).run inTurn =
      some c := Option.isSome_iff_exists.mp rfl
  have h₁ : ((Config.init (clients .redis fun _ => true) (oneJob .redis)).run inTurn).bind
      (fun c => c.pool[0]?) =
      some (⟨0, .call (.updateJob "job" started), 0⟩, .done (.returned (.ok none))) := rfl
  have h₂ : ((Config.init (clients .redis fun _ => true) (oneJob .redis)).run inTurn).bind
      (fun c => c.pool[1]?) =
      some (⟨1, .call (.updateJob "job" claimed), 1⟩, .done (.returned (.ok none))) := rfl
  have hlen : ((Config.init (clients .redis fun _ => true) (oneJob .redis)).run inTurn).map
      (fun c => (c.pool.length, (accessesOf "job" 0 1 c.world.log).map Access.tid)) =
      some (2, [0, 0, 1, 1]) := rfl
  rw [hc, Option.bind_some] at h₁ h₂
  rw [hc, Option.map_some, Option.some.injEq, Prod.mk.injEq] at hlen
  have hr := reaches_of_run hc
  obtain ⟨rec, hl, hm, -⟩ := (no_lost_update .redis (j := "job") rfl hr (by decide) h₁ rfl h₂ rfl
    disjoint_started fun d o r he _ => two_writers (hr.wf (.init _)) hlen.1 d o r he).mpr
    (Or.inr (Or.inl hlen.2))
  exact ⟨c, rec, hc, hl, hm⟩

/-- Both read before either writes. -/
def overlapping : List (Label Task Input) :=
  arrivals ++ reading 0 ++ reading 1 ++ writing 0 ++ writing 1

/-- The record is claimed, and not `running`. -/
theorem update_lost : ∃ c,
    (Config.init (clients .redis fun _ => true) (oneJob .redis)).run overlapping = some c ∧
    c.pool[0]? = some (⟨0, .call (.updateJob "job" started), 0⟩, .done (.returned (.ok none))) ∧
    c.pool[1]? = some (⟨1, .call (.updateJob "job" claimed), 1⟩, .done (.returned (.ok none))) ∧
    DisjointFields started claimed ∧
    (∀ d o r, .ran d o r ∈ c.world.log → d.tid = 0 ∨ d.tid = 1) ∧
    ¬ ∃ rec, lookup .redis c.world.state "job" = some rec ∧
      Merged (newJob "job" ⟨"", [], none, none, none, none⟩ "") started claimed rec := by
  obtain ⟨c, hc⟩ : ∃ c, (Config.init (clients .redis fun _ => true) (oneJob .redis)).run
      overlapping = some c := Option.isSome_iff_exists.mp rfl
  have h₁ : ((Config.init (clients .redis fun _ => true) (oneJob .redis)).run overlapping).bind
      (fun c => c.pool[0]?) =
      some (⟨0, .call (.updateJob "job" started), 0⟩, .done (.returned (.ok none))) := rfl
  have h₂ : ((Config.init (clients .redis fun _ => true) (oneJob .redis)).run overlapping).bind
      (fun c => c.pool[1]?) =
      some (⟨1, .call (.updateJob "job" claimed), 1⟩, .done (.returned (.ok none))) := rfl
  have hlen : ((Config.init (clients .redis fun _ => true) (oneJob .redis)).run overlapping).map
      (fun c => c.pool.length) = some 2 := rfl
  have hstatus : ((Config.init (clients .redis fun _ => true) (oneJob .redis)).run
      overlapping).bind (fun c => (lookup .redis c.world.state "job").map (·.status)) =
      some .queued := rfl
  rw [hc, Option.bind_some] at h₁ h₂ hstatus
  rw [hc, Option.map_some, Option.some.injEq] at hlen
  refine ⟨c, hc, h₁, h₂, disjoint_started, two_writers ((reaches_of_run hc).wf (.init _)) hlen, ?_⟩
  rintro ⟨rec, hl, hm⟩
  rw [hl, Option.map_some, Option.some.injEq] at hstatus
  have hrunning : rec.status = .running := hm.status
  rw [hstatus] at hrunning
  cases hrunning

end CodeHive.Api.LostUpdate
