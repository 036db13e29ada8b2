import CodeHive.Api.Faults
import CodeHive.Api.Handling
import CodeHive.Api.RecordState

/-! # Claiming a job on a Redis that fails

A poll takes an id off the list, reads the record, reads it again and writes it back, in four
commands. As long as none of them fails once the id is off the list, no job is lost, whatever
happens to the commands of the other calls. -/

namespace CodeHive.Api.Claiming

set_option autoImplicit false

open CodeHive.Js.Value CodeHive.Api.Types CodeHive.Api.Stores CodeHive.Api.Messages
open CodeHive.Api.Program CodeHive.Api.Queue CodeHive.Api.Executor CodeHive.Api.Routes
open CodeHive.Api.System CodeHive.Api.History CodeHive.Api.Handlers CodeHive.Api.RecordState
open CodeHive.Api.Handling CodeHive.Api.Faults
open CodeHive.Concurrency CodeHive.Concurrency.Calls CodeHive.Concurrency.Pool
open CodeHive.Concurrency.RelyGuarantee CodeHive.Concurrency.Triples

variable {fate : ℕ → Option Fault}

/-- The record under `i`. -/
def record (w : FaultyWorld fate) (i : String) : Option Job := lookup .redis w.state.store i

/-- The record under `i` does not say `queued`. -/
def Claimed (i : String) (w : FaultyWorld fate) : Prop :=
  ∃ job, record w i = some job ∧ job.status ≠ .queued

/-- A settled poll that took an id hands out the job, and its record says so. -/
def HandedOut (a : Actor) (out : Outcome) (w : FaultyWorld fate) : Prop :=
  ∀ i, (a, i) ∈ pops w.log → (∃ job, out = .reply ⟨200, .job job⟩ ∧ job.id = i) ∧ Claimed i w

/-- **What the calls take for granted and keep**, if the polls are spared. -/
def claimSpec (fate : ℕ → Option Fault) : Spec (faultyApi fate) where
  assume := Spared
  inv w := Sound w.state.store w.log
  rely t w w' := Leaves t w.state.store w.log w'.state.store w'.log
  guar a w o := Ready a w.state.store w.log o
  post := HandedOut
  rely_refl _ _ := Leaves.refl _ _ _
  rely_trans _ _ _ _ := Leaves.trans
  start _ _ h _ := h.quiet rfl rfl (fun _ => rfl) rfl rfl

section
variable {a : Actor} {P : FaultyWorld fate → Prop} {i : String}

/-! ### Primitives -/

/-- A primitive that changes nothing that its own call relies on. -/
theorem triple_unseen {o : Op} {Q : o.Answer → FaultyWorld fate → Prop}
    {E : JsError → FaultyWorld fate → Prop} (ho : Unseen o)
    (hready : ∀ w, Sound w.state.store w.log → P w → Ready a w.state.store w.log o)
    (hP : Stable (claimSpec fate) a P)
    (hQ : ∀ w inp r w', Sound w.state.store w.log → P w → Spared a w o →
      w.fire a o inp = some (r, w') → P w' → Q r w') :
    Triple (claimSpec fate) a P (call (S := api) o) Q E := by
  refine triple_call fun w hw hp => ⟨hready w hw hp, fun inp r w' hs hf => ?_⟩
  obtain ⟨hw', hl⟩ := hw.fire (hready w hw hp) hs hf
  exact ⟨hw', fun t ht => hl t fun hta => absurd hta ht,
    hQ w inp r w' hw hp hs hf (hP w w' hp (hl a.tid fun _ => ho) hw')⟩

theorem triple_host {o : HostOp} {E : JsError → FaultyWorld fate → Prop}
    (hP : Stable (claimSpec fate) a P) :
    Triple (claimSpec fate) a P (host o) (fun _ => P) E :=
  triple_unseen trivial (fun _ _ _ => trivial) hP fun _ _ _ _ _ _ _ _ hp => hp

theorem triple_isoNow {E : JsError → FaultyWorld fate → Prop} (hP : Stable (claimSpec fate) a P) :
    Triple (claimSpec fate) a P isoNow (fun _ => P) E :=
  (triple_host hP).bind fun _ => triple_pure fun _ hp => hp

/-- A command: on its way, and performed or not. -/
theorem triple_redis {c : RedisCmd} {Q : c.Reply → FaultyWorld fate → Prop}
    {E : JsError → FaultyWorld fate → Prop} (hP : Stable (claimSpec fate) a P)
    (h : Triple (claimSpec fate) a P (call (S := api) (.redis c))
      (fun r w => (∀ x, r = .ok x → Q x w) ∧ ∀ err, r = .error err → E err w) E) :
    Triple (claimSpec fate) a P (redis c) Q E :=
  (h.bind fun _ => triple_settle (fun x _ hr hw => hw.1 x hr) fun err _ hr hw => hw.2 err hr).later
    hP

/-- A command other than `RPOP` is performed and answered, or it fails and is not one of a poll. -/
theorem answered {w w' : FaultyWorld fate} {c : RedisCmd} {x : c.Reply} {inp : Input}
    {r : Except JsError c.Reply} (hc : ∀ list, c ≠ .rpop list)
    (hok : (w.state.store.redis.exec c).1 = .ok x) (hs : Spared a w (.redis c))
    (hf : w.fire a (.redis c) inp = some (r, w')) :
    (r = .ok x ∧ w'.state.store =
      { w.state.store with redis := (w.state.store.redis.exec c).2 }) ∨
    ((∃ err, r = .error err) ∧ ¬ Polls a) := by
  obtain ⟨s', he, rfl⟩ := World.fire_eq_some.mp hf
  rcases faultyExec_redis (i := inp) he with
    ⟨-, err, rfl, hfate⟩ | ⟨hstore, ⟨-, rfl⟩ | ⟨err, rfl, hfate⟩⟩
  · refine Or.inr ⟨⟨err, rfl⟩, fun ha => ?_⟩
    have h := hs ha
    rw [hfate] at h
    obtain ⟨list, hlist⟩ := h
    exact hc list hlist
  · exact Or.inl ⟨hok, hstore⟩
  · refine Or.inr ⟨⟨err, rfl⟩, fun ha => ?_⟩
    have h := hs ha
    rw [hfate] at h
    obtain ⟨⟨list, hlist⟩, -⟩ := h
    exact hc list hlist

/-- There is a record under `i`. -/
def Known (i : String) (w : FaultyWorld fate) : Prop := ∃ job, record w i = some job

theorem stable_known (a : Actor) (i : String) :
    Stable (claimSpec fate) a (Known i) := by
  rintro w w' ⟨job, hjob⟩ hr -
  obtain ⟨job', hjob', -⟩ := hr.kept i job hjob
  exact ⟨job', hjob'⟩

theorem stable_claimed (a : Actor) (i : String) :
    Stable (claimSpec fate) a (Claimed i) := by
  rintro w w' ⟨job, hjob, hst⟩ hr -
  obtain ⟨job', hjob', hkept⟩ := hr.kept i job hjob
  exact ⟨job', hjob', hkept hst⟩

theorem stable_const (a : Actor) (C : Prop) : Stable (claimSpec fate) a fun _ => C :=
  fun _ _ h _ _ => h

theorem stable_and {P' : FaultyWorld fate → Prop} (h : Stable (claimSpec fate) a P)
    (h' : Stable (claimSpec fate) a P') : Stable (claimSpec fate) a fun w => P w ∧ P' w :=
  fun w w' hp hr hw => ⟨h w w' hp.1 hr hw, h' w w' hp.2 hr hw⟩

/-- A copy of the record under `i`. -/
def Copy (i : String) (rec : Job) (w : FaultyWorld fate) : Prop := rec.id = i ∧ Known i w

theorem stable_copies (a : Actor) (i : String) (r : Option Job) :
    Stable (claimSpec fate) a fun w => ∀ rec, r = some rec → Copy i rec w :=
  fun w w' h hr hw rec hrec =>
    ⟨(h rec hrec).1, stable_known a i w w' (h rec hrec).2 hr hw⟩

theorem triple_get {C : Prop} (hP : Stable (claimSpec fate) a P)
    (hC : ∀ w, P w → record w i = none → C) :
    Triple (claimSpec fate) a P (redis (.get (jobKey i)))
      (fun r w => (P w ∧ (r = none → C)) ∧ ∀ rec, r = some rec → Copy i rec w)
      (fun _ w => P w ∧ ¬ Polls a) := by
  refine triple_redis hP (triple_unseen trivial (fun _ _ _ => trivial) hP ?_)
  intro w inp r w' hw hp hs hf hp'
  rcases answered (c := .get (jobKey i)) (fun _ h => by cases h) rfl hs hf with
    ⟨rfl, hstore⟩ | ⟨⟨err, rfl⟩, ha⟩
  · refine ⟨?_, fun _ h => by cases h⟩
    rintro x hx
    obtain rfl := Except.ok.inj hx
    refine ⟨⟨hp', fun hnone => hC w hp hnone⟩, fun rec hrec => ⟨(hw.named i rec hrec).1, rec, ?_⟩⟩
    rw [record, hstore]
    exact hrec
  · exact ⟨fun _ h => (by cases h), fun _ _ => ⟨hp', ha⟩⟩

theorem triple_getJob {C : Prop} (hP : Stable (claimSpec fate) a P)
    (hC : ∀ w, P w → record w i = none → C) :
    Triple (claimSpec fate) a P (getJob .redis i)
      (fun obj w => ∃ r, obj = Option.map JobObj.parsed r ∧ (P w ∧ (r = none → C)) ∧
        ∀ rec, r = some rec → Copy i rec w)
      (fun _ w => P w ∧ ¬ Polls a) := by
  refine Triple.bind ((triple_get hP hC).await (fun r => ?_) fun _ => ?_) fun r => ?_
  · exact stable_and (stable_and hP (stable_const a _)) (stable_copies a i r)
  · exact stable_and hP (stable_const a _)
  · exact triple_pure fun w hw => ⟨r, rfl, hw⟩

/-- A record is written. -/
theorem triple_set {rec : Job} (hP : Stable (claimSpec fate) a P) (hid : rec.id = i)
    (hst : rec.status ≠ .queued) :
    Triple (claimSpec fate) a (fun w => P w ∧ Known i w) (redis (.set (jobKey i) rec))
      (fun _ w => P w ∧ Claimed i w) (fun _ w => P w ∧ ¬ Polls a) := by
  have hPK := stable_and hP (stable_known a i)
  refine triple_redis hPK (triple_unseen trivial (fun w _ ⟨_, old, hold⟩ => ?_) hPK ?_)
  · exact ⟨i, old, rfl, hold, hid, hst⟩
  intro w inp r w' hw hp hs hf hp'
  rcases answered (c := .set (jobKey i) rec) (fun _ h => by cases h) rfl hs hf with
    ⟨rfl, hstore⟩ | ⟨⟨err, rfl⟩, ha⟩
  · refine ⟨fun _ _ => ⟨hp'.1, rec, ?_, hst⟩, fun _ h => by cases h⟩
    rw [record, hstore]
    simp [lookup, Redis.exec]
  · exact ⟨fun _ h => (by cases h), fun _ _ => ⟨hp'.1, ha⟩⟩

/-- A record is updated, to a status that is not `queued`. -/
theorem triple_updateJob {C : Prop} {u : PartialJob} {st : Status}
    (hP : Stable (claimSpec fate) a P) (hC : ∀ w, P w → record w i = none → C) (hid : u.id = none)
    (hu : u.status = some st) (hst : st ≠ .queued) :
    Triple (claimSpec fate) a P (updateJob .redis i u) (fun _ w => P w ∧ Claimed i w)
      (fun _ w => P w ∧ (¬ Polls a ∨ C)) := by
  refine Triple.bind (((triple_getJob hP hC).conseq (fun _ _ h => h) (fun _ _ h => h)
    fun _ _ h => ⟨h.1, Or.inl h.2⟩).await (fun obj => ?_) fun _ => ?_) fun obj => ?_
  · rintro w w' ⟨r, hr, hp, hcopy⟩ hrely hw
    exact ⟨r, hr, ⟨hP w w' hp.1 hrely hw, hp.2⟩, stable_copies a i r w w' hcopy hrely hw⟩
  · exact stable_and hP (stable_const a _)
  · cases obj with
    | none =>
      refine fun k e w hw ⟨r, hr, hp, _⟩ _ he => he _ w hw ⟨hp.1, Or.inr (hp.2 ?_)⟩
      cases r with
      | none => rfl
      | some rec => cases hr
    | some obj =>
      refine Triple.of_pre (C := ∃ rec, obj = .parsed rec ∧ rec.id = i) ?_ ?_
      · rintro w ⟨r, hr, -, hcopy⟩
        cases r with
        | none => cases hr
        | some rec => exact ⟨rec, Option.some.inj hr, (hcopy rec rfl).1⟩
      rintro ⟨rec, rfl, hrec⟩
      have hPK := stable_and hP (stable_known a i)
      refine Triple.conseq (P := fun w => P w ∧ Known i w) ?_ ?_ (fun _ _ h => h) fun _ _ h => h
      · refine Triple.bind (triple_isoNow hPK) fun now => ?_
        refine ((triple_set hP (show (rec.update u now).id = i from ?_) ?_).conseq
          (fun _ _ h => h) (fun _ _ h => h) fun _ _ h => ⟨h.1, Or.inl h.2⟩).await ?_ ?_
        · rw [update_id, hid]; exact hrec
        · rw [update_status, hu]; exact hst
        · exact fun _ => stable_and hP (stable_claimed a i)
        · exact fun _ => stable_and hP (stable_const a _)
      · rintro w - ⟨r, hr, hp, hcopy⟩
        cases r with
        | none => cases hr
        | some rec' => exact ⟨hp.1, (hcopy rec' rfl).2⟩

/-! ### The queue -/

/-- Call `a` was given the id `i`, and there is no record under it yet. -/
def Reserved (a : Actor) (i : String) (w : FaultyWorld fate) : Prop :=
  (a, i) ∈ issues w.log ∧ record w i = none

theorem stable_reserved (a : Actor) (i : String) : Stable (claimSpec fate) a (Reserved a i) :=
  fun _ _ h hr _ => ⟨(hr.grows.filterMap _).subset h.1, hr.fresh _ h.1 rfl h.2⟩

theorem triple_randomUUID {E : JsError → FaultyWorld fate → Prop} :
    Triple (claimSpec fate) a (fun _ => True) (host .randomUUID) (Reserved a) E := by
  refine triple_unseen trivial (fun _ _ _ => trivial) (stable_const a True) ?_
  intro w inp id w' hw _ _ hf _
  obtain ⟨s', he, rfl⟩ := World.fire_eq_some.mp hf
  obtain ⟨⟨x, s⟩, hx, hxs⟩ := Option.map_eq_some_iff.mp he
  cases hxs
  simp only [HostOp.exec] at hx
  split_ifs at hx with hnew
  cases hx
  refine ⟨by simp [issueOf], ?_⟩
  cases hrec : record w inp.uuid with
  | none => exact hrec
  | some job =>
    obtain ⟨-, d, hd⟩ := hw.named _ job hrec
    exact absurd (hw.issued _ hd).1 hnew.2

/-- Call `a` has taken no id off the list. -/
def NoPops (a : Actor) (w : FaultyWorld fate) : Prop := ∀ i, (a, i) ∉ pops w.log

/-- The id `i` and no other was taken off the list by call `a`. -/
def Took (a : Actor) (i : String) (w : FaultyWorld fate) : Prop :=
  (∀ j, (a, j) ∈ pops w.log → j = i) ∧ Known i w

theorem stable_noPops (a : Actor) : Stable (claimSpec fate) a (NoPops a) :=
  fun _ _ h hr _ i hi => h i (hr.pops _ hi rfl)

theorem stable_took (a : Actor) (i : String) : Stable (claimSpec fate) a (Took a i) :=
  fun w w' h hr hw => ⟨fun j hj => h.1 j (hr.pops _ hj rfl), stable_known a i w w' h.2 hr hw⟩

theorem triple_rpop (ha : Polls a) :
    Triple (claimSpec fate) a (NoPops a) (redis (.rpop QUEUE_KEY))
      (fun x w => (x = none ∧ NoPops a w) ∨ ∃ i, x = some i ∧ i ≠ "" ∧ Took a i w)
      fun _ => NoPops a := by
  refine triple_redis (stable_noPops a) (triple_call fun w hw hp => ⟨⟨rfl, ha⟩, ?_⟩)
  intro inp r w' hs hf
  obtain ⟨hw', hl⟩ := hw.fire (o := .redis (.rpop QUEUE_KEY)) ⟨rfl, ha⟩ hs hf
  refine ⟨hw', fun t ht => hl t fun hta => absurd hta ht, ?_⟩
  obtain ⟨s', he, rfl⟩ := World.fire_eq_some.mp hf
  have hsame : popOf (.ran a (.redis (.rpop QUEUE_KEY)) r) = none →
      NoPops a (⟨s', w.log ++ [.ran a (.redis (.rpop QUEUE_KEY)) r]⟩ : FaultyWorld fate) := by
    intro hpop i hi
    rw [pops_concat, hpop, Option.toList_none, List.append_nil] at hi
    exact hp i hi
  have herr : ∀ err, r = .error err → NoPops a
      (⟨s', w.log ++ [.ran a (.redis (.rpop QUEUE_KEY)) r]⟩ : FaultyWorld fate) := by
    rintro err rfl
    exact hsame rfl
  refine ⟨fun x hx => ?_, herr⟩
  subst hx
  cases x with
  | none => exact Or.inl ⟨rfl, hsame rfl⟩
  | some i =>
    rcases faultyExec_redis (i := inp) he with ⟨-, err, h, -⟩ | ⟨hstore, ⟨-, h⟩ | ⟨err, h, -⟩⟩
    · cases h
    · have hlast : (w.state.store.redis.lists QUEUE_KEY).getLast? = some i := (Except.ok.inj h).symm
      obtain ⟨hne, job, hjob⟩ := hw.listed i (List.mem_reverse.mpr (List.mem_of_getLast? hlast))
      refine Or.inr ⟨i, rfl, hne, fun j hj => ?_, job, ?_⟩
      · rw [pops_concat] at hj
        rcases List.mem_append.mp hj with hj | hj
        · exact absurd hj (hp j)
        · simpa [popOf] using hj
      · rw [record, hstore]
        exact hjob
    · cases h

theorem triple_dequeue (ha : Polls a) :
    Triple (claimSpec fate) a (NoPops a) (dequeue .redis)
      (fun obj w => (obj = none ∧ NoPops a w) ∨
        ∃ rec, obj = some (JobObj.parsed rec) ∧ Took a rec.id w)
      fun _ => NoPops a := by
  have hstable : ∀ x : Option String, Stable (claimSpec fate) a fun w =>
      (x = none ∧ NoPops a w) ∨ ∃ i, x = some i ∧ i ≠ "" ∧ Took a i w := by
    rintro x w w' (⟨hx, h⟩ | ⟨i, hx, hne, h⟩) hr hw
    · exact Or.inl ⟨hx, stable_noPops a w w' h hr hw⟩
    · exact Or.inr ⟨i, hx, hne, stable_took a i w w' h hr hw⟩
  refine Triple.bind ((triple_rpop ha).await hstable fun _ => stable_noPops a) fun x => ?_
  cases x with
  | none =>
    refine triple_pure fun w hw => ?_
    rcases hw with ⟨-, h⟩ | ⟨i, h, -⟩
    · exact Or.inl ⟨rfl, h⟩
    · cases h
  | some i =>
    refine Triple.of_pre (C := i ≠ "") ?_ fun hne => ?_
    · rintro w (⟨h, -⟩ | ⟨j, hj, hne, -⟩)
      · cases h
      · exact Option.some.inj hj ▸ hne
    have hget : Triple (claimSpec fate) a (Took a i) (redis (.get (jobKey i)))
        (fun r w => ∃ rec, r = some rec ∧ rec.id = i ∧ Took a i w) fun _ _ => False := by
      refine (triple_get (C := False) (stable_took a i) fun w hw hnone => ?_).conseq
        (fun _ _ h => h) (fun r w hw => ?_) fun _ _ h => h.2 ha
      · obtain ⟨job, hjob⟩ := hw.2
        rw [hnone] at hjob
        cases hjob
      · cases r with
        | none => exact (hw.1.2 rfl).elim
        | some rec => exact ⟨rec, rfl, (hw.2 rec rfl).1, hw.1.1⟩
    have hread : Triple (claimSpec fate) a (Took a i)
        (do
          let data ← Calls.await (redis (.get (jobKey i)))
          return Option.map JobObj.parsed data)
        (fun obj w => (obj = none ∧ NoPops a w) ∨
          ∃ rec, obj = some (JobObj.parsed rec) ∧ Took a rec.id w) fun _ => NoPops a := by
      refine (Triple.bind (hget.await_never_throws fun r => ?_) fun r => ?_).never_throws
      · rintro w w' ⟨rec, hr, hrec, hw⟩ hrely hw'
        exact ⟨rec, hr, hrec, stable_took a i w w' hw hrely hw'⟩
      · refine triple_pure fun w hw => ?_
        obtain ⟨rec, rfl, rfl, hw⟩ := hw
        exact Or.inr ⟨rec, rfl, hw⟩
    refine Triple.conseq (P := Took a i) ?_ ?_ (fun _ _ h => h) fun _ _ h => h
    · simp only [if_neg hne]
      exact hread
    · rintro w - (⟨h, -⟩ | ⟨j, hj, -, h⟩)
      · cases h
      · exact Option.some.inj hj ▸ h

/-! ### The polls -/

/-- What an answered poll has achieved. -/
def Answered (a : Actor) (r : Reply) (w : FaultyWorld fate) : Prop :=
  NoPops a w ∨ ∃ job, r = ⟨200, .job job⟩ ∧ Took a job.id w ∧ Claimed job.id w

/-- **A poll whose commands do not fail** hands out the job that it took off the list. -/
theorem triple_getJobsNext (ha : Polls a) (worker : String) :
    Triple (claimSpec fate) a (NoPops a) (getJobsNext .redis worker) (Answered a)
      fun _ _ => False := by
  refine Triple.tryCatch (E := fun _ => NoPops a) ?_ fun err => triple_pure fun w hw => Or.inl hw
  have hstable : ∀ obj : Option JobObj, Stable (claimSpec fate) a fun w =>
      (obj = none ∧ NoPops a w) ∨ ∃ rec, obj = some (JobObj.parsed rec) ∧ Took a rec.id w := by
    rintro obj w w' (⟨hx, h⟩ | ⟨rec, hx, h⟩) hr hw
    · exact Or.inl ⟨hx, stable_noPops a w w' h hr hw⟩
    · exact Or.inr ⟨rec, hx, stable_took a rec.id w w' h hr hw⟩
  refine Triple.bind ((triple_dequeue ha).await hstable fun _ => stable_noPops a) fun obj => ?_
  cases obj with
  | none =>
    refine triple_pure fun w hw => Or.inl ?_
    rcases hw with ⟨-, h⟩ | ⟨rec, h, -⟩
    · exact h
    · cases h
  | some obj =>
    refine Triple.of_pre (C := ∃ rec, obj = .parsed rec) ?_ ?_
    · rintro w (⟨h, -⟩ | ⟨rec, h, -⟩)
      · cases h
      · exact ⟨rec, Option.some.inj h⟩
    rintro ⟨rec, rfl⟩
    have hupdate := triple_updateJob (u := claimUpdate worker) (C := False)
      (@stable_took fate a rec.id) (fun w hw hnone => by
        obtain ⟨job, hjob⟩ := hw.2
        rw [hnone] at hjob
        cases hjob) rfl rfl (by decide)
    have hclaim : Triple (claimSpec fate) a (Took a rec.id)
        (Calls.await (updateJob .redis rec.id (claimUpdate worker)))
        (fun _ w => Took a rec.id w ∧ Claimed rec.id w) fun _ => NoPops a := by
      refine (Triple.await_never_throws (hupdate.conseq (fun _ _ h => h) (fun _ _ h => h)
        fun _ _ h => ?_) fun _ => ?_).never_throws
      · exact h.2.elim (fun hna => hna ha) id
      · exact stable_and (stable_took a rec.id) (stable_claimed a rec.id)
    refine Triple.conseq (P := Took a rec.id) ?_ ?_ (fun _ _ h => h) fun _ _ h => h
    · exact hclaim.bind fun _ => triple_pure fun w hw => Or.inr ⟨rec, rfl, hw⟩
    · rintro w - (⟨h, -⟩ | ⟨rec', h, hw⟩)
      · cases h
      · cases h
        exact hw

/-! ### The other calls -/

theorem stable_true (a : Actor) : Stable (claimSpec fate) a fun _ => True := stable_const a True

/-- A command that reads, in whatever way it is answered. -/
theorem fine_redis {c : RedisCmd} (hc : Unseen (.redis c))
    (hready : ∀ w : FaultyWorld fate, Ready a w.state.store w.log (.redis c)) :
    Fine (claimSpec fate) a (await (redis c)) :=
  Fine.await (triple_redis (stable_true a) (triple_unseen hc (fun w _ _ => hready w) (stable_true a)
    fun _ _ _ _ _ _ _ _ _ => ⟨fun _ _ => trivial, fun _ _ => trivial⟩))

theorem yields_enqueue (request : ExecutionRequest) :
    Yields (claimSpec fate) a (enqueue .redis request) fun obj => ∃ job, obj = .parsed job := by
  refine Triple.bind triple_randomUUID fun id => ?_
  refine Triple.bind (triple_isoNow (stable_reserved a id)) fun now => ?_
  have hmulti : Triple (claimSpec fate) a (Reserved a id)
      (redis (.multiSetLpush (jobKey id) (newJob id request now) QUEUE_KEY id))
      (fun _ _ => True) fun _ _ => True := by
    refine triple_redis (stable_reserved a id) (triple_call fun w hw hp => ?_)
    have hready : Ready a w.state.store w.log
        (.redis (.multiSetLpush (jobKey id) (newJob id request now) QUEUE_KEY id)) :=
      ⟨rfl, rfl, rfl, hp⟩
    refine ⟨hready, fun inp r w' hs hf => ?_⟩
    obtain ⟨hw', hl⟩ := hw.fire hready hs hf
    exact ⟨hw', fun t ht => hl t fun hta => absurd hta ht, fun _ _ => trivial, fun _ _ => trivial⟩
  exact Triple.bind (hmulti.await (fun _ => stable_true a) fun _ => stable_true a)
    fun _ => triple_pure fun _ _ => ⟨_, rfl⟩

/-- The updates of the other calls are to a status that is not `queued`. -/
theorem fine_updateJob {u : PartialJob} (hu : Update a i u) :
    Fine (claimSpec fate) a (updateJob .redis i u) := by
  have hst : ∃ st, u.status = some st ∧ st ≠ .queued := by
    rcases update_shape hu with ⟨h, -⟩ | ⟨r, h, -, hterminal, -⟩
    · exact ⟨_, h, by decide⟩
    · refine ⟨_, h, fun hq => ?_⟩
      rw [hq] at hterminal
      cases hterminal
  obtain ⟨st, hst, hne⟩ := hst
  exact (triple_updateJob (C := True) (stable_true a) (fun _ _ _ => trivial) hu.benign.id hst
    hne).conseq (fun _ _ _ => trivial) (fun _ _ _ => trivial) fun _ _ _ => trivial

theorem rules_claimSpec : Rules (claimSpec fate) where
  host a _ := triple_host (stable_true a)
  get _ _ := fine_redis trivial fun _ => trivial
  lrange _ _ _ := fine_redis trivial fun _ => trivial
  llen _ := fine_redis trivial fun _ => trivial
  enqueue _ := yields_enqueue
  update _ _ _ _ := fine_updateJob
  post _ _ _ ha hw _ hi := absurd (hw.polled _ hi) ha

/-- **Every request is safe**, if the polls are spared. -/
theorem entries_faulty : Entries (claimSpec fate) := by
  refine rules_claimSpec.entries rfl fun worker c w w' htag hnew hr hw' => ?_
  have hnone : NoPops c (w.start c) := by
    intro i hi
    obtain ⟨e, he, hei⟩ := List.mem_filterMap.mp hi
    rcases List.mem_append.mp he with he | he
    · exact hnew.tid e he (congrArg Actor.tid (Invariant.popOf_actor hei)).symm
    · rw [List.mem_singleton.mp he] at hei
      cases hei
  have hdone : ∀ r (w₁ : FaultyWorld fate), Answered c r w₁ →
      Safe (claimSpec fate) (.done (.reply r)) c w₁ := by
    rintro r w₁ hans w₂ hr₂ hw₂ i hi
    rcases hans with hno | ⟨job, rfl, htook, hclaimed⟩
    · exact absurd (hr₂.pops _ hi rfl) (hno i)
    · obtain rfl := htook.1 i (hr₂.pops _ hi rfl)
      exact ⟨⟨job, rfl, rfl⟩, stable_claimed c _ _ _ hclaimed hr₂ hw₂⟩
  exact triple_getJobsNext ⟨worker, htag⟩ worker _ _ w' hw'
    (stable_noPops c _ _ hnone hr hw') (fun r w₁ _ h => hdone r w₁ h) fun _ _ _ h => h.elim

end

/-! ### Runs -/

/-- **Claiming a job is atomic.** -/
structure Atomic (c : Config (faultyApi fate)) : Prop where
  /-- A settled poll that took an id off the list was answered with the job, or the id is there. -/
  answered : ∀ (t : ℕ) (a : Actor) (out : Outcome) (i : String), c.pool[t]? = some (a, .done out) →
    (a, i) ∈ pops c.world.log →
    (∃ job, out = .reply ⟨200, .job job⟩ ∧ job.id = i) ∨ i ∈ pending .redis c.world.state.store
  /-- When no request is in progress, every queued job is on the list. -/
  claimable : (∀ (t : ℕ) (a : Actor) (p : Thread) (r : Request), c.pool[t]? = some (a, p) →
      a.tag = .request r → ∃ out, p = .done out) →
    ∀ i job, record c.world i = some job → job.status = .queued →
      i ∈ pending .redis c.world.state.store

/-- **In every run in which the polls are spared, claiming is atomic**, whatever becomes of all the
other commands. -/
theorem claim_atomic {c : Config (faultyApi fate)}
    (hc : Reaches (Allowed Spared) (startFaulty fate) c) : Atomic c := by
  have hok : Ok (claimSpec fate) c := (Ok.init Sound.empty).reaches entries_faulty hc
  constructor
  · exact fun t a out i ht hi => Or.inl (hok.post ht i hi).1
  · intro hidle i job hjob hst
    rcases hok.inv.claimable i job hjob hst with hlist | ⟨a, hi⟩
    · exact hlist
    · obtain ⟨worker, hworker⟩ := hok.inv.polled _ hi
      obtain ⟨e, he, hei⟩ := List.mem_filterMap.mp hi
      obtain ⟨p, hp⟩ := hok.wf.log e he
      rw [← Invariant.popOf_actor hei] at hp
      obtain ⟨out, rfl⟩ := hidle _ a p _ hp hworker
      obtain ⟨-, job', hjob', hst'⟩ := hok.post hp i hi
      rw [hjob, Option.some.injEq] at hjob'
      exact absurd hst (hjob' ▸ hst')

/-- The commands with these numbers are refused, and all others succeed. -/
def refusing (l : List ℕ) (n : ℕ) : Option Fault :=
  if n ∈ l then some (.refused (.error "Connection is closed.")) else none

/-- On Redis: a submission, and its inline execution as far as the first command. -/
def failedStart : List (Label Task Input) :=
  .arrive (.request (.execute (.obj [("language", .str "python"), ("code", .str "print(1)")]))) ::
    turn 0 3 { uuid := "job" } ++ turn 0 2 {} ++ turn 0 1 {} ++ turn 0 3 {} ++ turn 1 2 {} ++
    turn 1 1 {} ++ turn 1 1 {} ++ turn 1 1 {}

/-- A poll, up to the answer of its `GET`. -/
def claimStart : List (Label Task Input) :=
  .arrive (.request (.jobsNext "w")) :: turn 2 1 {} ++ turn 2 2 {} ++ turn 2 1 {} ++ turn 2 2 {} ++
    turn 2 1 {} ++ turn 2 1 {}

/-- The update of the poll, and its reply. -/
def claimEnd : List (Label Task Input) :=
  turn 2 2 {} ++ turn 2 1 {} ++ turn 2 2 {} ++ turn 2 2 {} ++ turn 2 1 {} ++ turn 2 1 {}

/-- The call is no poll, or the next command succeeds. -/
def sparesPoll (l : List ℕ) (a : Actor) (w : FaultyWorld (refusing l)) (_ : Op) : Bool :=
  match a.tag with
  | .request (.jobsNext _) => decide (w.state.sent ∉ l)
  | _ => true

theorem spared_of_test {l : List ℕ} (a : Actor) (w : FaultyWorld (refusing l)) (o : Op)
    (h : sparesPoll l a w o = true) : Spared a w o := by
  cases o with
  | redis c =>
    rintro ⟨worker, hworker⟩
    simp only [sparesPoll, hworker, decide_eq_true_eq] at h
    simp only [refusing, h, if_false]
  | host o => trivial
  | mem c => trivial

/-- A command of a call that is no poll fails, and the job is claimed. -/
theorem claim_atomic_run : ∃ c : Config (faultyApi (refusing [1])),
    (startFaulty (refusing [1])).run (failedStart ++ claimStart ++ claimEnd) = some c ∧
    Atomic c := by
  obtain ⟨c, hif⟩ : ∃ c, (startFaulty (refusing [1])).runIf (sparesPoll [1])
      (failedStart ++ claimStart ++ claimEnd) = some c := Option.isSome_iff_exists.mp rfl
  exact ⟨c, run_of_runIf hif, claim_atomic (reaches_of_runIf spared_of_test hif)⟩

/-- The `GET` of a poll is refused: the poll is answered 500, the job is queued, and its id is not
on the list any more. -/
theorem job_lost : ∃ c : Config (faultyApi (refusing [1, 3])),
    (startFaulty (refusing [1, 3])).run (failedStart ++ claimStart) = some c ∧ ¬ Atomic c := by
  obtain ⟨c, hc⟩ : ∃ c, (startFaulty (refusing [1, 3])).run (failedStart ++ claimStart) = some c :=
    Option.isSome_iff_exists.mp rfl
  have hreply : ∃ a body, ((startFaulty (refusing [1, 3])).run (failedStart ++ claimStart)).bind
      (fun c => c.pool[2]?) = some (a, .done (.reply ⟨500, body⟩)) ∧
      ((startFaulty (refusing [1, 3])).run (failedStart ++ claimStart)).map
        (fun c => pops c.world.log) = some [(a, "job")] := ⟨_, _, rfl, rfl⟩
  have hlist : ((startFaulty (refusing [1, 3])).run (failedStart ++ claimStart)).map
      (fun c => pending .redis c.world.state.store) = some [] := rfl
  rw [hc] at hreply hlist
  simp only [Option.map_some, Option.some.injEq] at hlist
  obtain ⟨a, body, ht, hpops⟩ := hreply
  rw [Option.map_some, Option.some.injEq] at hpops
  refine ⟨c, hc, fun h => ?_⟩
  rcases h.answered 2 a _ "job" ht (by rw [hpops]; exact List.mem_cons_self) with
    ⟨job, hjob, -⟩ | hmem
  · cases hjob
  · rw [hlist] at hmem
    cases hmem

end CodeHive.Api.Claiming
