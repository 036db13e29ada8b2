import CodeHive.Api.Handling
import CodeHive.Api.Runs
import CodeHive.Api.SameStore

/-! # The job that a poll shows

A poll marks the job that it took off the queue as running and claimed by its worker, and sends the
object that it got from `dequeue`. In memory that is the record; on Redis it is a copy made before
the update, and the copy of a job that waits never names a worker. -/

namespace CodeHive.Api.ShownJobs

set_option autoImplicit false

open CodeHive.Js.Value CodeHive.Api.Types CodeHive.Api.Stores CodeHive.Api.Messages
open CodeHive.Api.Program CodeHive.Api.Queue CodeHive.Api.Routes CodeHive.Api.System
open CodeHive.Api.History CodeHive.Api.Records CodeHive.Api.Invariant CodeHive.Api.Handlers
open CodeHive.Api.Handling CodeHive.Api.Runs CodeHive.Api.Alone CodeHive.Api.SameStore
open CodeHive.Concurrency CodeHive.Concurrency.Calls CodeHive.Concurrency.Pool
open CodeHive.Concurrency.RelyGuarantee CodeHive.Concurrency.Triples CodeHive.Concurrency.Solo

/-! ### A job that waits has no worker -/

/-- The id `i` was taken off the queue. -/
def Popped (i : String) (log : List Event) : Prop := ∃ a, (a, i) ∈ pops log

/-- A version of the record under `i`: it names a worker only once the job was taken off the
queue. -/
def Version (log : List Event) (i : String) (rec : Job) : Prop :=
  rec.id = i ∧ (rec.workerId ≠ none → Popped i log)

/-- What the writes on Redis keep to. -/
def Claims (_ : Actor) (w : World) : Op → Prop
  | .redis (.set key rec) => ∃ i, key = jobKey i ∧ Version w.log i rec
  | .redis (.multiSetLpush key job _ _) => key = jobKey job.id ∧ job.workerId = none
  | _ => True

/-- **All records are versions of their jobs**, and taken ids stay taken. -/
def claims : Spec (apiSystem .redis) where
  assume _ _ _ := True
  inv w := ∀ i rec, lookup .redis w.state i = some rec → Version w.log i rec
  rely _ w w' := w.log <+: w'.log
  guar := Claims
  post _ _ _ := True
  rely_refl _ _ := List.prefix_rfl
  rely_trans _ _ _ _ h₁ h₂ := h₁.trans h₂
  start w b h _ := by
    have hlog : w.log <+: (w.start b).log := List.prefix_append _ _
    refine ⟨fun i rec hrec => ⟨(h i rec hrec).1, fun hw => ?_⟩, fun _ => hlog⟩
    obtain ⟨a, ha⟩ := (h i rec hrec).2 hw
    exact ⟨a, (hlog.filterMap _).subset ha⟩

section
variable {log log' : List Event} {i : String} {rec : Job}

theorem Popped.mono (h : Popped i log) (hl : log <+: log') : Popped i log' := by
  obtain ⟨a, ha⟩ := h
  exact ⟨a, (hl.filterMap _).subset ha⟩

theorem Version.mono (h : Version log i rec) (hl : log <+: log') : Version log' i rec :=
  ⟨h.1, fun hw => (h.2 hw).mono hl⟩

/-- An update that leaves the id alone and names no worker, or one of a job that was taken. -/
theorem Version.update (h : Version log i rec) {u : PartialJob} (hid : u.id = none)
    (hu : ∀ worker, u.workerId = some (some worker) → Popped i log) (now : String) :
    Version log i (rec.update u now) := by
  refine ⟨?_, fun hw => ?_⟩
  · rw [update_id, hid]
    exact h.1
  · rw [update_workerId] at hw
    cases hworker : u.workerId with
    | none =>
      rw [hworker] at hw
      exact h.2 hw
    | some x =>
      cases x with
      | none =>
        rw [hworker] at hw
        exact absurd rfl hw
      | some worker => exact hu worker hworker

end

variable {a : Actor} {P : World → Prop} {i : String}

/-- **Every primitive** keeps the records versions of their jobs. -/
theorem claims_fire {w w' : World} {o : Op} {inp : Input} {r : o.Answer} (hw : claims.inv w)
    (ho : Claims a w o) (hf : w.fire a o inp = some (r, w')) :
    claims.inv w' ∧ w.log <+: w'.log := by
  obtain ⟨s, hs, rfl⟩ := World.fire_eq_some.mp hf
  have hlog : w.log <+: w.log ++ [.ran a o r] := List.prefix_append _ _
  refine ⟨fun j rec hrec => ?_, hlog⟩
  have hold : lookup .redis w.state j = some rec → Version (w.log ++ [.ran a o r]) j rec :=
    fun h => (hw j rec h).mono hlog
  rw [lookup_exec hs .redis j] at hrec
  cases o with
  | host o => exact hold hrec
  | mem c => exact hold hrec
  | redis c =>
    cases c with
    | set key new =>
      obtain ⟨i, rfl, hversion⟩ := ho
      simp only [written, jobKey_inj] at hrec
      split_ifs at hrec with hij
      · obtain rfl := Option.some.inj hrec
        subst hij
        exact hversion.mono hlog
      · exact hold hrec
    | multiSetLpush key job list id =>
      obtain ⟨rfl, hworker⟩ := ho
      simp only [written, jobKey_inj] at hrec
      split_ifs at hrec with hij
      · obtain rfl := Option.some.inj hrec
        subst hij
        exact ⟨rfl, fun hw => absurd hworker hw⟩
      · exact hold hrec
    | _ => exact hold hrec

/-! ### The calls -/

/-- An assertion about what has happened. -/
def Lasting (P : World → Prop) : Prop := ∀ w w', w.log <+: w'.log → P w → P w'

theorem Lasting.stable (h : Lasting P) : Stable claims a P := fun w w' hp hr _ => h w w' hr hp

theorem Lasting.and {P' : World → Prop} (h : Lasting P) (h' : Lasting P') :
    Lasting fun w => P w ∧ P' w :=
  fun w w' hl hp => ⟨h w w' hl hp.1, h' w w' hl hp.2⟩

theorem lasting_true : Lasting fun _ => True := fun _ _ _ _ => trivial

theorem lasting_popped (i : String) : Lasting fun w => Popped i w.log := fun _ _ hl h => h.mono hl

theorem lasting_versions (i : String) (r : Option Job) :
    Lasting fun w => ∀ rec, r = some rec → Version w.log i rec :=
  fun _ _ hl h rec hrec => (h rec hrec).mono hl

/-- A primitive that is performed as it should. -/
theorem triple_primitive {o : Op} {Q : o.Answer → World → Prop} {E : JsError → World → Prop}
    (ho : ∀ w, P w → Claims a w o)
    (hQ : ∀ w inp r w', claims.inv w → P w → w.log <+: w'.log →
      w.fire a o inp = some (r, w') → Q r w') :
    Triple claims a P (call (S := api) o) Q E := by
  refine triple_call fun w hw hp => ⟨ho w hp, fun inp r w' _ hf => ?_⟩
  obtain ⟨hw', hl⟩ := claims_fire hw (ho w hp) hf
  exact ⟨hw', fun _ _ => hl, hQ w inp r w' hw hp hl hf⟩

/-- A command that is performed as it should. -/
theorem triple_redis {c : RedisCmd} {Q : c.Reply → World → Prop} (hP : Lasting P)
    (ho : ∀ w, P w → Claims a w (.redis c))
    (hQ : ∀ (w w' : World) x, claims.inv w → P w → w.log <+: w'.log →
      (w.state.redis.exec c).1 = .ok x → .ran a (.redis c) (.ok x) ∈ w'.log → Q x w')
    (hQl : ∀ x, Lasting (Q x)) :
    Triple claims a P (await (redis c)) Q fun _ _ => True := by
  have hcall : Triple claims a P (call (S := api) (.redis c) : Async (Except JsError c.Reply))
      (fun r w => ∀ x, r = .ok x → Q x w) fun _ _ => True := by
    refine triple_primitive ho fun w inp r w' hw hp hl hf x hx => ?_
    subst hx
    obtain ⟨s, hs, rfl⟩ := World.fire_eq_some.mp hf
    refine hQ w _ x hw hp hl ?_ (List.mem_append_right _ List.mem_cons_self)
    exact (Prod.mk.inj (Option.some.inj hs)).1
  refine Triple.await (Triple.later (hcall.bind fun r => ?_) hP.stable) (fun x => (hQl x).stable)
    fun _ => lasting_true.stable
  exact triple_settle (fun x _ hr hw => hw x hr) fun _ _ _ _ => trivial

/-- The copies that a `GET` makes are versions. -/
theorem triple_get (hP : Lasting P) :
    Triple claims a P (await (redis (.get (jobKey i))))
      (fun r w => P w ∧ ∀ rec, r = some rec → Version w.log i rec) fun _ _ => True := by
  refine triple_redis hP (fun _ _ => trivial) (fun w w' x hw hp hl hx _ => ?_)
    fun r => hP.and (lasting_versions i r)
  refine ⟨hP w w' hl hp, fun rec hrec => (hw i rec ?_).mono hl⟩
  exact (Except.ok.inj hx).trans hrec

theorem triple_isoNow (hP : Lasting P) :
    Triple claims a P isoNow (fun _ => P) fun _ _ => True :=
  Triple.bind (triple_primitive (Q := fun _ => P) (fun _ _ => trivial)
    fun w _ _ w' _ hp hl _ => hP w w' hl hp) fun _ => triple_pure fun _ hp => hp

/-- **An update**: it leaves the id alone and names no worker, or the job was taken. -/
theorem triple_updateJob (hP : Lasting P) {u : PartialJob} (hid : u.id = none)
    (hu : ∀ w worker, P w → u.workerId = some (some worker) → Popped i w.log) :
    Triple claims a P (updateJob .redis i u) (fun _ => P) fun _ _ => True := by
  have hget : Triple claims a P (await (getJob .redis i))
      (fun obj w => ∃ r, obj = Option.map JobObj.parsed r ∧ P w ∧
        ∀ rec, r = some rec → Version w.log i rec) fun _ _ => True := by
    refine Triple.await (Triple.bind (triple_get hP) fun r => triple_pure fun w hw => ⟨r, rfl, hw⟩)
      (fun obj => Lasting.stable ?_) fun _ => lasting_true.stable
    rintro w w' hl ⟨r, hr, hp, hversion⟩
    exact ⟨r, hr, hP w w' hl hp, lasting_versions i r w w' hl hversion⟩
  refine Triple.bind hget fun obj => ?_
  cases obj with
  | none => exact fun _ e w hw _ _ he => he _ w hw trivial
  | some obj =>
    refine Triple.of_pre (C := ∃ rec, obj = .parsed rec) ?_ ?_
    · rintro w ⟨r, hr, -⟩
      cases r with
      | none => cases hr
      | some rec => exact ⟨rec, Option.some.inj hr⟩
    rintro ⟨rec, rfl⟩
    have hPV : Lasting fun w => P w ∧ Version w.log i rec :=
      hP.and fun _ _ hl h => h.mono hl
    refine Triple.conseq (P := fun w => P w ∧ Version w.log i rec) ?_ ?_ (fun _ _ h => h)
      fun _ _ h => h
    · refine Triple.bind (triple_isoNow hPV) fun now => ?_
      refine triple_redis (c := .set (jobKey i) (rec.update u now)) hPV (fun w hw => ?_)
        (fun w w' x _ hp hl _ _ => hP w w' hl hp.1) fun _ => hP
      exact ⟨i, rfl, hw.2.update hid (fun worker => hu w worker hw.1) now⟩
    · rintro w - ⟨r, hr, hp, hversion⟩
      cases r with
      | none => cases hr
      | some rec' =>
        obtain rfl : rec = rec' := by simpa using hr
        exact ⟨hp, hversion rec rfl⟩

/-- A job is taken off the queue. -/
theorem triple_dequeue :
    Triple claims a (fun _ => True) (dequeue .redis)
      (fun obj w => ∀ obj', obj = some obj' → ∃ rec, obj' = .parsed rec ∧ Popped rec.id w.log)
      fun _ _ => True := by
  have hpop : Triple claims a (fun _ => True) (await (redis (.rpop QUEUE_KEY)))
      (fun x w => ∀ i, x = some i → Popped i w.log) fun _ _ => True := by
    refine triple_redis lasting_true (fun _ _ => trivial) (fun w w' x _ _ _ _ hran i hx => ?_)
      fun x w w' hl h i hx => (h i hx).mono hl
    subst hx
    exact ⟨a, List.mem_filterMap.mpr ⟨_, hran, rfl⟩⟩
  refine Triple.bind hpop fun x => ?_
  cases x with
  | none => exact triple_pure fun _ _ _ h => by cases h
  | some i =>
    dsimp only
    split_ifs
    · exact triple_pure fun _ _ _ h => by cases h
    · refine Triple.bind (Q := fun r w => Popped i w.log ∧
        ∀ rec, r = some rec → Version w.log i rec) ?_ fun r => ?_
      · exact (triple_get (lasting_popped i)).conseq (fun _ _ h => h i rfl) (fun _ _ h => h)
          fun _ _ h => h
      · refine triple_pure fun w hw obj' hobj => ?_
        obtain ⟨rec, rfl, rfl⟩ := Option.map_eq_some_iff.mp hobj
        obtain rfl := (hw.2 rec rfl).1
        exact ⟨rec, rfl, hw.1⟩

/-- **A poll** claims a job that it took. -/
theorem fine_getJobsNext (worker : String) : Fine claims a (getJobsNext .redis worker) := by
  refine Fine.tryCatch ?_ fun _ => Fine.pure _
  refine Triple.bind (triple_dequeue.await (fun obj => Lasting.stable ?_)
    fun _ => lasting_true.stable) fun obj => ?_
  · intro w w' hl h obj' hobj
    obtain ⟨rec, hrec, hpopped⟩ := h obj' hobj
    exact ⟨rec, hrec, hpopped.mono hl⟩
  cases obj with
  | none => exact triple_pure fun _ _ => trivial
  | some obj =>
    refine Triple.of_pre (C := ∃ rec, obj = .parsed rec) ?_ ?_
    · intro w hw
      obtain ⟨rec, hrec, -⟩ := hw obj rfl
      exact ⟨rec, hrec⟩
    rintro ⟨rec, rfl⟩
    have hclaim : Triple claims a (fun w => Popped rec.id w.log)
        (Calls.await (updateJob .redis rec.id (claimUpdate worker))) (fun _ _ => True)
        fun _ _ => True :=
      ((triple_updateJob (lasting_popped rec.id) rfl fun _ _ hp _ => hp).conseq (fun _ _ h => h)
        (fun _ _ _ => trivial) fun _ _ h => h).await (fun _ => lasting_true.stable)
        fun _ => lasting_true.stable
    refine Triple.conseq (P := fun w => Popped rec.id w.log) ?_ ?_ (fun _ _ h => h) fun _ _ h => h
    · exact hclaim.bind fun _ => triple_pure fun _ _ => trivial
    · intro w _ hw
      obtain ⟨rec', hrec, hpopped⟩ := hw _ rfl
      cases hrec
      exact hpopped

/-- A command that makes no record. -/
theorem fine_redis {c : RedisCmd} (ho : ∀ w, Claims a w (.redis c)) :
    Fine claims a (await (redis c)) :=
  triple_redis lasting_true (fun w _ => ho w) (fun _ _ _ _ _ _ _ _ => trivial)
    fun _ => lasting_true

/-- **The other calls** name no worker. -/
theorem rules_claims : Rules claims where
  host _ _ := triple_primitive (fun _ _ => trivial) fun _ _ _ _ _ _ _ _ => trivial
  get _ _ := fine_redis fun _ => trivial
  lrange _ _ _ := fine_redis fun _ => trivial
  llen _ := fine_redis fun _ => trivial
  enqueue a request := by
    refine Triple.bind (Q := fun _ _ => True) (triple_primitive (fun _ _ => trivial)
      fun _ _ _ _ _ _ _ _ => trivial) fun id => ?_
    refine Triple.bind (triple_isoNow lasting_true) fun now => ?_
    exact Yields.bind (Fine.yields (fine_redis fun _ => ⟨rfl, rfl⟩))
      fun _ _ => Yields.pure ⟨_, rfl⟩
  update a i u ha hu := by
    refine (triple_updateJob lasting_true hu.benign.id fun w worker _ hworker => ?_).conseq
      (fun _ _ h => h) (fun _ _ h => h) fun _ _ h => h
    cases hu with
    | exec h => cases h <;> cases hworker
    | @claim worker htag => exact absurd ⟨worker, htag⟩ ha
    | post htag hr => cases hworker
  post _ _ _ _ _ := trivial

theorem entries_claims : Entries claims :=
  rules_claims.entries rfl fun worker _ _ _ _ _ _ hw' =>
    (fine_getJobsNext worker).toThread (fun _ _ _ _ => trivial) (fun _ _ _ _ => trivial)
      (fun _ => lasting_true.stable) (fun _ => lasting_true.stable) hw' trivial

/-- **A job that waits on Redis has no worker.** -/
theorem waiting_unclaimed {c : Config (apiSystem .redis)} (hc : Reachable .redis c) {job : Job}
    (hi : i ∈ pending .redis c.world.state) (hjob : lookup .redis c.world.state i = some job) :
    job.id = i ∧ job.workerId = none := by
  have hok : Ok claims c := (Ok.init fun _ _ h => by cases h).reaches entries_claims
    (hc.mono fun _ _ _ _ _ _ _ _ _ _ _ => trivial)
  obtain ⟨hid, hworker⟩ := hok.inv i job hjob
  refine ⟨hid, ?_⟩
  by_contra hne
  obtain ⟨a, ha⟩ := hworker hne
  have hnodup := hc.inv.nodup
  rw [← hc.inv.fifo] at hnodup
  exact (List.nodup_append.mp hnodup).2.2 i (List.mem_map.mpr ⟨_, ha, rfl⟩) i hi rfl

/-! ### A poll on its own -/

/-- **A poll of `worker`** while no other call runs: its end, and the store that it leaves. -/
def pollAlone (b : Backend) (inp : Input) (worker : String) (s : Store) :
    Option (Outcome × Store) :=
  alone (M := machine) (fun _ => inp) ((handle b (.jobsNext worker)).toThread replied) s

/-- **The job sent is the stored one**: it is running, claimed by the worker, and what `getJob`
returns afterwards. -/
structure Shown (b : Backend) (worker : String) (job : Job) (s : Store) : Prop where
  status : job.status = .running
  workerId : job.workerId = some worker
  stored : ∀ inp, serve b (.getJob job.id, inp) s = some (.returned (.ok (some job)), s)

/-- The same records and the same queue, on two backends. -/
structure SameJobs (b b' : Backend) (s s' : Store) : Prop where
  lookup : ∀ i, lookup b s i = lookup b' s' i
  pending : pending b s = pending b' s'

/-- What a poll sends, of the job whose record was `job`. -/
def sent (b : Backend) (worker now : String) (job : Job) : Job :=
  match b with
  | .memory => job.update (claimUpdate worker) now
  | .redis => job

section
variable {b : Backend} {s : Store} {inp : Input} {worker : String}

theorem pollAlone_empty (h : pending b s = []) :
    pollAlone b inp worker s = some (.reply ⟨204, .none⟩, s) := by
  refine Settles.toThread (r := .ok ⟨204, .none⟩) (Settles.tryCatch ?_) replied
  exact (settles_dequeue_empty h).await.bind (Settles.pure _ _ _)

/-- The first job that waits is claimed and sent. -/
theorem pollAlone_cons {i : String} {rest : List String} {job : Job} (h : pending b s = i :: rest)
    (hne : i ≠ "") (hjob : lookup b s i = some job) (hid : job.id = i) : ∃ s',
    pollAlone b inp worker s =
      some (.reply ⟨200, .job (sent b worker (toISOString inp.ms) job)⟩, s') ∧
    lookup b s' i = some (job.update (claimUpdate worker) (toISOString inp.ms)) := by
  obtain ⟨s₁, hdequeue, hl, -, -⟩ := settles_dequeue inp h hne hjob
  have hjob₁ : lookup b s₁ i = some job := (hl i).trans hjob
  obtain ⟨s₂, hupdate, hup⟩ := settles_updateJob inp hjob₁ (claimUpdate worker)
  have hjob₂ : lookup b s₂ i = some (job.update (claimUpdate worker) (toISOString inp.ms)) := by
    rw [hup.lookup, if_pos rfl]
  have hread : Settles (M := machine) (fun _ => inp) (Program.read (held b i job)) s₂
      (.ok (sent b worker (toISOString inp.ms) job)) s₂ := by
    cases b with
    | memory => exact settles_load hjob₂
    | redis => exact Settles.pure _ _ _
  refine ⟨s₂, Settles.toThread (r := .ok _) (Settles.tryCatch ?_) replied, hjob₂⟩
  subst hid
  exact hdequeue.await.bind ((settles_read_held hjob₁).bind
    (hupdate.await.bind (hread.bind (Settles.pure _ _ _))))

/-- **What a poll does** in a state that is reached. -/
theorem pollAlone_cases {c : Config (apiSystem b)} (hc : Reachable b c) (inp : Input)
    (worker : String) :
    (pending b c.world.state = [] ∧
      pollAlone b inp worker c.world.state = some (.reply ⟨204, .none⟩, c.world.state)) ∨
    ∃ i job s', i ∈ pending b c.world.state ∧ lookup b c.world.state i = some job ∧ job.id = i ∧
      pollAlone b inp worker c.world.state =
        some (.reply ⟨200, .job (sent b worker (toISOString inp.ms) job)⟩, s') ∧
      lookup b s' i = some (job.update (claimUpdate worker) (toISOString inp.ms)) := by
  cases hp : pending b c.world.state with
  | nil => exact Or.inl ⟨rfl, pollAlone_empty hp⟩
  | cons i rest =>
    have hmem : i ∈ pending b c.world.state := by rw [hp]; exact List.mem_cons_self
    have hi : i ∈ ids c.world.log := hc.inv.pending_mem hmem
    obtain ⟨x, hx, hxi⟩ := mem_ids.mp hi
    obtain ⟨job, hjob, hkeep⟩ := hc.inv.stored x hx
    rw [hxi] at hjob
    have hid : job.id = i := hkeep.id.trans hxi
    obtain ⟨s', hpoll, hl⟩ := pollAlone_cons hp (hc.inv.ne_empty hi) hjob hid
    exact Or.inr ⟨i, job, s', List.mem_cons_self, hjob, hid, hpoll, hl⟩

end

/-- In memory the job sent is the record. -/
theorem shown_memory {s : Store} {job : Job} {worker now : String}
    (h : lookup .memory s job.id = some (job.update (claimUpdate worker) now)) :
    Shown .memory worker (sent .memory worker now job) s where
  status := rfl
  workerId := rfl
  stored inp := (serve_getJob .memory s job.id inp).trans (by rw [h]; rfl)

/-- In memory a job that is sent names the worker, on Redis it names none. -/
theorem same_answer_iff {c : Config (apiSystem .memory)} {c' : Config (apiSystem .redis)}
    (hc : Reachable .memory c) (hc' : Reachable .redis c')
    (hp : pending .memory c.world.state = pending .redis c'.world.state) (inp : Input)
    (worker : String) :
    (pollAlone .memory inp worker c.world.state).map Prod.fst =
        (pollAlone .redis inp worker c'.world.state).map Prod.fst ↔
      pending .memory c.world.state = [] := by
  rcases pollAlone_cases hc inp worker with ⟨hempty, hm⟩ | ⟨i, old, s₁, hi, hold, hid, hm, -⟩
  · rw [hm, pollAlone_empty (hp.symm.trans hempty)]
    exact iff_of_true rfl hempty
  · refine iff_of_false (fun h => ?_) (List.ne_nil_of_mem hi)
    rcases pollAlone_cases hc' inp worker with ⟨-, hr⟩ | ⟨j, rec, s₂, hj, hrec, -, hr, -⟩
    · rw [hm, hr] at h
      cases h
    · have hnone : rec.workerId = none := (waiting_unclaimed hc' hj hrec).2
      rw [hm, hr] at h
      have hjob : sent .memory worker (toISOString inp.ms) old = rec := by simpa [sent] using h
      have hworker : (sent .memory worker (toISOString inp.ms) old).workerId = some worker := rfl
      rw [hjob, hnone] at hworker
      cases hworker

/-- **The job shown to a worker is the stored one exactly in memory**; and where the other backend
holds the same jobs, a poll gives the same answer there exactly if no job waits. -/
theorem shown_iff (b : Backend) (c : Config (apiSystem b)) (hc : Reachable b c) (inp : Input)
    (worker : String) :
    (∀ job s', pollAlone b inp worker c.world.state = some (.reply ⟨200, .job job⟩, s') →
      (Shown b worker job s' ↔ b = .memory)) ∧
    ∀ b' (c' : Config (apiSystem b')), b' ≠ b → Reachable b' c' →
      SameJobs b b' c.world.state c'.world.state →
      ((pollAlone b inp worker c.world.state).map Prod.fst =
          (pollAlone b' inp worker c'.world.state).map Prod.fst ↔
        pending b c.world.state = []) := by
  constructor
  · intro job s' h
    rcases pollAlone_cases hc inp worker with ⟨-, hnone⟩ | ⟨i, old, s₁, hi, hold, hid, hsent, hl⟩
    · rw [hnone] at h
      cases h
    · rw [hsent] at h
      obtain ⟨rfl, rfl⟩ : sent b worker (toISOString inp.ms) old = job ∧ s₁ = s' := by simpa using h
      cases b with
      | memory =>
        rw [← hid] at hl
        exact iff_of_true (shown_memory hl) rfl
      | redis =>
        refine iff_of_false (fun hshown => ?_) nofun
        have hnone : old.workerId = none := (waiting_unclaimed hc hi hold).2
        cases hnone.symm.trans hshown.workerId
  · intro b' c' hne hc' hsame
    cases b with
    | memory =>
      cases b' with
      | memory => exact absurd rfl hne
      | redis => exact same_answer_iff hc hc' hsame.pending inp worker
    | redis =>
      cases b' with
      | memory =>
        rw [hsame.pending, ← same_answer_iff hc' hc hsame.pending.symm inp worker]
        exact eq_comm
      | redis => exact absurd rfl hne

/-! ### A submission, and then a poll -/

/-- The submission on Redis, to its answer. -/
def submissionOnRedis : List (Label Task Input) :=
  .arrive (.request (.execute (.obj [("language", .str "python"), ("code", .str "print(1)")]))) ::
    turn 0 3 { uuid := "job" } ++ turn 0 2 {} ++ turn 0 1 {} ++ turn 0 3 {}

/-- The start of its inline execution on Redis, to the end of the update. -/
def startOnRedis : List (Label Task Input) :=
  turn 1 2 {} ++ turn 1 1 {} ++ turn 1 2 {} ++ turn 1 2 {}

/-- The job that is submitted. -/
def submitted : Job :=
  newJob "job" ⟨"", [], some [("CODEHIVE_LANG", "python")], none, none, none⟩ (toISOString 0)

/-- In memory the worker is shown the stored job; with the same job on Redis the answer is another
one. -/
theorem submitted_shown : ∃ c c' job s', (start .memory).run (submission 0) = some c ∧
    (start .redis).run (submissionOnRedis ++ startOnRedis) = some c' ∧
    SameJobs .memory .redis c.world.state c'.world.state ∧
    pollAlone .memory {} "w" c.world.state = some (.reply ⟨200, .job job⟩, s') ∧
    Shown .memory "w" job s' ∧
    (pollAlone .memory {} "w" c.world.state).map Prod.fst ≠
      (pollAlone .redis {} "w" c'.world.state).map Prod.fst := by
  obtain ⟨c, hc⟩ : ∃ c, (start .memory).run (submission 0) = some c :=
    Option.isSome_iff_exists.mp rfl
  obtain ⟨c', hc'⟩ : ∃ c, (start .redis).run (submissionOnRedis ++ startOnRedis) = some c :=
    Option.isSome_iff_exists.mp rfl
  have hpoll : ∃ job s', ((start .memory).run (submission 0)).bind
      (fun c => pollAlone .memory {} "w" c.world.state) = some (.reply ⟨200, .job job⟩, s') :=
    ⟨_, _, rfl⟩
  have hpending : ((start .memory).run (submission 0)).map
      (fun c => pending .memory c.world.state) = some ["job"] := rfl
  have hpending' : ((start .redis).run (submissionOnRedis ++ startOnRedis)).map
      (fun c => pending .redis c.world.state) = some ["job"] := rfl
  have hmem : ((start .memory).run (submission 0)).map (fun c => c.world.state.mem.jobs) =
      some (Function.update (Function.update (fun _ => none) "job" (some submitted)) "job"
        (some (submitted.update { status := some .running } (toISOString 0)))) := rfl
  have hredis : ((start .redis).run (submissionOnRedis ++ startOnRedis)).map
      (fun c => c.world.state.redis.strings) =
      some (Function.update (Function.update (fun _ => none) (jobKey "job") (some submitted))
        (jobKey "job") (some (submitted.update { status := some .running } (toISOString 0)))) := rfl
  rw [hc, Option.bind_some] at hpoll
  rw [hc, Option.map_some, Option.some.injEq] at hpending hmem
  rw [hc', Option.map_some, Option.some.injEq] at hpending' hredis
  obtain ⟨job, s', hpoll⟩ := hpoll
  have hsame : SameJobs .memory .redis c.world.state c'.world.state := by
    refine ⟨fun i => ?_, hpending.trans hpending'.symm⟩
    simp only [lookup, hmem, hredis, Function.update_apply, jobKey_inj]
  refine ⟨c, c', job, s', hc, hc', hsame, hpoll, ?_, ?_⟩
  · exact ((shown_iff .memory c (reaches_of_run hc) {} "w").1 job s' hpoll).mpr rfl
  · intro h
    have hnone := ((shown_iff .memory c (reaches_of_run hc) {} "w").2 .redis c' (by decide)
      (reaches_of_run hc') hsame).mp h
    rw [hpending] at hnone
    cases hnone

/-- **On Redis the worker is shown a job that is queued**, while the stored one is running. -/
theorem stale_on_redis : ∃ c job s', (start .redis).run submissionOnRedis = some c ∧
    pollAlone .redis {} "w" c.world.state = some (.reply ⟨200, .job job⟩, s') ∧
    job.status = .queued ∧ ¬ Shown .redis "w" job s' := by
  obtain ⟨c, hc⟩ : ∃ c, (start .redis).run submissionOnRedis = some c :=
    Option.isSome_iff_exists.mp rfl
  have hpoll : ∃ job s', ((start .redis).run submissionOnRedis).bind
      (fun c => pollAlone .redis {} "w" c.world.state) = some (.reply ⟨200, .job job⟩, s') ∧
      job.status = .queued := ⟨_, _, rfl, rfl⟩
  rw [hc, Option.bind_some] at hpoll
  obtain ⟨job, s', hpoll, hstatus⟩ := hpoll
  refine ⟨c, job, s', hc, hpoll, hstatus, fun h => ?_⟩
  rw [h.status] at hstatus
  cases hstatus

end CodeHive.Api.ShownJobs
