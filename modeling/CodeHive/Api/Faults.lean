import CodeHive.Api.Handlers
import CodeHive.Concurrency.Triples

/-! # Redis commands that fail

The API on a Redis whose commands may fail: `fate` says of the commands, in the order in which they
are sent, what becomes of them. A failing command is rejected, and it may have been performed all
the same. `Sound` is the invariant that every job whose record says `queued` is on the list or was
handed to a poll, and `Spared` is what has to be assumed of the commands of the polls for it. -/

namespace CodeHive.Api.Faults

set_option autoImplicit false

open CodeHive.Js.Value CodeHive.Api.Types CodeHive.Api.Stores CodeHive.Api.Messages
open CodeHive.Api.Program CodeHive.Api.Queue CodeHive.Api.System CodeHive.Api.History
open CodeHive.Api.Records CodeHive.Api.Handlers
open CodeHive.Concurrency CodeHive.Concurrency.Calls CodeHive.Concurrency.Pool
open CodeHive.Concurrency.RelyGuarantee CodeHive.Concurrency.Triples

/-- How a command fails. -/
inductive Fault where
  /-- It is not performed. -/
  | refused (err : JsError)
  /-- It is performed, and its answer does not arrive. -/
  | lost (err : JsError)

/-- The stores, and how many commands have been sent. -/
structure FaultyStore where
  store : Store
  sent : ℕ

/-- What a primitive does, the Redis commands failing as `fate` says. -/
def faultyExec (fate : ℕ → Option Fault) (o : Op) (i : Input) (s : FaultyStore) :
    Option (o.Answer × FaultyStore) :=
  match o with
  | .host o => (o.exec i s.store).map fun x => (x.1, ⟨x.2, s.sent⟩)
  | .mem c => (c.exec i s.store).map fun x => (x.1, ⟨x.2, s.sent⟩)
  | .redis c =>
    let x := s.store.redis.exec c
    match fate s.sent with
    | none => some (x.1, ⟨{ s.store with redis := x.2 }, s.sent + 1⟩)
    | some (.refused err) => some (.error err, ⟨s.store, s.sent + 1⟩)
    | some (.lost err) => some (.error err, ⟨{ s.store with redis := x.2 }, s.sent + 1⟩)

@[reducible] def faulty (fate : ℕ → Option Fault) : Machine api :=
  ⟨FaultyStore, Input, faultyExec fate⟩

/-- **The API on a Redis that fails as `fate` says.** -/
abbrev faultyApi (fate : ℕ → Option Fault) : System api Task Outcome :=
  { faulty fate with entry := apiEntry .redis }

/-- The process before its first request. -/
abbrev startFaulty (fate : ℕ → Option Fault) : Config (faultyApi fate) :=
  Config.init (faultyApi fate) ⟨Store.empty, 0⟩

variable {fate : ℕ → Option Fault}

/-- **No command of a poll fails that takes an id off the list or comes after that**: an `RPOP` may
be refused, or its answer be lost if the list is empty. -/
def Spared (a : Actor) (w : Pool.World (faulty fate) Task) : Op → Prop
  | .redis c => Polls a → match fate w.state.sent with
    | none => True
    | some (.refused _) => ∃ list, c = .rpop list
    | some (.lost _) => (∃ list, c = .rpop list) ∧ pending .redis w.state.store = []
  | _ => True

/-! ### The invariant -/

/-- **What holds of the store and the log.** -/
structure Sound (s : Store) (log : List Event) : Prop where
  issued : ∀ x ∈ issues log, x.2 ∈ s.issued ∧ x.2 ≠ ""
  unique : ((issues log).map (·.2)).Nodup
  named : ∀ i job, lookup .redis s i = some job → job.id = i ∧ ∃ a, (a, i) ∈ issues log
  listed : ∀ i ∈ pending .redis s, i ≠ "" ∧ ∃ job, lookup .redis s i = some job
  claimable : ∀ i job, lookup .redis s i = some job → job.status = .queued →
    i ∈ pending .redis s ∨ ∃ a, (a, i) ∈ pops log
  polled : ∀ x ∈ pops log, Polls x.1

/-- What the other calls do between two segments of call `t`. -/
structure Leaves (t : ℕ) (s : Store) (log : List Event) (s' : Store) (log' : List Event) :
    Prop where
  grows : log <+: log'
  kept : ∀ i job, lookup .redis s i = some job → ∃ job', lookup .redis s' i = some job' ∧
    (job.status ≠ .queued → job'.status ≠ .queued)
  fresh : ∀ x ∈ issues log, x.1.tid = t → lookup .redis s x.2 = none → lookup .redis s' x.2 = none
  pops : ∀ x ∈ pops log', x.1.tid = t → x ∈ pops log

/-- What a primitive needs. -/
def Ready (a : Actor) (s : Store) (log : List Event) : Op → Prop
  | .host _ => True
  | .mem _ => False
  | .redis (.set key rec) =>
    ∃ i job, key = jobKey i ∧ lookup .redis s i = some job ∧ rec.id = i ∧ rec.status ≠ .queued
  | .redis (.multiSetLpush key job list id) => key = jobKey job.id ∧ list = QUEUE_KEY ∧
      id = job.id ∧ (a, job.id) ∈ issues log ∧ lookup .redis s job.id = none
  | .redis (.rpop list) => list = QUEUE_KEY ∧ Polls a
  | .redis _ => True

theorem Leaves.refl (t : ℕ) (s : Store) (log : List Event) : Leaves t s log s log :=
  ⟨List.prefix_rfl, fun _ job h => ⟨job, h, id⟩, fun _ _ _ h => h, fun _ h _ => h⟩

theorem Leaves.trans {t : ℕ} {s₁ s₂ s₃ : Store} {log₁ log₂ log₃ : List Event}
    (h₁ : Leaves t s₁ log₁ s₂ log₂) (h₂ : Leaves t s₂ log₂ s₃ log₃) :
    Leaves t s₁ log₁ s₃ log₃ where
  grows := h₁.grows.trans h₂.grows
  kept i job hj := by
    obtain ⟨job', hj', hq⟩ := h₁.kept i job hj
    obtain ⟨job'', hj'', hq'⟩ := h₂.kept i job' hj'
    exact ⟨job'', hj'', fun h => hq' (hq h)⟩
  fresh x hx ht hn := h₂.fresh x ((h₁.grows.filterMap _).subset hx) ht (h₁.fresh x hx ht hn)
  pops x hx ht := h₁.pops x (h₂.pops x hx ht) ht

theorem Sound.empty : Sound Store.empty [] where
  issued := by simp [issues]
  unique := by simp [issues]
  named i job h := by cases h
  listed i hi := by cases hi
  claimable i job h := by cases h
  polled := by simp [pops]

section
variable {a : Actor} {s s' : Store} {log : List Event} {e : Event}

/-- No id is given out and none is taken off the list: it is the records and the list that
matter. -/
theorem Sound.kept (h : Sound s log) (he₁ : issueOf e = none) (he₂ : popOf e = none)
    (hi : s'.issued = s.issued)
    (hnamed : ∀ i job, lookup .redis s' i = some job → job.id = i ∧ ∃ a, (a, i) ∈ issues log)
    (hlisted : ∀ i ∈ pending .redis s', i ≠ "" ∧ ∃ job, lookup .redis s' i = some job)
    (hclaimable : ∀ i job, lookup .redis s' i = some job → job.status = .queued →
      i ∈ pending .redis s' ∨ ∃ a, (a, i) ∈ pops log) : Sound s' (log ++ [e]) := by
  have h₁ := issues_of_none log he₁
  have h₂ := pops_of_none log he₂
  exact {
    issued := by rw [h₁, hi]; exact h.issued
    unique := by rw [h₁]; exact h.unique
    named := by rw [h₁]; exact hnamed
    listed := hlisted
    claimable := by rw [h₂]; exact hclaimable
    polled := by rw [h₂]; exact h.polled }

/-- The same for the other calls. -/
theorem Leaves.quiet {t : ℕ} (he₂ : popOf e = none)
    (hkept : ∀ i job, lookup .redis s i = some job → ∃ job', lookup .redis s' i = some job' ∧
      (job.status ≠ .queued → job'.status ≠ .queued))
    (hfresh : ∀ x ∈ issues log, x.1.tid = t → lookup .redis s x.2 = none →
      lookup .redis s' x.2 = none) : Leaves t s log s' (log ++ [e]) where
  grows := List.prefix_append _ _
  kept := hkept
  fresh := hfresh
  pops := by
    rw [pops_of_none log he₂]
    exact fun x hx _ => hx

/-- Nothing happens to the records, the list and the ids. -/
theorem Sound.quiet (h : Sound s log) (he₁ : issueOf e = none) (he₂ : popOf e = none)
    (hl : ∀ i, lookup .redis s' i = lookup .redis s i)
    (hp : pending .redis s' = pending .redis s) (hi : s'.issued = s.issued) :
    Sound s' (log ++ [e]) ∧ ∀ t, Leaves t s log s' (log ++ [e]) := by
  refine ⟨h.kept he₁ he₂ hi ?_ ?_ ?_, fun t => .quiet he₂ ?_ ?_⟩
  · simp only [hl]
    exact h.named
  · simp only [hp, hl]
    exact h.listed
  · simp only [hp, hl]
    exact h.claimable
  · exact fun i job hj => ⟨job, (hl i).trans hj, id⟩
  · exact fun x _ _ hn => (hl x.2).trans hn

/-- An id is given out. -/
theorem Sound.issue (h : Sound s log) {i : String} (he₁ : issueOf e = some (a, i))
    (he₂ : popOf e = none) (hi : i ∉ s.issued) (hne : i ≠ "") :
    Sound { s with issued := i :: s.issued } (log ++ [e]) ∧
      ∀ t, Leaves t s log { s with issued := i :: s.issued } (log ++ [e]) := by
  have h₁ : issues (log ++ [e]) = issues log ++ [(a, i)] := by simp [he₁]
  have h₂ := pops_of_none log he₂
  refine ⟨⟨?_, ?_, ?_, h.listed, ?_, ?_⟩, fun t => .quiet he₂ ?_ ?_⟩
  · exact issued_concat he₁ hne h.issued
  · exact nodup_issues_concat he₁ h.issued h.unique hi
  · intro j job hj
    obtain ⟨hid, d, hd⟩ := h.named j job hj
    exact ⟨hid, d, by rw [h₁]; exact List.mem_append_left _ hd⟩
  · rw [h₂]; exact h.claimable
  · rw [h₂]; exact h.polled
  · exact fun j job hj => ⟨job, hj, id⟩
  · exact fun x _ _ hn => hn

/-- A record is overwritten by one that is not queued. -/
theorem Sound.set (h : Sound s log) {i : String} {old rec : Job} (he₁ : issueOf e = none)
    (he₂ : popOf e = none) (hold : lookup .redis s i = some old) (hid : rec.id = i)
    (hst : rec.status ≠ .queued)
    (hl : ∀ j, lookup .redis s' j = if j = i then some rec else lookup .redis s j)
    (hp : pending .redis s' = pending .redis s) (hi : s'.issued = s.issued) :
    Sound s' (log ++ [e]) ∧ ∀ t, Leaves t s log s' (log ++ [e]) := by
  have hkept : ∀ j job, lookup .redis s j = some job → ∃ job', lookup .redis s' j = some job' ∧
      (job.status ≠ .queued → job'.status ≠ .queued) := by
    intro j job hj
    rw [hl]
    split_ifs with hji
    · exact ⟨rec, rfl, fun _ => hst⟩
    · exact ⟨job, hj, id⟩
  refine ⟨h.kept he₁ he₂ hi ?_ ?_ ?_, fun t => .quiet he₂ hkept ?_⟩
  · intro j job hj
    rw [hl] at hj
    split_ifs at hj with hji
    · obtain rfl := Option.some.inj hj
      exact ⟨hid.trans hji.symm, hji ▸ (h.named i old hold).2⟩
    · exact h.named j job hj
  · rw [hp]
    intro j hj
    obtain ⟨hne, job, hjob⟩ := h.listed j hj
    obtain ⟨job', hjob', -⟩ := hkept j job hjob
    exact ⟨hne, job', hjob'⟩
  · rw [hp]
    intro j job hj hq
    rw [hl] at hj
    split_ifs at hj with hji
    · obtain rfl := Option.some.inj hj
      exact absurd hq hst
    · exact h.claimable j job hj hq
  · intro x _ _ hn
    rw [hl, if_neg (fun hxi => by rw [hxi, hold] at hn; cases hn)]
    exact hn

/-- A job is enqueued under an id that call `a` was given. -/
theorem Sound.enqueue (h : Sound s log) {job : Job} (he₁ : issueOf e = none)
    (he₂ : popOf e = none) (hown : (a, job.id) ∈ issues log)
    (hnone : lookup .redis s job.id = none)
    (hl : ∀ j, lookup .redis s' j = if j = job.id then some job else lookup .redis s j)
    (hp : pending .redis s' = pending .redis s ++ [job.id]) (hi : s'.issued = s.issued) :
    Sound s' (log ++ [e]) ∧ ∀ t, t ≠ a.tid → Leaves t s log s' (log ++ [e]) := by
  have hkept : ∀ j rec, lookup .redis s j = some rec → lookup .redis s' j = some rec := by
    intro j rec hj
    rw [hl, if_neg (fun hji => by rw [hji, hnone] at hj; cases hj)]
    exact hj
  refine ⟨h.kept he₁ he₂ hi ?_ ?_ ?_, fun t ht => .quiet he₂ ?_ ?_⟩
  · intro j rec hj
    rw [hl] at hj
    split_ifs at hj with hji
    · obtain rfl := Option.some.inj hj
      exact ⟨hji.symm, a, hji ▸ hown⟩
    · exact h.named j rec hj
  · rw [hp]
    intro j hj
    rcases List.mem_append.mp hj with hj | hj
    · obtain ⟨hne, rec, hrec⟩ := h.listed j hj
      exact ⟨hne, rec, hkept j rec hrec⟩
    · rw [List.mem_singleton.mp hj]
      exact ⟨(h.issued _ hown).2, job, by rw [hl, if_pos rfl]⟩
  · rw [hp]
    intro j rec hj hq
    rw [hl] at hj
    split_ifs at hj with hji
    · exact Or.inl (List.mem_append_right _ (by simp [hji]))
    · exact (h.claimable j rec hj hq).imp_left (List.mem_append_left _)
  · exact fun j rec hj => ⟨rec, hkept j rec hj, id⟩
  · intro x hx hxt hn
    refine (hl x.2).trans ?_
    rw [if_neg (fun hxi => ht ?_)]
    · exact hn
    · have hsame : x = (a, job.id) := List.inj_on_of_nodup_map h.unique hx hown hxi
      rw [← hxt, hsame]

/-- A poll takes the oldest id off the list. -/
theorem Sound.pop (h : Sound s log) {i : String} (he₁ : issueOf e = none)
    (he₂ : popOf e = some (a, i)) (ha : Polls a) (hl : ∀ j, lookup .redis s' j = lookup .redis s j)
    (hp : pending .redis s = i :: pending .redis s') (hi : s'.issued = s.issued) :
    Sound s' (log ++ [e]) ∧ ∀ t, t ≠ a.tid → Leaves t s log s' (log ++ [e]) := by
  have h₁ := issues_of_none log he₁
  have h₂ : pops (log ++ [e]) = pops log ++ [(a, i)] := by simp [he₂]
  refine ⟨⟨?_, ?_, ?_, ?_, ?_, ?_⟩, fun t ht => ⟨List.prefix_append _ _, ?_, ?_, ?_⟩⟩
  · rw [h₁, hi]; exact h.issued
  · rw [h₁]; exact h.unique
  · simp only [h₁, hl]; exact h.named
  · simp only [hl]
    exact fun j hj => h.listed j (by rw [hp]; exact List.mem_cons_of_mem _ hj)
  · rw [h₂]
    intro j job hj hq
    rcases h.claimable j job ((hl j).symm.trans hj) hq with hmem | ⟨d, hd⟩
    · rw [hp] at hmem
      rcases List.mem_cons.mp hmem with rfl | hmem
      · exact Or.inr ⟨a, List.mem_append_right _ List.mem_cons_self⟩
      · exact Or.inl hmem
    · exact Or.inr ⟨d, List.mem_append_left _ hd⟩
  · rw [h₂]
    intro x hx
    rcases List.mem_append.mp hx with hx | hx
    · exact h.polled x hx
    · rw [List.mem_singleton.mp hx]; exact ha
  · exact fun j job hj => ⟨job, (hl j).trans hj, id⟩
  · exact fun x _ _ hn => (hl x.2).trans hn
  · rw [h₂]
    intro x hx hxt
    rcases List.mem_append.mp hx with hx | hx
    · exact hx
    · rw [List.mem_singleton.mp hx] at hxt
      exact absurd hxt.symm ht

end

/-! ### The primitives -/

/-- A world of the process. -/
abbrev FaultyWorld (fate : ℕ → Option Fault) := Pool.World (faulty fate) Task

section
variable {a : Actor} {w w' : FaultyWorld fate} {i : Input}

/-- A command is not performed, or it is; if it did not fail it is answered. -/
theorem faultyExec_redis {c : RedisCmd} {s s' : FaultyStore} {r : Except JsError c.Reply}
    (h : faultyExec fate (.redis c) i s = some (r, s')) :
    (s'.store = s.store ∧ ∃ err, r = .error err ∧ fate s.sent = some (.refused err)) ∨
    (s'.store = { s.store with redis := (s.store.redis.exec c).2 } ∧
      ((fate s.sent = none ∧ r = (s.store.redis.exec c).1) ∨
        ∃ err, r = .error err ∧ fate s.sent = some (.lost err))) := by
  unfold faultyExec at h
  dsimp only at h
  split at h <;> cases h
  · next hf => exact Or.inr ⟨rfl, Or.inl ⟨hf, rfl⟩⟩
  · next err hf => exact Or.inl ⟨rfl, err, rfl, hf⟩
  · next err hf => exact Or.inr ⟨rfl, Or.inr ⟨err, rfl, hf⟩⟩

/-- The primitive changes nothing that its own call relies on. -/
def Unseen : Op → Prop
  | .redis (.multiSetLpush _ _ _ _) => False
  | .redis (.rpop _) => False
  | _ => True

section
variable {s s' : Store} {log log' : List Event} {o : Op}

theorem sound_all (h : Sound s' log' ∧ ∀ t, Leaves t s log s' log') :
    Sound s' log' ∧ ∀ t, (t = a.tid → Unseen o) → Leaves t s log s' log' :=
  ⟨h.1, fun t _ => h.2 t⟩

theorem sound_others (h : Sound s' log' ∧ ∀ t, t ≠ a.tid → Leaves t s log s' log')
    (ho : ¬ Unseen o) : Sound s' log' ∧ ∀ t, (t = a.tid → Unseen o) → Leaves t s log s' log' :=
  ⟨h.1, fun t ht => h.2 t fun hta => ho (ht hta)⟩

/-- An `RPOP` was performed; where it was not answered, the list was empty. -/
theorem Sound.rpop {r : Except JsError (Option String)} (h : Sound s log) (ha : Polls a)
    (hl : ∀ j, lookup .redis s' j = lookup .redis s j)
    (hp : pending .redis s' = (pending .redis s).tail) (hi : s'.issued = s.issued)
    (hans : r = .ok (pending .redis s).head? ∨
      (∃ err, r = .error err) ∧ pending .redis s = []) :
    Sound s' (log ++ [.ran a (.redis (.rpop QUEUE_KEY)) r]) ∧
      ∀ t, (t = a.tid → Unseen (.redis (.rpop QUEUE_KEY))) →
        Leaves t s log s' (log ++ [.ran a (.redis (.rpop QUEUE_KEY)) r]) := by
  cases hq : pending .redis s with
  | nil =>
    rw [hq] at hp hans
    refine sound_all (h.quiet rfl ?_ hl (hp.trans hq.symm) hi)
    rcases hans with rfl | ⟨⟨err, rfl⟩, -⟩ <;> rfl
  | cons j rest =>
    rw [hq] at hp hans
    rcases hans with rfl | ⟨-, hempty⟩
    · exact sound_others (h.pop rfl rfl ha hl (hq.trans (by rw [hp]; rfl)) hi) id
    · cases hempty

/-- A command was performed; where an `RPOP` was not answered, the list was empty. -/
theorem Sound.command {c : RedisCmd} {r : Except JsError c.Reply}
    (h : Sound s log) (hr : Ready a s log (.redis c))
    (hans : r = (s.redis.exec c).1 ∨
      (∃ err, r = .error err) ∧ ((∃ list, c = .rpop list) → pending .redis s = [])) :
    Sound { s with redis := (s.redis.exec c).2 } (log ++ [.ran a (.redis c) r]) ∧
      ∀ t, (t = a.tid → Unseen (.redis c)) → Leaves t s log
        { s with redis := (s.redis.exec c).2 } (log ++ [.ran a (.redis c) r]) := by
  have he : exec (.redis c) default s =
      some ((s.redis.exec c).1, { s with redis := (s.redis.exec c).2 }) := rfl
  have hl := lookup_exec he .redis
  have hp := pending_exec he .redis
  cases c with
  | set key rec =>
    obtain ⟨j, old, rfl, hold, hid, hst⟩ := hr
    exact sound_all (h.set rfl rfl hold hid hst
      (fun k => (hl k).trans (by simp only [written, jobKey_inj])) hp rfl)
  | multiSetLpush key job list id =>
    obtain ⟨rfl, rfl, rfl, hown, hnone⟩ := hr
    exact sound_others (h.enqueue rfl rfl hown hnone
      (fun k => (hl k).trans (by simp only [written, jobKey_inj]))
      (hp.trans (by simp only [waiting, if_true])) rfl) id
  | rpop list =>
    obtain ⟨rfl, ha⟩ := hr
    refine h.rpop ha hl (hp.trans (by simp only [waiting, if_true])) rfl ?_
    rcases hans with rfl | ⟨herr, hempty⟩
    · exact Or.inl (rpop_fst _ _)
    · exact Or.inr ⟨herr, hempty ⟨_, rfl⟩⟩
  | _ => exact sound_all (h.quiet rfl rfl hl hp rfl)

end

/-- **Every primitive keeps the invariant**, and what the other calls rely on. -/
theorem Sound.fire {o : Op} {r : o.Answer} (h : Sound w.state.store w.log)
    (hr : Ready a w.state.store w.log o) (hs : Spared a w o)
    (hf : w.fire a o i = some (r, w')) : Sound w'.state.store w'.log ∧
      ∀ t, (t = a.tid → Unseen o) → Leaves t w.state.store w.log w'.state.store w'.log := by
  obtain ⟨s', he, rfl⟩ := World.fire_eq_some.mp hf
  cases o with
  | host o =>
    obtain ⟨⟨x, s⟩, hx, hxs⟩ := Option.map_eq_some_iff.mp he
    cases hxs
    cases o with
    | randomUUID =>
      simp only [HostOp.exec] at hx
      split_ifs at hx with hnew
      cases hx
      exact sound_all (h.issue rfl rfl hnew.2 hnew.1)
    | _ => cases hx; exact sound_all (h.quiet rfl rfl (fun _ => rfl) rfl rfl)
  | mem c => exact hr.elim
  | redis c =>
    rcases faultyExec_redis (i := i) he with ⟨hstore, err, rfl, -⟩ | ⟨hstore, hanswer⟩
    · refine sound_all (h.quiet rfl (by cases c <;> rfl) (fun j => ?_) ?_ ?_) <;> rw [hstore]
    · rw [hstore]
      refine h.command hr ?_
      rcases hanswer with ⟨-, hok⟩ | ⟨err, herr, hlost⟩
      · exact Or.inl hok
      · refine Or.inr ⟨⟨err, herr⟩, ?_⟩
        rintro ⟨list, rfl⟩
        have hspared := hs hr.2
        rw [hlost] at hspared
        exact hspared.2

end

end CodeHive.Api.Faults
