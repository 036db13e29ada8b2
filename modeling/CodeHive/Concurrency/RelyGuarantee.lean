import CodeHive.Concurrency.Pool

/-! # Reasoning about one call at a time

A `Spec` states what every call may take for granted and has to keep: an invariant of the world at
the points where calls are suspended and after every primitive, what the other calls may do to the
world meanwhile (`rely`), what a call may perform (`guar`), and what holds when it settles (`post`).
`Safe` is the proof obligation of a single call, by recursion over what is left of it. If every
call that can arrive is safe, all this holds in every reachable configuration (`Reaches.ok`); and
if the primitives are never stuck, every call can be run to its end (`Ok.finish`). -/

namespace CodeHive.Concurrency.RelyGuarantee

set_option autoImplicit false

open CodeHive.Concurrency.Calls CodeHive.Concurrency.Pool CodeHive.Lists.Slots

variable {S : Sig} {τ ρ : Type}

/-- The call has not done anything yet. -/
structure New {M : Machine S} (a : Actor τ) (w : World M τ) : Prop where
  born : a.born = w.log.length
  tid : ∀ e ∈ w.log, e.actor.tid ≠ a.tid

/-- **What the calls of a system take for granted and keep.** -/
structure Spec (sys : System S τ ρ) where
  /-- Runs are considered whose primitives are performed only in such worlds. -/
  assume : Actor τ → World sys.toMachine τ → S.Op → Prop
  inv : World sys.toMachine τ → Prop
  /-- What happens to the world between two segments of call `t`. -/
  rely : ℕ → World sys.toMachine τ → World sys.toMachine τ → Prop
  /-- What a call may perform. -/
  guar : Actor τ → World sys.toMachine τ → S.Op → Prop
  /-- What holds when a call has settled. -/
  post : Actor τ → ρ → World sys.toMachine τ → Prop
  rely_refl : ∀ t w, rely t w w
  rely_trans : ∀ t w₁ w₂ w₃, rely t w₁ w₂ → rely t w₂ w₃ → rely t w₁ w₃
  start : ∀ w b, inv w → New b w → inv (w.start b) ∧ ∀ t, rely t w (w.start b)

variable {sys : System S τ ρ}

/-- **What is left of a call keeps the specification**, from the world `w` on. -/
def Safe (sp : Spec sys) : Thread S τ ρ → Actor τ → World sys.toMachine τ → Prop
  | .done r, a, w => ∀ w', sp.rely a.tid w w' → sp.inv w' → sp.post a r w'
  | .op o k, a, w => sp.guar a w o ∧ ∀ i r w', sp.assume a w o → w.fire a o i = some (r, w') →
      sp.inv w' ∧ (∀ t, t ≠ a.tid → sp.rely t w w') ∧ Safe sp (k r) a w'
  | .yield p, a, w => ∀ w', sp.rely a.tid w w' → sp.inv w' → Safe sp p a w'
  | .fork tag child p, a, w => ∀ b, New b w → b.tag = tag →
      (∀ w', sp.rely b.tid (w.start b) w' → sp.inv w' → Safe sp child b w') ∧ Safe sp p a (w.start b)

section rules
variable {sp : Spec sys} {a : Actor τ} {w : World sys.toMachine τ}

@[simp] theorem safe_done {r : ρ} : Safe sp (.done r) a w ↔
    ∀ w', sp.rely a.tid w w' → sp.inv w' → sp.post a r w' := Iff.rfl

@[simp] theorem safe_yield {p : Thread S τ ρ} : Safe sp (.yield p) a w ↔
    ∀ w', sp.rely a.tid w w' → sp.inv w' → Safe sp p a w' := Iff.rfl

theorem safe_op {o : S.Op} {k : S.Ret o → Thread S τ ρ} : Safe sp (.op o k) a w ↔
    sp.guar a w o ∧ ∀ i r w', sp.assume a w o → w.fire a o i = some (r, w') →
      sp.inv w' ∧ (∀ t, t ≠ a.tid → sp.rely t w w') ∧ Safe sp (k r) a w' := Iff.rfl

theorem safe_fork {tag : τ} {child p : Thread S τ ρ} : Safe sp (.fork tag child p) a w ↔
    ∀ b, New b w → b.tag = tag →
      Safe sp (.yield child) b (w.start b) ∧ Safe sp p a (w.start b) := Iff.rfl

/-- A suspended call does not notice what it relies on. -/
theorem Safe.mono {p : Thread S τ ρ} {w' : World sys.toMachine τ} (h : Safe sp p a w)
    (hp : p.Suspended) (hr : sp.rely a.tid w w') : Safe sp p a w' := by
  cases p with
  | done r => exact fun w'' h'' hi => h w'' (sp.rely_trans _ _ _ _ hr h'') hi
  | yield p => exact fun w'' h'' hi => h w'' (sp.rely_trans _ _ _ _ hr h'') hi
  | op o k => exact hp.elim
  | fork tag child p => exact hp.elim

end rules

/-! ### From single calls to the pool -/

/-- **The pool keeps the specification**: the invariant holds, every call is safe, and the calls
that are not running are suspended. -/
structure Ok (sp : Spec sys) (c : Config sys) : Prop where
  wf : Wf c
  inv : sp.inv c.world
  safe : ∀ (t : ℕ) (a : Actor τ) (p : Thread S τ ρ), c.pool[t]? = some (a, p) → Safe sp p a c.world
  idle : ∀ (t : ℕ) (a : Actor τ) (p : Thread S τ ρ), c.pool[t]? = some (a, p) →
    c.running ≠ some t → p.Suspended

/-- The calls that arrive from outside are safe. -/
def Entries (sp : Spec sys) : Prop :=
  ∀ tag p, sys.entry tag = some p → ∀ b w, b.tag = tag → sp.inv w → New b w →
    Safe sp (.yield p) b (w.start b)

variable {sp : Spec sys} {c c' : Config sys}

theorem Ok.init {s : sys.State} (h : sp.inv ⟨s, []⟩) : Ok sp (Config.init sys s) where
  wf := .init s
  inv := h
  safe := by simp [Config.init]
  idle := by simp [Config.init]

theorem New.fresh (h : Wf c) (tag : τ) : New (c.fresh tag) c.world where
  born := rfl
  tid := by
    intro e he heq
    obtain ⟨p, hp⟩ := h.log e he
    have := (List.getElem?_eq_some_iff.mp hp).1
    rw [heq] at this
    exact absurd this (Nat.lt_irrefl _)

/-- The calls that are not running are still safe in a later world. -/
theorem Ok.others (h : Ok sp c) {w : World sys.toMachine τ} {t : ℕ}
    (hrun : c.running = some t ∨ c.running = none) (hrely : ∀ u, u ≠ t → sp.rely u c.world w)
    {u : ℕ} {a : Actor τ} {p : Thread S τ ρ} (hu : c.pool[u]? = some (a, p)) (hne : u ≠ t) :
    Safe sp p a w ∧ p.Suspended := by
  have hs : p.Suspended := by
    refine h.idle u a p hu fun hr => ?_
    rcases hrun with hr' | hr' <;> rw [hr'] at hr
    · exact hne (Option.some.inj hr).symm
    · cases hr
  refine ⟨(h.safe u a p hu).mono hs ?_, hs⟩
  rw [h.wf.tid u a p hu]
  exact hrely u hne

/-- Call `t` goes on with `q`; the others are as in `Ok.others`. -/
theorem Ok.set (h : Ok sp c) {w : World sys.toMachine τ} {t : ℕ}
    (hrun : c.running = some t ∨ c.running = none) (hrely : ∀ u, u ≠ t → sp.rely u c.world w)
    {a : Actor τ} {q : Thread S τ ρ} (hq : Safe sp q a w) (u : ℕ) (b : Actor τ) (r : Thread S τ ρ)
    (hu : (c.pool.set t (a, q))[u]? = some (b, r)) :
    Safe sp r b w ∧ (some t ≠ some u → r.Suspended) := by
  rcases getElem?_set_cases hu with ⟨hut, hu⟩ | ⟨rfl, he⟩
  · obtain ⟨hsafe, hsus⟩ := h.others hrun hrely hu hut
    exact ⟨hsafe, fun _ => hsus⟩
  · cases he
    exact ⟨hq, fun hne => absurd rfl hne⟩

/-- **One step keeps the specification.** -/
theorem Ok.step (hent : Entries sp) (h : Ok sp c) {l : Label τ sys.Input}
    (hl : Allowed sp.assume c l) (hs : c.step l = some c') : Ok sp c' := by
  have hwf := h.wf.step hs
  cases stepped_of_step hs with
  | @arrive tag p hrun hp =>
    have hst := sp.start _ _ h.inv (.fresh h.wf tag)
    refine ⟨hwf, hst.1, fun u a q hu => ?_, fun u a q hu _ => ?_⟩
    · rcases getElem?_concat_cases hu with hu | ⟨-, he⟩
      · exact (h.others (t := u + 1) (Or.inr hrun) (fun v _ => hst.2 v) hu (by omega)).1
      · cases he; exact hent tag p hp _ _ rfl h.inv (.fresh h.wf tag)
    · rcases getElem?_concat_cases hu with hu | ⟨-, he⟩
      · exact h.idle u a q hu (by rw [hrun]; nofun)
      · cases he; trivial
  | @resume t a p hrun hp =>
    have hset := h.set (t := t) (Or.inr hrun) (fun v _ => sp.rely_refl v c.world)
      (safe_yield.mp (h.safe t a _ hp) _ (sp.rely_refl _ _) h.inv)
    exact ⟨hwf, h.inv, fun u b q hu => (hset u b q hu).1, fun u b q hu => (hset u b q hu).2⟩
  | @op t a o k i r w hrun hp hf =>
    obtain ⟨hi, hr, hk⟩ := (safe_op.mp (h.safe t a _ hp)).2 i r w (hl t a o k i rfl hrun hp) hf
    rw [h.wf.tid t a _ hp] at hr
    have hset := h.set (Or.inl hrun) hr hk
    exact ⟨hwf, hi, fun u b q hu => (hset u b q hu).1, fun u b q hu => (hset u b q hu).2⟩
  | @fork t a tag child p i hrun hp =>
    have hst := sp.start _ _ h.inv (.fresh h.wf tag)
    obtain ⟨hchild, hcont⟩ := safe_fork.mp (h.safe t a _ hp) _ (.fresh h.wf tag) rfl
    have hset := h.set (Or.inl hrun) (fun v _ => hst.2 v) hcont
    refine ⟨hwf, hst.1, fun u b q hu => ?_, fun u b q hu hne => ?_⟩
    · rcases getElem?_concat_cases hu with hu | ⟨-, he⟩
      · exact (hset u b q hu).1
      · cases he; exact hchild
    · rcases getElem?_concat_cases hu with hu | ⟨-, he⟩
      · exact (hset u b q hu).2 hne
      · cases he; trivial
  | @pause t a p i hrun hp hsus =>
    refine ⟨hwf, h.inv, h.safe, fun u b q hu _ => ?_⟩
    by_cases hut : u = t
    · subst hut
      rw [hp, Option.some.injEq, Prod.mk.injEq] at hu
      exact hu.2 ▸ hsus
    · exact h.idle u b q hu (by rw [hrun]; simpa using fun he => hut he.symm)

/-- **Soundness**: in every configuration reached by steps that meet the assumption, the pool keeps
the specification. -/
theorem Ok.reaches (hent : Entries sp) (h : Ok sp c) (hr : Reaches (Allowed sp.assume) c c') :
    Ok sp c' := by
  induction hr with
  | refl => exact h
  | step _ hG hs ih => exact ih.step hent hG hs

theorem Ok.post (h : Ok sp c) {t : ℕ} {a : Actor τ} {r : ρ} (ht : c.pool[t]? = some (a, .done r)) :
    sp.post a r c.world :=
  safe_done.mp (h.safe t a _ ht) _ (sp.rely_refl _ _) h.inv

theorem Ok.guar (h : Ok sp c) {t : ℕ} {a : Actor τ} {o : S.Op} {k : S.Ret o → Thread S τ ρ}
    (ht : c.pool[t]? = some (a, .op o k)) : sp.guar a c.world o := (safe_op.mp (h.safe t a _ ht)).1

/-- **A property of the world that the primitives keep**, of those a call may perform at all
the ones that are allowed. -/
theorem Ok.keeps (hent : Entries sp) (h : Ok sp c) {J : World sys.toMachine τ → Prop}
    {g : Actor τ → World sys.toMachine τ → S.Op → Prop} (hg : ∀ a w o, g a w o → sp.assume a w o)
    (hJ : J c.world) (hstart : ∀ w a, J w → J (w.start a))
    (hop : ∀ a w o i r w', sp.inv w → sp.guar a w o → g a w o → J w →
      w.fire a o i = some (r, w') → J w')
    (hr : Reaches (Allowed g) c c') : J c'.world := by
  induction hr with
  | refl => exact hJ
  | @step c₁ c₂ l hr hG hs ih =>
    have h₁ : Ok sp c₁ := h.reaches hent (hr.mono fun c l hl t a o k i hli hrun hp =>
      hg a c.world o (hl t a o k i hli hrun hp))
    cases stepped_of_step hs with
    | arrive hrun hp => exact hstart _ _ ih
    | resume hrun hp => exact ih
    | @op t a o k i r w hrun hp hf =>
      exact hop a c₁.world o i r w h₁.inv (h₁.guar hp) (hG t a o k i rfl hrun hp) ih hf
    | fork hrun hp => exact hstart _ _ ih
    | pause hrun hp hs => exact ih

/-! ### Running a call to its end -/

/-- What is guaranteed and assumed of a primitive lets it answer. -/
def Enabled (sp : Spec sys) : Prop :=
  ∀ a w o, sp.inv w → sp.guar a w o → sp.assume a w o ∧ ∃ i, (w.fire a o i).isSome

section finish
variable [Inhabited sys.Input]

omit [Inhabited sys.Input] in
/-- A step that performs no primitive is always allowed. -/
theorem allowed_of_ne {g : Actor τ → World sys.toMachine τ → S.Op → Prop} {t : ℕ} {a : Actor τ}
    {p : Thread S τ ρ} {l : Label τ sys.Input} (hrun : c.running = some t)
    (hp : c.pool[t]? = some (a, p)) (hne : ∀ o k, p ≠ .op o k) : Allowed g c l := by
  rintro u b o k i rfl hu hb
  rw [hrun, Option.some.injEq] at hu
  subst hu
  rw [hp, Option.some.injEq, Prod.mk.injEq] at hb
  exact absurd hb.2 (hne o k)

omit [Inhabited sys.Input] in
theorem allowed_resume {g : Actor τ → World sys.toMachine τ → S.Op → Prop} (c : Config sys)
    (t : ℕ) : Allowed g c (.resume t) := by
  intro _ _ _ _ _ hl
  cases hl

/-- The running call is run to its end by steps of its own. -/
theorem Ok.finish_running (hent : Entries sp) (hen : Enabled sp) (p : Thread S τ ρ)
    {c : Config sys} {t : ℕ} {a : Actor τ} (h : Ok sp c) (hrun : c.running = some t)
    (hp : c.pool[t]? = some (a, p)) :
    ∃ c' r, Reaches (Allowed sp.assume) c c' ∧ c'.running = none ∧
      c'.pool[t]? = some (a, .done r) := by
  induction p generalizing c with
  | done r =>
    have hG : Allowed sp.assume c (.next default) :=
      allowed_of_ne hrun hp fun _ _ hne => by cases hne
    have hs := (Stepped.pause (i := default) hrun hp trivial).step
    exact ⟨{ c with running := none }, r, .step .refl hG hs, rfl, hp⟩
  | op o k ih =>
    have hlt := (List.getElem?_eq_some_iff.mp hp).1
    obtain ⟨hass, i, hi⟩ := hen a c.world o h.inv (h.guar hp)
    obtain ⟨⟨r, w⟩, hf⟩ := Option.isSome_iff_exists.mp hi
    have hs := (Stepped.op hrun hp hf).step
    have hG : Allowed sp.assume c (.next i) := by
      rintro u b o' k' j - hu hb
      rw [hrun, Option.some.injEq] at hu
      subst hu
      rw [hp, Option.some.injEq, Prod.mk.injEq] at hb
      obtain ⟨rfl, hb⟩ := hb
      cases hb
      exact hass
    obtain ⟨c', r', hr, hnone, hdone⟩ := ih r (h.step hent hG hs) rfl (List.getElem?_set_self hlt)
    exact ⟨c', r', (Reaches.step .refl hG hs).trans hr, hnone, hdone⟩
  | yield p ih =>
    have hlt := (List.getElem?_eq_some_iff.mp hp).1
    have hs := (Stepped.pause (i := default) hrun hp trivial).step
    have hG : Allowed sp.assume c (.next default) :=
      allowed_of_ne hrun hp fun _ _ hne => by cases hne
    have hs' := (Stepped.resume (c := { c with running := none }) rfl hp).step
    have hG' := allowed_resume (g := sp.assume) { c with running := none } t
    obtain ⟨c', r', hr, hnone, hdone⟩ := ih ((h.step hent hG hs).step hent hG' hs') rfl
      (List.getElem?_set_self hlt)
    exact ⟨c', r', (Reaches.step (.step .refl hG hs) hG' hs').trans hr, hnone, hdone⟩
  | fork tag child p _ ih =>
    have hs := (Stepped.fork (i := default) hrun hp).step
    have hG : Allowed sp.assume c (.next default) :=
      allowed_of_ne hrun hp fun _ _ hne => by cases hne
    obtain ⟨c', r', hr, hnone, hdone⟩ := ih (h.step hent hG hs) rfl (getElem?_set_concat hp)
    exact ⟨c', r', (Reaches.step .refl hG hs).trans hr, hnone, hdone⟩

/-- The call that holds the loop, if any, gives it back. -/
theorem Ok.release (hent : Entries sp) (hen : Enabled sp) (h : Ok sp c) :
    ∃ c', Reaches (Allowed sp.assume) c c' ∧ c'.running = none := by
  cases hrun : c.running with
  | none => exact ⟨c, .refl, hrun⟩
  | some t =>
    have hlt := h.wf.running t hrun
    obtain ⟨c', r, hr, hnone, -⟩ := Ok.finish_running hent hen c.pool[t].2 h hrun
      (a := c.pool[t].1) (List.getElem?_eq_getElem hlt)
    exact ⟨c', hr, hnone⟩

/-- **No call is ever stuck**: every call can be run to its end. -/
theorem Ok.finish (hent : Entries sp) (hen : Enabled sp) (h : Ok sp c) {t : ℕ} {a : Actor τ}
    {p : Thread S τ ρ} (hp : c.pool[t]? = some (a, p)) :
    ∃ c' r, Reaches (Allowed sp.assume) c c' ∧ c'.running = none ∧
      c'.pool[t]? = some (a, .done r) := by
  obtain ⟨c₁, hr₁, hrun⟩ := h.release hent hen
  obtain ⟨p₁, hp₁⟩ := hr₁.extends.pool t a p hp
  have h₁ := h.reaches hent hr₁
  have hsus := h₁.idle t a p₁ hp₁ (by rw [hrun]; simp)
  cases p₁ with
  | done r => exact ⟨c₁, r, hr₁, hrun, hp₁⟩
  | yield q =>
    have hs := (Stepped.resume hrun hp₁).step
    have hG := allowed_resume (g := sp.assume) c₁ t
    obtain ⟨c', r, hr, hnone, hdone⟩ := Ok.finish_running hent hen q (h₁.step hent hG hs) rfl
      (List.getElem?_set_self (List.getElem?_eq_some_iff.mp hp₁).1)
    exact ⟨c', r, hr₁.trans ((Reaches.step .refl hG hs).trans hr), hnone, hdone⟩
  | op o k => exact hsus.elim
  | fork tag child p => exact hsus.elim

end finish

end CodeHive.Concurrency.RelyGuarantee
