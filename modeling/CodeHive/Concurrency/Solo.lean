import CodeHive.Concurrency.Pool

/-! # One call at a time

A call that is left alone runs to its end as an ordinary sequential program: its primitives follow
one another, and giving up the loop changes nothing (`Thread.alone`). What it computes is what it
computes in the pool, if it is the only one that is resumed (`alone_arrives`); a call that detaches
others may go ahead of them (`ahead_arrives`). A sequential client makes a list of calls; an
abstract machine that every single call refines is refined by the list (`session_refines`). -/

namespace CodeHive.Concurrency.Solo

set_option autoImplicit false

open CodeHive.Concurrency.Calls CodeHive.Concurrency.Pool

section
variable {S : Sig} {τ ρ : Type}

/-- **A call that runs alone.** `env` is what the environment answers to each primitive; a call that
detaches another one is not alone. -/
def alone {M : Machine S} (env : S.Op → M.Input) : Thread S τ ρ → M.State → Option (ρ × M.State)
  | .done r, s => some (r, s)
  | .op o k, s => (M.exec o (env o) s).bind fun x => alone env (k x.1) x.2
  | .yield p, s => alone env p s
  | .fork _ _ _, _ => none

/-- **A call that goes ahead of the others**: those that it detaches wait until it is through. -/
def ahead {M : Machine S} (env : S.Op → M.Input) : Thread S τ ρ → M.State → Option (ρ × M.State)
  | .done r, s => some (r, s)
  | .op o k, s => (M.exec o (env o) s).bind fun x => ahead env (k x.1) x.2
  | .yield p, s => ahead env p s
  | .fork _ _ p, s => ahead env p s

section
variable {M : Machine S} {env : S.Op → M.Input} {s : M.State}

@[simp] theorem alone_done {r : ρ} :
    alone env (.done r : Thread S τ ρ) s = some (r, s) := rfl

theorem alone_op {o : S.Op} {k : S.Ret o → Thread S τ ρ} {r : S.Ret o} {s' : M.State}
    (h : M.exec o (env o) s = some (r, s')) : alone env (.op o k) s = alone env (k r) s' := by
  simp only [alone, h, Option.bind_some]

theorem ahead_yield {p : Thread S τ ρ} : ahead env (.yield p) s = ahead env p s := rfl

theorem ahead_op {o : S.Op} {k : S.Ret o → Thread S τ ρ} {r : S.Ret o} {s' : M.State}
    (h : M.exec o (env o) s = some (r, s')) : ahead env (.op o k) s = ahead env (k r) s' := by
  simp only [ahead, h, Option.bind_some]

/-- A call that is alone is ahead of no others. -/
theorem ahead_of_alone {p : Thread S τ ρ} {x : ρ × M.State} (h : alone env p s = some x) :
    ahead env p s = some x := by
  induction p generalizing s with
  | done r => exact h
  | op o k ih =>
    obtain ⟨y, hy, hk⟩ := Option.bind_eq_some_iff.mp h
    exact (ahead_op hy).trans (ih y.1 hk)
  | yield p ih => exact ih h
  | fork tag child p => cases h

end

/-- **A computation that runs alone** from `s` settles to `r` and leaves `s'`. -/
def Settles {M : Machine S} {ε α : Type} (env : S.Op → M.Input) (p : Async S τ ρ ε α) (s : M.State)
    (r : Except ε α) (s' : M.State) : Prop :=
  ∀ k e, alone env (p k e) s = alone env (settle r k e) s'

section
variable {M : Machine S} {ε α β : Type} {env : S.Op → M.Input} {p : Async S τ ρ ε α}
  {f : α → Async S τ ρ ε β} {s s' s'' : M.State} {a : α} {err : ε}

theorem Settles.pure (env : S.Op → M.Input) (a : α) (s : M.State) :
    Settles env (pure a : Async S τ ρ ε α) s (.ok a) s := fun _ _ => rfl

theorem Settles.settle (env : S.Op → M.Input) (r : Except ε α) (s : M.State) :
    Settles env (settle r : Async S τ ρ ε α) s r s := fun _ _ => rfl

theorem Settles.call {o : S.Op} {r : S.Ret o} (h : M.exec o (env o) s = some (r, s')) :
    Settles env (call o : Async S τ ρ ε (S.Ret o)) s (.ok r) s' := fun _ _ => alone_op h

theorem Settles.bind {r : Except ε β} (hp : Settles env p s (.ok a) s')
    (hf : Settles env (f a) s' r s'') : Settles env (p >>= f) s r s'' := by
  intro k e
  exact (hp _ e).trans (hf k e)

theorem Settles.bind_error (hp : Settles env p s (.error err) s') :
    Settles env (p >>= f) s (.error err) s' := fun k e => hp (fun a => f a k e) e

theorem Settles.await {r : Except ε α} (hp : Settles env p s r s') :
    Settles env (await p) s r s' := by
  intro k e
  rw [await_apply, hp]
  cases r <;> rfl

theorem Settles.later {r : Except ε α} (hp : Settles env p s r s') :
    Settles env (later p) s r s' := fun k e => hp k e

theorem Settles.tryCatch_error {h : ε → Async S τ ρ ε α} {r : Except ε α}
    (hp : Settles env p s (.error err) s') (hh : Settles env (h err) s' r s'') :
    Settles env (tryCatch p h) s r s'' := by
  intro k e
  exact (hp k fun err => h err k e).trans (hh k e)

theorem Settles.tryCatch {h : ε → Async S τ ρ ε α} (hp : Settles env p s (.ok a) s') :
    Settles env (tryCatch p h) s (.ok a) s' := fun k e => hp k fun err => h err k e

theorem Settles.tryFinally {fin : Async S τ ρ ε Unit} (hp : Settles env p s (.ok a) s')
    (hfin : Settles env fin s' (.ok ()) s'') : Settles env (tryFinally p fin) s (.ok a) s'' := by
  intro k e
  exact (hp _ _).trans (hfin _ e)

/-- A whole call. -/
theorem Settles.toThread {r : Except ε α} (hp : Settles env p s r s') (fin : Except ε α → ρ) :
    alone env (p.toThread fin) s = some (fin r, s') := by
  unfold Async.toThread
  rw [hp]
  cases r <;> rfl

end

/-! ### In the pool -/

variable {sys : System S τ ρ} {env : S.Op → sys.Input}

/-- **A call that is running and goes ahead** comes to the end that it has on its own. -/
theorem ahead_reaches [Inhabited sys.Input] {p : Thread S τ ρ} {c : Config sys} {t : ℕ}
    {a : Actor τ} {r : ρ} {s : sys.State} (hrun : c.running = some t)
    (hp : c.pool[t]? = some (a, p)) (h : ahead env p c.world.state = some (r, s)) :
    ∃ c', Reaches (AnyStep sys) c c' ∧ c'.running = none ∧ c'.pool[t]? = some (a, .done r) ∧
      c'.world.state = s := by
  induction p generalizing c with
  | done r' =>
    obtain ⟨rfl, rfl⟩ : r' = r ∧ c.world.state = s := by simpa [ahead] using h
    have hs := (Stepped.pause (i := default) hrun hp trivial).step
    exact ⟨_, .step .refl trivial hs, rfl, hp, rfl⟩
  | op o k ih =>
    obtain ⟨⟨x, s'⟩, hx, hk⟩ := Option.bind_eq_some_iff.mp h
    have hs := (Stepped.op hrun hp (World.fire_eq_some.mpr ⟨s', hx, rfl⟩)).step
    obtain ⟨c', hr, hrest⟩ := ih x
      (c := ⟨⟨s', c.world.log ++ [.ran a o x]⟩, c.pool.set t (a, k x), some t⟩) rfl
      (List.getElem?_set_self (List.getElem?_eq_some_iff.mp hp).1) hk
    exact ⟨c', (Reaches.step .refl trivial hs).trans hr, hrest⟩
  | yield p ih =>
    have hs := (Stepped.pause (i := default) hrun hp trivial).step
    have hs' := (Stepped.resume (c := { c with running := none }) rfl hp).step
    obtain ⟨c', hr, hrest⟩ := ih (c := { c with pool := c.pool.set t (a, p), running := some t })
      rfl (List.getElem?_set_self (List.getElem?_eq_some_iff.mp hp).1) h
    exact ⟨c', (Reaches.step (.step .refl trivial hs) trivial hs').trans hr, hrest⟩
  | fork tag child p _ ih =>
    have hs := (Stepped.fork (i := default) hrun hp).step
    obtain ⟨c', hr, hrest⟩ := ih (c := ⟨c.world.start (c.fresh tag),
      c.pool.set t (a, p) ++ [(c.fresh tag, .yield child)], some t⟩) rfl
      (Lists.Slots.getElem?_set_concat hp) h
    exact ⟨c', (Reaches.step .refl trivial hs).trans hr, hrest⟩

/-- **A call that arrives while none is running and goes ahead.** -/
theorem ahead_arrives [Inhabited sys.Input] {p : Thread S τ ρ} {c : Config sys} {tag : τ} {r : ρ}
    {s : sys.State} (hrun : c.running = none) (htag : sys.entry tag = some p)
    (h : ahead env p c.world.state = some (r, s)) :
    ∃ c', Reaches (AnyStep sys) c c' ∧ c'.running = none ∧
      c'.pool[c.pool.length]? = some (c.fresh tag, .done r) ∧ c'.world.state = s := by
  have hs := (Stepped.arrive hrun htag).step
  have hs' : ({ c with world := c.world.start (c.fresh tag)
                       pool := c.pool ++ [(c.fresh tag, Thread.yield p)] } : Config sys).step
      (.resume c.pool.length) = some { c with
        world := c.world.start (c.fresh tag)
        pool := (c.pool ++ [(c.fresh tag, Thread.yield p)]).set c.pool.length (c.fresh tag, p)
        running := some c.pool.length } := by
    simp only [Config.step, hrun, List.getElem?_concat_length]
  obtain ⟨c', hr, hrest⟩ := ahead_reaches (c := { c with
      world := c.world.start (c.fresh tag)
      pool := (c.pool ++ [(c.fresh tag, Thread.yield p)]).set c.pool.length (c.fresh tag, p)
      running := some c.pool.length }) rfl (List.getElem?_set_self (by simp)) h
  exact ⟨c', (Reaches.step (.step .refl trivial hs) trivial hs').trans hr, hrest⟩

/-- **A call that arrives while none is running and is left alone.** -/
theorem alone_arrives [Inhabited sys.Input] {p : Thread S τ ρ} {c : Config sys} {tag : τ} {r : ρ}
    {s : sys.State} (hrun : c.running = none) (htag : sys.entry tag = some p)
    (h : alone env p c.world.state = some (r, s)) :
    ∃ c', Reaches (AnyStep sys) c c' ∧ c'.running = none ∧
      c'.pool[c.pool.length]? = some (c.fresh tag, .done r) ∧ c'.world.state = s :=
  ahead_arrives hrun htag (ahead_of_alone h)

end

/-! ### Sequences of calls -/

section
variable {ι σ σ' ο : Type}

/-- One call after the other. -/
def session (f : ι → σ → Option (ο × σ)) : List ι → σ → Option (List ο × σ)
  | [], s => some ([], s)
  | i :: is, s => (f i s).bind fun x => (session f is x.2).map fun y => (x.1 :: y.1, y.2)

/-- The same for a machine that always answers. -/
def trace (g : ι → σ' → ο × σ') : List ι → σ' → List ο × σ'
  | [], q => ([], q)
  | i :: is, q => ((g i q).1 :: (trace g is (g i q).2).1, (trace g is (g i q).2).2)

/-- **Refinement of a session by its single calls.** If on every call that `A` admits after those
made before the two machines answer alike and stay related, they do so on every session whose calls
are all admitted. -/
theorem session_refines {f : ι → σ → Option (ο × σ)} {g : ι → σ' → ο × σ'}
    {R : List ι → σ → σ' → Prop} {A : List ι → Prop}
    (hleft : ∀ is is', A (is ++ is') → A is)
    (hstep : ∀ before i s q, A (before ++ [i]) → R before s q →
      ∃ s', f i s = some ((g i q).1, s') ∧ R (before ++ [i]) s' (g i q).2) :
    ∀ (is before : List ι) (s : σ) (q : σ'), A (before ++ is) → R before s q →
      ∃ s', session f is s = some ((trace g is q).1, s') ∧ R (before ++ is) s' (trace g is q).2
  | [], before, s, _, _, hR => ⟨s, rfl, by rw [List.append_nil]; exact hR⟩
  | i :: is, before, s, q, h, hR => by
    have happ : before ++ i :: is = (before ++ [i]) ++ is := by simp
    rw [happ] at h ⊢
    obtain ⟨s₁, h₁, hR₁⟩ := hstep before i s q (hleft _ is h) hR
    obtain ⟨s₂, h₂, hR₂⟩ := session_refines hleft hstep is (before ++ [i]) s₁ _ h hR₁
    exact ⟨s₂, by simp only [session, h₁, Option.bind_some, h₂, Option.map_some, trace], hR₂⟩

end

end CodeHive.Concurrency.Solo
