import CodeHive.Concurrency.RelyGuarantee

/-! # Triples

`Triple sp a P p Q E` says that the part `p` of call `a` keeps the specification from every world in
which `P` holds, and what it leaves: `Q` with a value, `E` with an error. An assertion that is
carried over an `await` has to be stable under what the other calls do. -/

namespace CodeHive.Concurrency.Triples

set_option autoImplicit false

open CodeHive.Concurrency.Calls CodeHive.Concurrency.Pool CodeHive.Concurrency.RelyGuarantee

variable {S : Sig} {τ ρ ε α β : Type} {sys : System S τ ρ}

/-- **The calls of a system that rely on a view of the world**: nothing that a call can see there
changes while it is suspended. What they may perform is not restricted. -/
def viewSpec {ν : Type} (assume : Actor τ → World sys.toMachine τ → S.Op → Prop)
    (inv : World sys.toMachine τ → Prop) (view : ℕ → World sys.toMachine τ → ν)
    (post : Actor τ → ρ → World sys.toMachine τ → Prop)
    (hstart : ∀ w b, inv w → inv (w.start b) ∧ ∀ t, view t (w.start b) = view t w) : Spec sys where
  assume := assume
  inv := inv
  rely t w w' := view t w' = view t w
  guar _ _ _ := True
  post := post
  rely_refl _ _ := rfl
  rely_trans _ _ _ _ h₁ h₂ := h₂.trans h₁
  start w b h _ := hstart w b h

variable {sp : Spec sys} {a : Actor τ}

/-- A call that detaches nothing and of which nothing is asked at its end, where the primitives keep
the invariant and what the others rely on. -/
theorem safe_of_single {p : Thread S τ ρ} (hp : p.Single) (hguar : ∀ w o, sp.guar a w o)
    (hop : ∀ w o i r w', sp.inv w → sp.assume a w o → w.fire a o i = some (r, w') →
      sp.inv w' ∧ ∀ t, t ≠ a.tid → sp.rely t w w')
    (hpost : ∀ r w, sp.post a r w) {w : World sys.toMachine τ} (hw : sp.inv w) :
    Safe sp p a w := by
  induction p generalizing w with
  | done r => exact fun w' _ _ => hpost r w'
  | op o k ih =>
    refine ⟨hguar w o, fun i r w' has hf => ?_⟩
    obtain ⟨hi, hr⟩ := hop w o i r w' hw has hf
    exact ⟨hi, hr, ih r (hp r) hi⟩
  | yield p ih => exact fun w' _ hw' => ih hp hw'
  | fork tag child p => exact hp.elim

/-- **A part of call `a`**, what holds before it, and what holds when it has a value or an error. -/
def Triple (sp : Spec sys) (a : Actor τ) (P : World sys.toMachine τ → Prop)
    (p : Async S τ ρ ε α) (Q : α → World sys.toMachine τ → Prop)
    (E : ε → World sys.toMachine τ → Prop) : Prop :=
  ∀ k e w, sp.inv w → P w → (∀ x w', sp.inv w' → Q x w' → Safe sp (k x) a w') →
    (∀ err w', sp.inv w' → E err w' → Safe sp (e err) a w') → Safe sp (p k e) a w

/-- An assertion that the other calls keep. -/
def Stable (sp : Spec sys) (a : Actor τ) (P : World sys.toMachine τ → Prop) : Prop :=
  ∀ w w', P w → sp.rely a.tid w w' → sp.inv w' → P w'

section
variable {P P' : World sys.toMachine τ → Prop} {Q Q' : α → World sys.toMachine τ → Prop}
  {E E' : ε → World sys.toMachine τ → Prop} {p : Async S τ ρ ε α}

theorem Triple.conseq (h : Triple sp a P p Q E) (hP : ∀ w, sp.inv w → P' w → P w)
    (hQ : ∀ x w, Q x w → Q' x w) (hE : ∀ err w, E err w → E' err w) :
    Triple sp a P' p Q' E' := by
  intro k e w hi hw hk he
  refine h k e w hi (hP w hi hw) (fun x w' hi' hq => ?_) fun err w' hi' hq => ?_
  · exact hk x w' hi' (hQ x w' hq)
  · exact he err w' hi' (hE err w' hq)

/-- A part that does not throw. -/
theorem Triple.never_throws (h : Triple sp a P p Q fun _ _ => False) : Triple sp a P p Q E :=
  h.conseq (fun _ _ hw => hw) (fun _ _ hw => hw) fun _ _ hw => hw.elim

/-- What the precondition says apart from the world. -/
theorem Triple.of_pre {C : Prop} (hC : ∀ w, P w → C) (h : C → Triple sp a P p Q E) :
    Triple sp a P p Q E := by
  intro k e w hi hw
  exact h (hC w hw) k e w hi hw

theorem triple_pure {x : α} (h : ∀ w, P w → Q x w) :
    Triple sp a P (pure x : Async S τ ρ ε α) Q E := by
  intro k e w hi hw hk _
  exact hk x w hi (h w hw)

theorem triple_settle {r : Except ε α} (hQ : ∀ x w, r = .ok x → P w → Q x w)
    (hE : ∀ err w, r = .error err → P w → E err w) :
    Triple sp a P (settle r : Async S τ ρ ε α) Q E := by
  intro k e w hi hw hk he
  cases r with
  | error err => exact he err w hi (hE err w rfl hw)
  | ok x => exact hk x w hi (hQ x w rfl hw)

/-- A primitive. -/
theorem triple_call {o : S.Op} {Q : S.Ret o → World sys.toMachine τ → Prop}
    (h : ∀ w, sp.inv w → P w → sp.guar a w o ∧ ∀ i r w', sp.assume a w o →
      w.fire a o i = some (r, w') → sp.inv w' ∧ (∀ t, t ≠ a.tid → sp.rely t w w') ∧ Q r w') :
    Triple sp a P (call o : Async S τ ρ ε (S.Ret o)) Q E := by
  intro k e w hi hw hk _
  obtain ⟨hg, hf⟩ := h w hi hw
  refine ⟨hg, fun i r w' has hfire => ?_⟩
  obtain ⟨hi', hr, hq⟩ := hf i r w' has hfire
  exact ⟨hi', hr, hk r w' hi' hq⟩

theorem Triple.bind {f : α → Async S τ ρ ε β} {R : β → World sys.toMachine τ → Prop}
    (hp : Triple sp a P p Q E) (hf : ∀ x, Triple sp a (Q x) (f x) R E) :
    Triple sp a P (p >>= f) R E := by
  intro k e w hi hw hk he
  refine hp _ e w hi hw (fun x w' hi' hq => ?_) he
  exact hf x k e w' hi' hq hk he

theorem Triple.tryCatch {h : ε → Async S τ ρ ε α} (hp : Triple sp a P p Q E)
    (hh : ∀ err, Triple sp a (E err) (h err) Q E') : Triple sp a P (tryCatch p h) Q E' := by
  intro k e w hi hw hk he
  refine hp k _ w hi hw hk fun err w' hi' hq => ?_
  exact hh err k e w' hi' hq hk he

theorem Triple.tryFinally {fin : Async S τ ρ ε Unit} (hp : Triple sp a P p Q E)
    (hok : ∀ x, Triple sp a (Q x) fin (fun _ => Q' x) E')
    (herr : ∀ err, Triple sp a (E err) fin (fun _ => E' err) E') :
    Triple sp a P (tryFinally p fin) Q' E' := by
  intro k e w hi hw hk he
  refine hp _ _ w hi hw (fun x w' hi' hq => ?_) fun err w' hi' hq => ?_
  · exact hok x _ e w' hi' hq (fun _ w'' hi'' hq' => hk x w'' hi'' hq') he
  · exact herr err _ e w' hi' hq (fun _ w'' hi'' hq' => he err w'' hi'' hq') he

/-- The assertions are carried over the `await`. -/
theorem Triple.await (hp : Triple sp a P p Q E) (hQ : ∀ x, Stable sp a (Q x))
    (hE : ∀ err, Stable sp a (E err)) : Triple sp a P (await p) Q E := by
  intro k e w hi hw hk he
  refine hp _ _ w hi hw (fun x w' _ hq w'' hr hi'' => ?_) fun err w' _ hq w'' hr hi'' => ?_
  · exact hk x w'' hi'' (hQ x w' w'' hq hr hi'')
  · exact he err w'' hi'' (hE err w' w'' hq hr hi'')

theorem Triple.await_never_throws (hp : Triple sp a P p Q fun _ _ => False)
    (hQ : ∀ x, Stable sp a (Q x)) : Triple sp a P (Calls.await p) Q fun _ _ => False :=
  hp.await hQ fun _ _ _ h _ _ => h

theorem Triple.later (hp : Triple sp a P p Q E) (hP : Stable sp a P) :
    Triple sp a P (later p) Q E := by
  intro k e w _ hw hk he w' hr hi'
  exact hp k e w' hi' (hP w w' hw hr hi') hk he

/-- A whole call. -/
theorem Triple.toThread {fin : Except ε α → ρ} (hp : Triple sp a P p Q E)
    (hQ : ∀ x w, sp.inv w → Q x w → sp.post a (fin (.ok x)) w)
    (hE : ∀ err w, sp.inv w → E err w → sp.post a (fin (.error err)) w)
    (hQs : ∀ x, Stable sp a (Q x)) (hEs : ∀ err, Stable sp a (E err)) {w : World sys.toMachine τ}
    (hi : sp.inv w) (hw : P w) : Safe sp (p.toThread fin) a w := by
  refine hp _ _ w hi hw (fun x w' _ hq w'' hr hi'' => ?_) fun err w' _ hq w'' hr hi'' => ?_
  · exact hQ x w'' hi'' (hQs x w' w'' hq hr hi'')
  · exact hE err w'' hi'' (hEs err w' w'' hq hr hi'')

end

end CodeHive.Concurrency.Triples
