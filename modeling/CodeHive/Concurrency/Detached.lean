import CodeHive.Concurrency.Calls

/-! # Calls that detach one call

`Once` says of a call that it detaches one call at most. Parts of an `async` function either detach
nothing and leave the bound to what comes after them (`Keeps`), or they may use it up, and then
nothing after them detaches a call (`Spends`). -/

namespace CodeHive.Concurrency.Detached

set_option autoImplicit false

open CodeHive.Concurrency.Calls

section
variable {S : Sig} {τ ρ ε α β : Type}

/-- **At most one call is detached** in what is left of this one, and that one detaches none. -/
def Once : Thread S τ ρ → Prop
  | .done _ => True
  | .op _ k => ∀ r, Once (k r)
  | .yield p => Once p
  | .fork _ child p => child.Single ∧ p.Single

theorem once_of_single {p : Thread S τ ρ} (h : p.Single) : Once p := by
  induction p with
  | done r => trivial
  | op o k ih => exact fun r => ih r (h r)
  | yield p ih => exact ih h
  | fork tag child p => exact h.elim

/-- What a call detaches, it detaches once. -/
theorem once_detach {tag : τ} {p q : Thread S τ ρ} (hp : p.Single) (hq : q.Single) :
    Once (p.detach tag q) := by
  induction p with
  | done r => exact once_of_single hq
  | op o k ih => exact fun r => ih r (hp r)
  | yield p ih => exact ⟨hp, hq⟩
  | fork tag' child p => exact hp.elim

/-- The computation detaches no call, whatever follows. -/
def Keeps (p : Async S τ ρ ε α) : Prop :=
  ∀ k e, (∀ x, Once (k x)) → (∀ err, Once (e err)) → Once (p k e)

/-- The computation may detach a call, if nothing that follows does. -/
def Spends (p : Async S τ ρ ε α) : Prop :=
  ∀ k e, (∀ x, (k x).Single) → (∀ err, (e err).Single) → Once (p k e)

variable {p : Async S τ ρ ε α} {f : α → Async S τ ρ ε β}

theorem keeps_pure (x : α) : Keeps (pure x : Async S τ ρ ε α) := fun _ _ hk _ => hk x

theorem keeps_call (o : S.Op) : Keeps (call o : Async S τ ρ ε (S.Ret o)) := fun _ _ hk _ => hk

theorem keeps_settle (r : Except ε α) : Keeps (settle r : Async S τ ρ ε α) := by
  intro k e hk he
  cases r with
  | error err => exact he err
  | ok x => exact hk x

theorem Keeps.bind (hp : Keeps p) (hf : ∀ x, Keeps (f x)) : Keeps (p >>= f) := by
  intro k e hk he
  exact hp _ e (fun x => hf x k e hk he) he

theorem Keeps.await (hp : Keeps p) : Keeps (await p) := by
  intro k e hk he
  exact hp _ _ hk he

theorem Keeps.later (hp : Keeps p) : Keeps (later p) := fun k e => hp k e

/-- First what detaches nothing, then what may. -/
theorem Keeps.then (hp : Keeps p) (hf : ∀ x, Spends (f x)) : Spends (p >>= f) := by
  intro k e hk he
  exact hp _ e (fun x => hf x k e hk he) fun err => once_of_single (he err)

theorem Spends.of_single (hp : p.Single) : Spends p := by
  intro k e hk he
  exact once_of_single (hp k e hk he)

theorem Spends.bind (hp : Spends p) (hf : ∀ x, (f x).Single) : Spends (p >>= f) := by
  intro k e hk he
  exact hp _ e (fun x => hf x k e hk he) he

theorem Spends.tryCatch {h : ε → Async S τ ρ ε α} (hp : Spends p) (hh : ∀ err, (h err).Single) :
    Spends (tryCatch p h) := by
  intro k e hk he
  exact hp k _ hk fun err => hh err k e hk he

theorem spends_detach (tag : τ) (hp : p.Single) (fin : Except ε α → ρ) :
    Spends (detach tag p fin : Async S τ ρ ε Unit) := by
  intro k e hk _
  exact once_detach (hp.toThread fin) (hk ())

theorem Spends.toThread (hp : Spends p) (fin : Except ε α → ρ) : Once (p.toThread fin) :=
  hp _ _ (fun _ => trivial) fun _ => trivial

end

end CodeHive.Concurrency.Detached
