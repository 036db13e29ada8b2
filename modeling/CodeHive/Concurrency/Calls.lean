import Mathlib.Logic.Function.Basic

/-! # Asynchronous calls

A call of an `async` function runs without interruption up to its next `await`, gives up the event
loop there, and is resumed later. `Thread S τ ρ` is what is left of such a call: a tree of the
primitives it still performs, of the points where it gives up the loop, and of the calls it starts
without awaiting them. `Async` writes such calls in `do` notation; it is in continuation-passing
style, with one continuation for a value and one for a thrown error, so that `await`, `try`/`catch`
and a detached call are definitions and not new constructors. -/

namespace CodeHive.Concurrency.Calls

/-- The primitives of a program, each with the type of its answer. -/
structure Sig where
  Op : Type
  Ret : Op → Type

/-- **What is left of an asynchronous call** that ends with a `ρ`. A detached call carries a tag
that says what it is. -/
inductive Thread (S : Sig) (τ ρ : Type) : Type where
  /-- The call has settled. -/
  | done (r : ρ)
  /-- A primitive, performed at once; the call goes on with its answer. -/
  | op (o : S.Op) (k : S.Ret o → Thread S τ ρ)
  /-- The call gives up the event loop; `p` is what it does when resumed. -/
  | yield (p : Thread S τ ρ)
  /-- A detached call has reached its first `await`: `child` is what is left of it. -/
  | fork (tag : τ) (child p : Thread S τ ρ)

/-- Nothing more happens before another call may run. -/
def Thread.Suspended {S : Sig} {τ ρ : Type} : Thread S τ ρ → Prop
  | .done _ => True
  | .yield _ => True
  | _ => False

/-- A computation in the body of an `async` function. -/
def Async (S : Sig) (τ ρ ε α : Type) : Type :=
  (α → Thread S τ ρ) → (ε → Thread S τ ρ) → Thread S τ ρ

section
variable {S : Sig} {τ ρ ε α β : Type}

instance : Monad (Async S τ ρ ε) where
  pure a := fun k _ => k a
  bind p f := fun k e => p (fun a => f a k e) e

instance : MonadExceptOf ε (Async S τ ρ ε) where
  throw err := fun _ e => e err
  tryCatch p h := fun k e => p k fun err => h err k e

/-- Perform a primitive. -/
def call (o : S.Op) : Async S τ ρ ε (S.Ret o) := fun k _ => .op o k

/-- `await p`: run `p` up to where it settles, then give up the loop, also when it rejects. -/
def await (p : Async S τ ρ ε α) : Async S τ ρ ε α :=
  fun k e => p (fun a => .yield (k a)) fun err => .yield (e err)

/-- Give up the loop before `p`: a request on its way to a server that performs it later. -/
def later (p : Async S τ ρ ε α) : Async S τ ρ ε α := fun k e => .yield (p k e)

/-- `try p finally fin`. -/
def tryFinally (p : Async S τ ρ ε α) (fin : Async S τ ρ ε Unit) : Async S τ ρ ε α :=
  fun k e => p (fun a => fin (fun _ => k a) e) fun err => fin (fun _ => e err) e

/-- The value or the error. -/
def settle : Except ε α → Async S τ ρ ε α
  | .ok a => fun k _ => k a
  | .error err => fun _ e => e err

/-- A whole call, from its body and what it settles to. -/
def Async.toThread (p : Async S τ ρ ε α) (fin : Except ε α → ρ) : Thread S τ ρ :=
  p (fun a => .done (fin (.ok a))) fun err => .done (fin (.error err))

/-- The caller performs the synchronous part of `child` itself; at the first `await` what is left of
`child` becomes a call of its own and the caller goes on with `cont`. -/
def Thread.detach (tag : τ) : Thread S τ ρ → Thread S τ ρ → Thread S τ ρ
  | .done _, cont => cont
  | .op o k, cont => .op o fun r => (k r).detach tag cont
  | .yield p, cont => .fork tag p cont
  | .fork tag' child p, cont => .fork tag' child (p.detach tag cont)

/-- Call `p` without awaiting it; `fin` is what its promise settles to. -/
def detach (tag : τ) (p : Async S τ ρ ε α) (fin : Except ε α → ρ) : Async S τ ρ ε Unit :=
  fun k _ => (p.toThread fin).detach tag (k ())

theorem await_apply (p : Async S τ ρ ε α) (k : α → Thread S τ ρ) (e : ε → Thread S τ ρ) :
    await p k e = p (fun a => .yield (k a)) fun err => .yield (e err) := rfl

/-! ### Calls that detach nothing -/

/-- No call is detached in what is left of this one. -/
def Thread.Single : Thread S τ ρ → Prop
  | .done _ => True
  | .op _ k => ∀ r, (k r).Single
  | .yield p => p.Single
  | .fork _ _ _ => False

/-- The computation detaches no call. -/
def Async.Single (p : Async S τ ρ ε α) : Prop :=
  ∀ k e, (∀ a, (k a).Single) → (∀ err, (e err).Single) → (p k e).Single

theorem single_pure (a : α) : (pure a : Async S τ ρ ε α).Single := by
  intro k e hk _
  exact hk a

theorem single_throw (err : ε) : (throw err : Async S τ ρ ε α).Single := by
  intro k e _ he
  exact he err

theorem single_call (o : S.Op) : (call o : Async S τ ρ ε (S.Ret o)).Single := by
  intro k e hk _
  exact hk

theorem single_settle (r : Except ε α) : (settle r : Async S τ ρ ε α).Single := by
  intro k e hk he
  cases r with
  | error err => exact he err
  | ok a => exact hk a

theorem Async.Single.bind {p : Async S τ ρ ε α} {f : α → Async S τ ρ ε β} (hp : p.Single)
    (hf : ∀ a, (f a).Single) : (p >>= f).Single := by
  intro k e hk he
  exact hp _ e (fun a => hf a k e hk he) he

theorem Async.Single.tryCatch {p : Async S τ ρ ε α} {h : ε → Async S τ ρ ε α} (hp : p.Single)
    (hh : ∀ err, (h err).Single) : (tryCatch p h).Single := by
  intro k e hk he
  exact hp k _ hk fun err => hh err k e hk he

theorem Async.Single.tryFinally {p : Async S τ ρ ε α} {fin : Async S τ ρ ε Unit} (hp : p.Single)
    (hfin : fin.Single) : (tryFinally p fin).Single := by
  intro k e hk he
  refine hp _ _ (fun a => ?_) fun err => ?_
  · exact hfin _ e (fun _ => hk a) he
  · exact hfin _ e (fun _ => he err) he

theorem Async.Single.await {p : Async S τ ρ ε α} (hp : p.Single) : (await p).Single := by
  intro k e hk he
  exact hp _ _ hk he

theorem Async.Single.later {p : Async S τ ρ ε α} (hp : p.Single) : (later p).Single :=
  fun k e => hp k e

theorem Async.Single.toThread {p : Async S τ ρ ε α} (hp : p.Single) (fin : Except ε α → ρ) :
    (p.toThread fin).Single := hp _ _ (fun _ => trivial) fun _ => trivial

/-! ### What a call ends with -/

/-- However the call goes on, it ends with a `Q`, if at all. -/
def Thread.Ends (Q : ρ → Prop) : Thread S τ ρ → Prop
  | .done r => Q r
  | .op _ k => ∀ r, (k r).Ends Q
  | .yield p => p.Ends Q
  | .fork _ _ p => p.Ends Q

/-- The computation gives an `A`, if anything. -/
def Async.Gives (p : Async S τ ρ ε α) (A : α → Prop) : Prop :=
  ∀ Q k e, (∀ a, A a → (k a).Ends Q) → (∀ err, (e err).Ends Q) → (p k e).Ends Q

section
variable {A : α → Prop}

theorem gives_pure {a : α} (ha : A a) : (pure a : Async S τ ρ ε α).Gives A := by
  intro Q k e hk _
  exact hk a ha

theorem gives_throw (err : ε) : (throw err : Async S τ ρ ε α).Gives A := by
  intro Q k e _ he
  exact he err

theorem gives_call (o : S.Op) : (call o : Async S τ ρ ε (S.Ret o)).Gives fun _ => True := by
  intro Q k e hk _ r
  exact hk r trivial

theorem gives_settle (r : Except ε α) : (settle r : Async S τ ρ ε α).Gives fun _ => True := by
  intro Q k e hk he
  cases r with
  | error err => exact he err
  | ok a => exact hk a trivial

theorem Async.Gives.bind {p : Async S τ ρ ε α} {f : α → Async S τ ρ ε β} {B : β → Prop}
    (hp : p.Gives A) (hf : ∀ a, A a → (f a).Gives B) : (p >>= f).Gives B := by
  intro Q k e hk he
  exact hp Q _ e (fun a ha => hf a ha Q k e hk he) he

theorem Async.Gives.tryCatch {p : Async S τ ρ ε α} {h : ε → Async S τ ρ ε α} (hp : p.Gives A)
    (hh : ∀ err, (h err).Gives A) : (tryCatch p h).Gives A := by
  intro Q k e hk he
  exact hp Q k _ hk fun err => hh err Q k e hk he

theorem Async.Gives.await {p : Async S τ ρ ε α} (hp : p.Gives A) : (await p).Gives A := by
  intro Q k e hk he
  exact hp Q _ _ hk he

theorem Async.Gives.later {p : Async S τ ρ ε α} (hp : p.Gives A) : (later p).Gives A :=
  fun Q k e => hp Q k e

theorem Async.Gives.toThread {p : Async S τ ρ ε α} (hp : p.Gives A) {fin : Except ε α → ρ}
    {Q : ρ → Prop} (hok : ∀ a, A a → Q (fin (.ok a))) (herr : ∀ err, Q (fin (.error err))) :
    (p.toThread fin).Ends Q := hp Q _ _ hok herr

end

end

end CodeHive.Concurrency.Calls
