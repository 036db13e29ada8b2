import CodeHive.Concurrency.Pool
import Mathlib.Data.List.Induction

/-! # Protocols of calls

A protocol says what a call may perform and detach at each stage of its course, to which stage an
answer leads, and at which stages it may settle. What is left of a call *follows* the protocol from
a stage on, by recursion over it; parts of an `async` function lead from one stage to others
(`Leads`), and the rules for them are those of its syntax. In the pool the stage of a call is read
off the log, and every call follows its protocol from there (`Conforms`). -/

namespace CodeHive.Concurrency.Protocols

set_option autoImplicit false

open CodeHive.Concurrency.Calls CodeHive.Concurrency.Pool CodeHive.Lists.Slots

/-- **A protocol** with stages `Q`. -/
structure Protocol (S : Sig) (τ ρ Q : Type) where
  begin : τ → Q
  allows : Q → S.Op → Prop
  /-- Which answers have to be reckoned with. -/
  may : Q → (o : S.Op) → S.Ret o → Prop
  next : Q → (o : S.Op) → S.Ret o → Q
  /-- A call may be detached. -/
  forks : Q → τ → Prop
  ends : Q → ρ → Prop

section
variable {S : Sig} {τ ρ Q ε α β : Type}

/-- **What is left of a call follows the protocol**, from the stage `q` on. -/
def Follows (P : Protocol S τ ρ Q) : Thread S τ ρ → Q → Prop
  | .done r, q => P.ends q r
  | .op o k, q => P.allows q o ∧ ∀ r, P.may q o r → Follows P (k r) (P.next q o r)
  | .yield p, q => Follows P p q
  | .fork tag child p, q => P.forks q tag ∧ Follows P child (P.begin tag) ∧ Follows P p q

variable {P : Protocol S τ ρ Q}

theorem follows_op {o : S.Op} {k : S.Ret o → Thread S τ ρ} {q : Q} : Follows P (.op o k) q ↔
    P.allows q o ∧ ∀ r, P.may q o r → Follows P (k r) (P.next q o r) := Iff.rfl

theorem follows_fork {tag : τ} {child p : Thread S τ ρ} {q : Q} : Follows P (.fork tag child p) q ↔
    P.forks q tag ∧ Follows P child (P.begin tag) ∧ Follows P p q := Iff.rfl

/-! ### Parts of calls -/

/-- **A part of a call leads** from the stage `q` to `A` with a value, to `E` with an error. -/
def Leads (P : Protocol S τ ρ Q) (q : Q) (p : Async S τ ρ ε α) (A : α → Q → Prop)
    (E : ε → Q → Prop) : Prop :=
  ∀ k e, (∀ x q', A x q' → Follows P (k x) q') → (∀ err q', E err q' → Follows P (e err) q') →
    Follows P (p k e) q

/-- A part of a call that leaves the stage as it is. -/
def Stays (P : Protocol S τ ρ Q) (q : Q) (p : Async S τ ρ ε α) : Prop :=
  Leads P q p (fun _ q' => q' = q) fun _ q' => q' = q

section
variable {q : Q} {p : Async S τ ρ ε α} {f : α → Async S τ ρ ε β} {A C : α → Q → Prop}
  {B : β → Q → Prop} {E F : ε → Q → Prop}

theorem Leads.mono (hp : Leads P q p A E) (hA : ∀ x q', A x q' → C x q')
    (hE : ∀ err q', E err q' → F err q') : Leads P q p C F := by
  intro k e hk he
  exact hp k e (fun x q' h => hk x q' (hA x q' h)) fun err q' h => he err q' (hE err q' h)

theorem leads_pure {x : α} (h : A x q) : Leads P q (pure x : Async S τ ρ ε α) A E := by
  intro k e hk _
  exact hk x q h

theorem leads_throw {err : ε} (h : E err q) : Leads P q (throw err : Async S τ ρ ε α) A E := by
  intro k e _ he
  exact he err q h

theorem leads_settle {r : Except ε α} (hA : ∀ x, r = .ok x → A x q)
    (hE : ∀ err, r = .error err → E err q) : Leads P q (settle r : Async S τ ρ ε α) A E := by
  intro k e hk he
  cases r with
  | error err => exact he err q (hE err rfl)
  | ok x => exact hk x q (hA x rfl)

/-- A primitive. -/
theorem leads_call {o : S.Op} {A : S.Ret o → Q → Prop} (ho : P.allows q o)
    (hA : ∀ r, P.may q o r → A r (P.next q o r)) :
    Leads P q (call o : Async S τ ρ ε (S.Ret o)) A E := by
  intro k e hk _
  exact ⟨ho, fun r hr => hk r _ (hA r hr)⟩

theorem Leads.bind (hp : Leads P q p A E) (hf : ∀ x q', A x q' → Leads P q' (f x) B E) :
    Leads P q (p >>= f) B E := by
  intro k e hk he
  exact hp _ e (fun x q' h => hf x q' h k e hk he) he

theorem Leads.tryCatch {h : ε → Async S τ ρ ε α} (hp : Leads P q p A F)
    (hh : ∀ err q', F err q' → Leads P q' (h err) A E) : Leads P q (tryCatch p h) A E := by
  intro k e hk he
  exact hp k _ hk fun err q' herr => hh err q' herr k e hk he

theorem Leads.tryFinally {fin : Async S τ ρ ε Unit} (hp : Leads P q p C F)
    (hA : ∀ x q', C x q' → Leads P q' fin (fun _ => A x) E)
    (hE : ∀ err q', F err q' → Leads P q' fin (fun _ => E err) E) :
    Leads P q (tryFinally p fin) A E := by
  intro k e hk he
  refine hp _ _ (fun x q' h => ?_) fun err q' h => ?_
  · exact hA x q' h _ e (fun _ => hk x) he
  · exact hE err q' h _ e (fun _ => he err) he

theorem Leads.await (hp : Leads P q p A E) : Leads P q (await p) A E := by
  intro k e hk he
  exact hp _ _ hk he

theorem Leads.later (hp : Leads P q p A E) : Leads P q (later p) A E := fun k e => hp k e

theorem Leads.toThread (hp : Leads P q p A E) {fin : Except ε α → ρ}
    (hA : ∀ x q', A x q' → P.ends q' (fin (.ok x)))
    (hE : ∀ err q', E err q' → P.ends q' (fin (.error err))) : Follows P (p.toThread fin) q :=
  hp _ _ hA hE

/-! ### Parts that stay -/

theorem stays_pure (x : α) : Stays P q (pure x : Async S τ ρ ε α) := leads_pure rfl

theorem stays_throw (err : ε) : Stays P q (throw err : Async S τ ρ ε α) := leads_throw rfl

theorem stays_settle (r : Except ε α) : Stays P q (settle r : Async S τ ρ ε α) :=
  leads_settle (fun _ _ => rfl) fun _ _ => rfl

theorem stays_call {o : S.Op} (ho : P.allows q o) (hnext : ∀ r, P.next q o r = q) :
    Stays P q (call o : Async S τ ρ ε (S.Ret o)) := leads_call ho fun r _ => hnext r

/-- What stays leads to whatever holds at its stage. -/
theorem Stays.leads (hp : Stays P q p) (hA : ∀ x, A x q) (hE : ∀ err, E err q) :
    Leads P q p A E := hp.mono (fun x _ hq => hq ▸ hA x) fun err _ hq => hq ▸ hE err

theorem Stays.bind (hp : Stays P q p) (hf : ∀ x, Stays P q (f x)) : Stays P q (p >>= f) :=
  Leads.bind hp fun x _ hq => hq ▸ hf x

/-- What stays, and what it goes on with. -/
theorem Stays.then (hp : Stays P q p) (hE : ∀ err, E err q) (hf : ∀ x, Leads P q (f x) B E) :
    Leads P q (p >>= f) B E :=
  Leads.bind (hp.leads (A := fun _ q' => q' = q) (fun _ => rfl) hE) fun x _ hq => hq ▸ hf x

theorem Stays.tryCatch {h : ε → Async S τ ρ ε α} (hp : Stays P q p)
    (hh : ∀ err, Stays P q (h err)) : Stays P q (tryCatch p h) :=
  Leads.tryCatch hp fun err _ hq => hq ▸ hh err

theorem Stays.await (hp : Stays P q p) : Stays P q (await p) := Leads.await hp

theorem Stays.later (hp : Stays P q p) : Stays P q (later p) := Leads.later hp

theorem Stays.toThread (hp : Stays P q p) (fin : Except ε α → ρ) (hends : ∀ r, P.ends q r) :
    Follows P (p.toThread fin) q :=
  Leads.toThread hp (fun _ _ hq => hq ▸ hends _) fun _ _ hq => hq ▸ hends _

end

/-! ### The stage of a call -/

/-- What an event makes of the stage of call `t`. -/
def Protocol.observe (P : Protocol S τ ρ Q) (t : ℕ) (q : Q) : Event S τ → Q
  | .ran b o r => if b.tid = t then P.next q o r else q
  | .started _ => q

/-- **The stage of a call**, as the log has it. -/
def Protocol.stage (P : Protocol S τ ρ Q) (a : Actor τ) (log : List (Event S τ)) : Q :=
  log.foldl (P.observe a.tid) (P.begin a.tag)

theorem stage_concat (a : Actor τ) (log : List (Event S τ)) (e : Event S τ) :
    P.stage a (log ++ [e]) = P.observe a.tid (P.stage a log) e := by
  simp only [Protocol.stage, List.foldl_append, List.foldl_cons, List.foldl_nil]

theorem stage_own {a b : Actor τ} (hb : b.tid = a.tid) (log : List (Event S τ)) (o : S.Op)
    (r : S.Ret o) : P.stage a (log ++ [.ran b o r]) = P.next (P.stage a log) o r := by
  rw [stage_concat]
  exact if_pos hb

/-- What is not of the call does not change its stage. -/
theorem stage_other {a : Actor τ} {log : List (Event S τ)} {e : Event S τ}
    (he : ∀ b o r, e = .ran b o r → b.tid ≠ a.tid) :
    P.stage a (log ++ [e]) = P.stage a log := by
  rw [stage_concat]
  cases e with
  | started b => rfl
  | ran b o r => exact if_neg (he b o r rfl)

/-- **The induction over the log**: what holds of the stage at the beginning, and is kept by what the
others do and by every answer of the call's own, holds of the stage. -/
theorem stage_induction {a : Actor τ} {log : List (Event S τ)} {R : List (Event S τ) → Q → Prop}
    (hbegin : R [] (P.begin a.tag))
    (hother : ∀ pre e, pre ++ [e] <+: log → (∀ b o r, e = .ran b o r → b.tid ≠ a.tid) →
      R pre (P.stage a pre) → R (pre ++ [e]) (P.stage a pre))
    (hown : ∀ pre b o r, pre ++ [.ran b o r] <+: log → b.tid = a.tid → R pre (P.stage a pre) →
      R (pre ++ [.ran b o r]) (P.next (P.stage a pre) o r)) : R log (P.stage a log) := by
  induction log using List.reverseRecOn with
  | nil => exact hbegin
  | append_singleton log e ih =>
    have hmono : ∀ {pre : List (Event S τ)}, pre <+: log → pre <+: log ++ [e] :=
      fun h => h.trans (List.prefix_append _ _)
    have ih := ih (fun pre e' h => hother pre e' (hmono h)) fun pre b o r h => hown pre b o r (hmono h)
    by_cases he : ∃ b o r, e = .ran b o r ∧ b.tid = a.tid
    · obtain ⟨b, o, r, rfl, hb⟩ := he
      rw [stage_own hb]
      exact hown log b o r List.prefix_rfl hb ih
    · have hne : ∀ b o r, e = .ran b o r → b.tid ≠ a.tid := fun b o r h hb => he ⟨b, o, r, h, hb⟩
      rw [stage_other hne]
      exact hother log e List.prefix_rfl hne ih

/-- A call that has done nothing is where it begins. -/
theorem stage_new {a : Actor τ} {log : List (Event S τ)} (h : ∀ e ∈ log, e.actor.tid ≠ a.tid) :
    P.stage a log = P.begin a.tag := by
  induction log using List.reverseRecOn with
  | nil => rfl
  | append_singleton log e ih =>
    rw [stage_other fun b o r he => ?_]
    · exact ih fun e' he' => h e' (List.mem_append_left _ he')
    · have hne := h e (List.mem_append_right _ List.mem_cons_self)
      rw [he] at hne
      exact hne

end

/-! ### The pool -/

variable {S : Sig} {τ ρ Q : Type} {sys : System S τ ρ} {P : Protocol S τ ρ Q}

/-- **Every call follows the protocol**, from its stage on, and has followed it so far. -/
structure Conforms (P : Protocol S τ ρ Q) (c : Config sys) : Prop where
  wf : Wf c
  follows : ∀ (t : ℕ) (a : Actor τ) (p : Thread S τ ρ), c.pool[t]? = some (a, p) →
    Follows P p (P.stage a c.world.log)
  allowed : ∀ (n : ℕ) (a : Actor τ) (o : S.Op) (r : S.Ret o), c.world.log[n]? = some (.ran a o r) →
    P.allows (P.stage a (c.world.log.take n)) o

theorem Conforms.init (s : sys.State) : Conforms P (Config.init sys s) where
  wf := .init s
  follows _ _ _ h := by simp [Config.init] at h
  allowed _ _ _ _ h := by simp [Config.init] at h

variable {c c' : Config sys}

/-- The log grows by an event that was allowed. -/
theorem Conforms.allowed_concat (h : Conforms P c) {e : Event S τ}
    (he : ∀ a o r, e = .ran a o r → P.allows (P.stage a c.world.log) o) (n : ℕ) (a : Actor τ)
    (o : S.Op) (r : S.Ret o) (hn : (c.world.log ++ [e])[n]? = some (.ran a o r)) :
    P.allows (P.stage a ((c.world.log ++ [e]).take n)) o := by
  rcases getElem?_concat_cases hn with hold | ⟨rfl, rfl⟩
  · have hlt : n < c.world.log.length := (List.getElem?_eq_some_iff.mp hold).1
    rw [List.take_append_of_le_length (Nat.le_of_lt hlt)]
    exact h.allowed n a o r hold
  · rw [List.take_left']
    · exact he a o r rfl
    · rfl

/-- A call that has begun meanwhile, and the other calls. -/
theorem Conforms.start (h : Conforms P c) {tag : τ} {p : Thread S τ ρ}
    (hp : Follows P p (P.begin tag)) (u : ℕ) (b : Actor τ) (q : Thread S τ ρ)
    (hu : (c.pool ++ [(c.fresh tag, p)])[u]? = some (b, q)) :
    Follows P q (P.stage b (c.world.log ++ [.started (c.fresh tag)])) := by
  rw [stage_other (by intro _ _ _ he; cases he)]
  rcases getElem?_concat_cases hu with hold | ⟨-, he⟩
  · exact h.follows u b q hold
  · cases he
    rw [stage_new fun e he htid => ?_]
    · exact hp
    · obtain ⟨p', hp'⟩ := h.wf.log e he
      have hlt : e.actor.tid < c.pool.length := (List.getElem?_eq_some_iff.mp hp').1
      have hlen : e.actor.tid = c.pool.length := htid
      omega

/-- **One step keeps the protocol**, if the answer is one that was reckoned with. -/
theorem Conforms.step (h : Conforms P c)
    (hent : ∀ tag p, sys.entry tag = some p → Follows P p (P.begin tag)) {l : Label τ sys.Input}
    (hs : c.step l = some c')
    (hmay : ∀ (t : ℕ) (a : Actor τ) (o : S.Op) (k : S.Ret o → Thread S τ ρ) (i : sys.Input)
      (r : S.Ret o) (w : World sys.toMachine τ), c.pool[t]? = some (a, .op o k) →
      P.allows (P.stage a c.world.log) o → c.world.fire a o i = some (r, w) →
      P.may (P.stage a c.world.log) o r) : Conforms P c' := by
  have hwf := h.wf.step hs
  cases stepped_of_step hs with
  | @arrive tag p hrun hp =>
    exact ⟨hwf, h.start (hent tag p hp), h.allowed_concat (by intro _ _ _ he; cases he)⟩
  | @resume t a p hrun hp =>
    refine ⟨hwf, fun u b q hu => ?_, h.allowed⟩
    rcases getElem?_set_cases hu with ⟨-, hu⟩ | ⟨rfl, he⟩
    · exact h.follows u b q hu
    · cases he
      have hyield := h.follows u a _ hp
      exact hyield
  | @op t a o k i r w hrun hp hf =>
    obtain ⟨ho, hk⟩ := follows_op.mp (h.follows t a _ hp)
    have hr := hmay t a o k i r w hp ho hf
    obtain ⟨s, -, rfl⟩ := World.fire_eq_some.mp hf
    refine ⟨hwf, fun u b q hu => ?_, h.allowed_concat fun b o' r' he => ?_⟩
    · rcases getElem?_set_cases hu with ⟨hne, hu⟩ | ⟨rfl, he⟩
      · rw [stage_other fun b' o' r' he => ?_]
        · exact h.follows u b q hu
        · cases he
          rw [h.wf.tid t a _ hp, h.wf.tid u b q hu]
          exact Ne.symm hne
      · cases he
        rw [stage_own rfl]
        exact hk r hr
    · cases he
      exact ho
  | @fork t a tag child p i hrun hp =>
    obtain ⟨-, hchild, hcont⟩ := follows_fork.mp (h.follows t a _ hp)
    have hset : Conforms P { c with pool := c.pool.set t (a, p) } := by
      refine ⟨h.wf.set hp p, fun u b q hu => ?_, h.allowed⟩
      rcases getElem?_set_cases hu with ⟨-, hu⟩ | ⟨rfl, he⟩
      · exact h.follows u b q hu
      · cases he
        exact hcont
    have hfresh : Config.fresh { c with pool := c.pool.set t (a, p) } tag = c.fresh tag := by
      simp [Config.fresh]
    refine ⟨hwf, fun u b q hu => ?_, h.allowed_concat (by intro _ _ _ he; cases he)⟩
    have hchild' : Follows P (.yield child) (P.begin tag) := hchild
    have hstart := hset.start hchild' u b q
    rw [hfresh] at hstart
    exact hstart hu
  | pause hrun hp hsus => exact ⟨hwf, h.follows, h.allowed⟩

/-- What a call has performed was allowed. -/
theorem Conforms.allowed_prefix (h : Conforms P c) {pre : List (Event S τ)} {a : Actor τ} {o : S.Op}
    {r : S.Ret o} (hpre : pre ++ [.ran a o r] <+: c.world.log) : P.allows (P.stage a pre) o := by
  obtain ⟨rest, hrest⟩ := hpre
  have hlog : c.world.log = pre ++ .ran a o r :: rest := by rw [← hrest, List.append_assoc]; rfl
  have hallowed := h.allowed pre.length a o r (by rw [hlog]; simp)
  rwa [hlog, List.take_left'] at hallowed
  rfl

/-- A call is known by its place in the pool. -/
theorem Conforms.actor (h : Conforms P c) {t : ℕ} {a : Actor τ} {p : Thread S τ ρ}
    (ht : c.pool[t]? = some (a, p)) {e : Event S τ} (he : e ∈ c.world.log)
    (htid : e.actor.tid = a.tid) : e.actor = a := by
  obtain ⟨p', hp'⟩ := h.wf.log e he
  rw [htid, h.wf.tid t a p ht, ht] at hp'
  cases hp'
  rfl

/-- A call that has settled was allowed to. -/
theorem Conforms.ends (h : Conforms P c) {t : ℕ} {a : Actor τ} {r : ρ}
    (ht : c.pool[t]? = some (a, .done r)) : P.ends (P.stage a c.world.log) r := h.follows t a _ ht

/-- A call that is about to be detached was allowed to be. -/
theorem Conforms.forks (h : Conforms P c) {t : ℕ} {a : Actor τ} {tag : τ} {child p : Thread S τ ρ}
    (ht : c.pool[t]? = some (a, .fork tag child p)) : P.forks (P.stage a c.world.log) tag :=
  (follows_fork.mp (h.follows t a _ ht)).1

end CodeHive.Concurrency.Protocols
