import CodeHive.Concurrency.RelyGuarantee
import CodeHive.Concurrency.Settling
import Mathlib.Logic.Hydra

/-! # The event loop comes to rest

What is left of a call is a finite tree, if one that may branch without a bound on the answers of
its primitives. So no number bounds how long a loop goes on that no new calls reach; but every step
replaces a tree by smaller ones, and there is no infinite run of such steps. Where none is left to
be made, every call has settled. -/

namespace CodeHive.Concurrency.Resting

set_option autoImplicit false

open Relation CodeHive.Concurrency.Calls CodeHive.Concurrency.Pool
open CodeHive.Concurrency.RelyGuarantee CodeHive.Concurrency.Settling CodeHive.Lists.Slots

section
variable {S : Sig} {τ ρ : Type}

/-- What a step of the call `p` leaves of it, or detaches. -/
inductive Before : Thread S τ ρ → Thread S τ ρ → Prop where
  | op (o : S.Op) (k : S.Ret o → Thread S τ ρ) (r : S.Ret o) : Before (k r) (.op o k)
  | yield (p : Thread S τ ρ) : Before p (.yield p)
  | cont (tag : τ) (child p : Thread S τ ρ) : Before p (.fork tag child p)
  | child (tag : τ) (child p : Thread S τ ρ) : Before (.yield child) (.fork tag child p)

theorem acc_yield {p : Thread S τ ρ} (h : Acc Before p) : Acc Before (.yield p) := by
  refine ⟨_, fun q hq => ?_⟩
  cases hq
  exact h

/-- **Calls are finite trees.** -/
theorem wellFounded_before : WellFounded (Before : Thread S τ ρ → Thread S τ ρ → Prop) := by
  refine ⟨fun p => ?_⟩
  induction p with
  | done r =>
    refine ⟨_, fun q hq => ?_⟩
    cases hq
  | op o k ih =>
    refine ⟨_, fun q hq => ?_⟩
    cases hq
    exact ih _
  | yield p ih => exact acc_yield ih
  | fork tag child p ihc ihp =>
    refine ⟨_, fun q hq => ?_⟩
    cases hq with
    | cont => exact ihp
    | child => exact acc_yield ihc

instance : Std.Irrefl (Before : Thread S τ ρ → Thread S τ ρ → Prop) :=
  ⟨fun p h => wellFounded_before.irrefl.irrefl p h⟩

end

variable {S : Sig} {τ ρ : Type} {sys : System S τ ρ}

/-- A step of the loop that is not the arrival of a call. -/
def Own {ι : Type} : Label τ ι → Prop
  | .arrive _ => False
  | _ => True

/-- A step of the loop itself. -/
def OwnStep (c c' : Config sys) : Prop := ∃ l, Own l ∧ c.step l = some c'

theorem reaches_of_own {c c' : Config sys} (h : ReflTransGen OwnStep c c') :
    Reaches (AnyStep sys) c c' := by
  induction h with
  | refl => exact .refl
  | tail _ hs ih =>
    obtain ⟨l, -, hs⟩ := hs
    exact ih.step trivial hs

/-- A step that is not the arrival of a call is not to be made where the loop is stuck. -/
theorem step_of_stuck {c : Config sys} (h : Stuck OwnStep c) {l : Label τ sys.Input} (hl : Own l) :
    c.step l = none := by
  cases hs : c.step l with
  | none => rfl
  | some c' => exact absurd ⟨l, hl, hs⟩ (h c')

/-! ### Every step leaves less -/

/-- What is left of the calls. -/
def left (c : Config sys) : Multiset (Thread S τ ρ) := (c.pool.map Prod.snd : List (Thread S τ ρ))

/-- What is left of a call is replaced. -/
theorem left_set {pool : List (Actor τ × Thread S τ ρ)} {t : ℕ} {a : Actor τ} {p : Thread S τ ρ}
    (ht : pool[t]? = some (a, p)) (q : Thread S τ ρ) :
    (((pool.set t (a, q)).map Prod.snd : List (Thread S τ ρ)) : Multiset (Thread S τ ρ)) + {p} =
      ((pool.map Prod.snd : List (Thread S τ ρ)) : Multiset (Thread S τ ρ)) + {q} := by
  have hperm := perm_filterMap_set (fun x : Actor τ × Thread S τ ρ => some x.2) ht (a, q)
  simp only [Option.toList_some, List.filterMap_eq_map'] at hperm
  rw [add_comm, add_comm (Multiset.ofList _) {q}]
  exact Multiset.coe_eq_coe.mpr hperm

/-- The loop goes on: less is left of the calls, or the loop is given back. -/
def Less (c' c : Config sys) : Prop :=
  Prod.Lex (Relation.CutExpand Before) (· < ·) (left c', c'.running.isSome)
    (left c, c.running.isSome)

theorem wellFounded_less : WellFounded (Less : Config sys → Config sys → Prop) :=
  InvImage.wf (fun c : Config sys => (left c, c.running.isSome))
    (WellFounded.prod_lex wellFounded_before.cutExpand (Finite.wellFounded_of_trans_of_irrefl _))

/-- **An own step leaves less.** -/
theorem less_of_step {c c' : Config sys} (h : OwnStep c c') : Less c' c := by
  obtain ⟨l, hl, hs⟩ := h
  cases stepped_of_step hs with
  | arrive hrun hp => exact hl.elim
  | @resume t a p hrun hp =>
    refine .left _ _ ⟨{p}, .yield p, ?_, left_set hp p⟩
    simpa using Before.yield p
  | @op t a o k i r w hrun hp hf =>
    refine .left _ _ ⟨{k r}, .op o k, ?_, left_set hp (k r)⟩
    simpa using Before.op o k r
  | @fork t a tag child p i hrun hp =>
    refine .left _ _ ⟨{p, .yield child}, .fork tag child p, ?_, ?_⟩
    · simpa using ⟨Before.cont tag child p, Before.child tag child p⟩
    · have hset := left_set hp p
      have hfork : left (⟨c.world.start (c.fresh tag),
          c.pool.set t (a, p) ++ [(c.fresh tag, .yield child)], some t⟩ : Config sys) =
          Multiset.ofList ((c.pool.set t (a, p)).map Prod.snd) + {Thread.yield child} := by
        simp only [left, List.map_append, ← Multiset.coe_add]
        rfl
      rw [hfork, add_right_comm, hset, add_assoc]
      rfl
  | @pause t a p i hrun hp hsus =>
    refine .right _ ?_
    show false < c.running.isSome
    rw [hrun]
    exact Bool.false_lt_true

/-! ### Where the loop rests -/

/-- **Where nothing can go on, every call has settled**, as long as no primitive is ever stuck. -/
theorem settled_of_rests [Inhabited sys.Input] {sp : Spec sys} {c : Config sys} (h : Ok sp c)
    (hen : Enabled sp) (hrest : Stuck OwnStep c) :
    c.running = none ∧ ∀ (t : ℕ) (a : Actor τ) (p : Thread S τ ρ), c.pool[t]? = some (a, p) →
      ∃ r, p = .done r := by
  have hrun : c.running = none := by
    cases hrun : c.running with
    | none => rfl
    | some t =>
      exfalso
      obtain ⟨⟨a, p⟩, hp⟩ : ∃ x, c.pool[t]? = some x :=
        ⟨_, List.getElem?_eq_getElem (h.wf.running t hrun)⟩
      have hnone := step_of_stuck hrest (l := .next default) trivial
      cases p with
      | done r => rw [(Stepped.pause (i := default) hrun hp trivial).step] at hnone; cases hnone
      | yield p => rw [(Stepped.pause (i := default) hrun hp trivial).step] at hnone; cases hnone
      | fork tag child p => rw [(Stepped.fork (i := default) hrun hp).step] at hnone; cases hnone
      | op o k =>
        obtain ⟨-, i, hi⟩ := hen a c.world o h.inv (h.guar hp)
        obtain ⟨⟨r, w⟩, hf⟩ := Option.isSome_iff_exists.mp hi
        have hnone' := step_of_stuck hrest (l := .next i) trivial
        rw [(Stepped.op hrun hp hf).step] at hnone'
        cases hnone'
  refine ⟨hrun, fun t a p hp => ?_⟩
  have hsus := h.idle t a p hp (by rw [hrun]; exact fun hne => by cases hne)
  cases p with
  | done r => exact ⟨r, rfl⟩
  | yield p =>
    have hnone := step_of_stuck hrest (l := .resume t) trivial
    rw [(Stepped.resume hrun hp).step] at hnone
    cases hnone
  | op o k => exact hsus.elim
  | fork tag child p => exact hsus.elim

end CodeHive.Concurrency.Resting
