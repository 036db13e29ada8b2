import CodeHive.Concurrency.Interleaving
import Mathlib.Logic.Relation
import Mathlib.Order.OrderIsoNat

/-! # Runs that come to rest

Some steps of an automaton are its own: it makes them without being asked to. Where each of them
lessens a number, no run of them is longer than that number, and every run of them can be continued
until none is left to be made. -/

namespace CodeHive.Concurrency.Settling

set_option autoImplicit false

open Relation CodeHive.Concurrency.Interleaving

section
variable {σ ℓ ε : Type}

/-- None of the own steps is enabled. -/
def Rests (A : Automaton σ ℓ ε) (own : ℓ → Prop) (s : σ) : Prop := ∀ l, own l → A.step s l = none

/-- **A run of own steps** takes `s` to a state: how many steps it has, and what is observed of it. -/
inductive Drains (A : Automaton σ ℓ ε) (own : ℓ → Prop) (s : σ) : ℕ → List ε → σ → Prop where
  | refl : Drains A own s 0 [] s
  | step {k : ℕ} {es new : List ε} {s' s'' : σ} {l : ℓ} (h : Drains A own s k es s') (hl : own l)
      (hs : A.step s' l = some (s'', new)) : Drains A own s (k + 1) (es ++ new) s''

/-- Every own step from a state in `I` leads to a state in `I` and lessens `μ`. -/
def Lessens (A : Automaton σ ℓ ε) (own : ℓ → Prop) (I : σ → Prop) (μ : σ → ℕ) : Prop :=
  ∀ s l s' new, I s → own l → A.step s l = some (s', new) → I s' ∧ μ s' < μ s

/-- **Left alone, the system comes to rest** after at most `n` own steps, wherever its choices lead
it, and `P` holds of where it rests. -/
structure Settles (A : Automaton σ ℓ ε) (own : ℓ → Prop) (s : σ) (n : ℕ)
    (P : List ε → σ → Prop) : Prop where
  bounded : ∀ k es s', Drains A own s k es s' → k ≤ n
  ends : ∀ k es s', Drains A own s k es s' →
    ∃ k' es' s'', Drains A own s' k' es' s'' ∧ Rests A own s''
  rest : ∀ k es s', Drains A own s k es s' → Rests A own s' → P es s'

variable {A : Automaton σ ℓ ε} {own : ℓ → Prop} {I : σ → Prop} {μ : σ → ℕ} {s s' s'' : σ}
  {k k' : ℕ} {es es' : List ε}

theorem Drains.reaches (h : Drains A own s k es s') : Reaches A s es s' := by
  induction h with
  | refl => exact .refl
  | step _ _ hs ih => exact ih.step hs

theorem Drains.trans (h : Drains A own s k es s') (h' : Drains A own s' k' es' s'') :
    Drains A own s (k + k') (es ++ es') s'' := by
  induction h' with
  | refl => exact (List.append_nil es).symm ▸ h
  | step _ hl hs ih => exact List.append_assoc _ _ _ ▸ ih.step hl hs

/-- **A run of own steps is no longer than what it lessens `μ` by.** -/
theorem Drains.length_le (hless : Lessens A own I μ) (hI : I s) (h : Drains A own s k es s') :
    I s' ∧ k + μ s' ≤ μ s := by
  induction h with
  | refl => exact ⟨hI, by omega⟩
  | step _ hl hs ih =>
    obtain ⟨hI', hlt⟩ := hless _ _ _ _ ih.1 hl hs
    have hle := ih.2
    exact ⟨hI', by omega⟩

/-- From every state in `I` some run of own steps leads to rest. -/
theorem exists_rest (hless : Lessens A own I μ) (hI : I s) :
    ∃ k es s', Drains A own s k es s' ∧ Rests A own s' := by
  induction hn : μ s using Nat.strongRecOn generalizing s with
  | ind n ih =>
    by_cases hrest : Rests A own s
    · exact ⟨0, [], s, .refl, hrest⟩
    · unfold Rests at hrest
      push Not at hrest
      obtain ⟨l, hl, hstep⟩ := hrest
      obtain ⟨⟨s₁, es₁⟩, hs⟩ := Option.ne_none_iff_exists'.mp hstep
      obtain ⟨hI₁, hlt⟩ := hless s l s₁ es₁ hI hl hs
      obtain ⟨k, es, s₂, hd, hr⟩ := ih (μ s₁) (hn ▸ hlt) hI₁ rfl
      exact ⟨_, _, s₂, (Drains.step .refl hl hs).trans hd, hr⟩

/-- **The rule**: own steps lessen a number, and where none is left `P` holds. -/
theorem settles {P : List ε → σ → Prop} (hless : Lessens A own I μ) (hI : I s)
    (hrest : ∀ k es s', Drains A own s k es s' → Rests A own s' → P es s') :
    Settles A own s (μ s) P where
  bounded k es s' h := by
    have hle := (h.length_le hless hI).2
    omega
  ends k es s' h := exists_rest hless (h.length_le hless hI).1
  rest := hrest

end

/-! ### Without a bound

Where a step may lead to more and more that is left to be done, no number bounds the runs; a
well-founded order in its place still excludes the infinite ones. -/

section
variable {σ : Type} {R : σ → σ → Prop} {s : σ}

/-- No step is left to be made. -/
def Stuck (R : σ → σ → Prop) (s : σ) : Prop := ∀ s', ¬ R s s'

/-- **Left alone, the system comes to rest**: no run of its steps is infinite, each can be continued
until none is left to be made, and there `P` holds. -/
structure ComesToRest (R : σ → σ → Prop) (s : σ) (P : σ → Prop) : Prop where
  finite : ¬ ∃ run : ℕ → σ, run 0 = s ∧ ∀ n, R (run n) (run (n + 1))
  ends : ∀ s', ReflTransGen R s s' → ∃ s'', ReflTransGen R s' s'' ∧ Stuck R s''
  rest : ∀ s', ReflTransGen R s s' → Stuck R s' → P s'

variable {I P : σ → Prop} {less : σ → σ → Prop}

theorem exists_stuck (hwf : WellFounded less) (hless : ∀ s s', I s → R s s' → I s' ∧ less s' s)
    (hI : I s) : ∃ s', ReflTransGen R s s' ∧ Stuck R s' := by
  induction s using hwf.induction with
  | _ s ih =>
    by_cases hstuck : Stuck R s
    · exact ⟨s, .refl, hstuck⟩
    · unfold Stuck at hstuck
      push Not at hstuck
      obtain ⟨s₁, hstep⟩ := hstuck
      obtain ⟨hI₁, hlt⟩ := hless s s₁ hI hstep
      obtain ⟨s', hr, hs'⟩ := ih s₁ hlt hI₁
      exact ⟨s', hr.head hstep, hs'⟩

theorem invariant_of_reflTransGen (hless : ∀ s s', I s → R s s' → I s' ∧ less s' s) (hI : I s)
    {s' : σ} (h : ReflTransGen R s s') : I s' := by
  induction h with
  | refl => exact hI
  | tail _ hs ih => exact (hless _ _ ih hs).1

/-- **The rule**: every step lessens what is left to be done, and where none is left `P` holds. -/
theorem comesToRest (hwf : WellFounded less) (hless : ∀ s s', I s → R s s' → I s' ∧ less s' s)
    (hI : I s) (hrest : ∀ s', ReflTransGen R s s' → Stuck R s' → P s') : ComesToRest R s P where
  finite := by
    rintro ⟨run, hzero, hrun⟩
    have hinv : ∀ n, I (run n) := by
      intro n
      induction n with
      | zero => exact hzero ▸ hI
      | succ n ih => exact (hless _ _ ih (hrun n)).1
    have hdesc : ∀ n, less (run (n + 1)) (run n) := fun n => (hless _ _ (hinv n) (hrun n)).2
    exact (wellFounded_iff_isEmpty_descending_chain.mp hwf).false ⟨run, hdesc⟩
  ends s' h := exists_stuck hwf hless (invariant_of_reflTransGen hless hI h)
  rest := hrest

end

end CodeHive.Concurrency.Settling
