import Mathlib.Data.List.Basic

/-! # Interleavings with a history

An automaton is a system of parties that move one at a time: a label says who moves and what the
environment decides, and a step is enabled or not. What a step shows to an observer is kept in a
history, so that statements about a run (what was handed out, in which order) are statements about
a list. -/

namespace CodeHive.Concurrency.Interleaving

set_option autoImplicit false

/-- `step s l` is the state after the step `l` and what is observed of it; `none` where the step is
not enabled. -/
structure Automaton (σ ℓ ε : Type) where
  step : σ → ℓ → Option (σ × List ε)

section
variable {σ ℓ ε : Type} {A : Automaton σ ℓ ε}

/-- Follow a schedule. -/
def Automaton.run (A : Automaton σ ℓ ε) (s : σ) : List ℓ → Option (σ × List ε)
  | [] => some (s, [])
  | l :: ls => do
    let (s₁, es₁) ← A.step s l
    let (s₂, es₂) ← A.run s₁ ls
    return (s₂, es₁ ++ es₂)

/-- **Some run takes `s₀` to `s`, and this was observed of it.** -/
inductive Reaches (A : Automaton σ ℓ ε) (s₀ : σ) : List ε → σ → Prop where
  | refl : Reaches A s₀ [] s₀
  | step {es new : List ε} {s s' : σ} {l : ℓ} (h : Reaches A s₀ es s)
      (hs : A.step s l = some (s', new)) : Reaches A s₀ (es ++ new) s'

variable {s₀ s s' : σ} {es es' : List ε}

theorem Reaches.trans (h : Reaches A s₀ es s) (h' : Reaches A s es' s') :
    Reaches A s₀ (es ++ es') s' := by
  induction h' with
  | refl => exact (List.append_nil es).symm ▸ h
  | step _ hs ih => exact List.append_assoc _ _ _ ▸ ih.step hs

theorem reaches_of_run {ls : List ℓ} (h : A.run s ls = some (s', es)) : Reaches A s es s' := by
  induction ls generalizing s es with
  | nil =>
    simp only [Automaton.run, Option.some.injEq, Prod.mk.injEq] at h
    obtain ⟨rfl, rfl⟩ := h
    exact .refl
  | cons l ls ih =>
    obtain ⟨⟨s₁, es₁⟩, h₁, h⟩ := Option.bind_eq_some_iff.mp h
    obtain ⟨⟨s₂, es₂⟩, h₂, h⟩ := Option.bind_eq_some_iff.mp h
    cases h
    exact (Reaches.step .refl h₁).trans (ih h₂)

theorem Automaton.run_cons {l : ℓ} {ls : List ℓ} {s₁ s₂ : σ} (hs : A.step s l = some (s₁, es))
    (h : A.run s₁ ls = some (s₂, es')) : A.run s (l :: ls) = some (s₂, es ++ es') := by
  rw [Automaton.run, hs]
  show (A.run s₁ ls).bind _ = _
  rw [h]
  rfl

/-- **An invariant relates the history to the state**: it holds at the start, and no step from where
a run has led breaks it. -/
theorem Reaches.keeps {I : List ε → σ → Prop} (h₀ : I [] s₀)
    (hstep : ∀ es s l s' new, Reaches A s₀ es s → I es s → A.step s l = some (s', new) →
      I (es ++ new) s') (h : Reaches A s₀ es s) : I es s := by
  induction h with
  | refl => exact h₀
  | step h hs ih => exact hstep _ _ _ _ _ h ih hs

/-- **What is observed is justified by what was observed before**, where every step justifies what
is observed of it. -/
theorem Reaches.each {Q : List ε → ε → Prop}
    (hstep : ∀ es s l s' new, Reaches A s₀ es s → A.step s l = some (s', new) →
      ∀ es₁ e es₂, new = es₁ ++ e :: es₂ → Q (es ++ es₁) e)
    (h : Reaches A s₀ es s) : ∀ es₁ e es₂, es = es₁ ++ e :: es₂ → Q es₁ e := by
  induction h with
  | refl => exact fun es₁ e es₂ he => absurd he (by simp)
  | @step es new s s' l h hs ih =>
    intro es₁ e es₂ he
    rcases List.append_eq_append_iff.mp he with ⟨c, rfl, hnew⟩ | ⟨c, rfl, hc⟩
    · exact hstep _ _ _ _ _ h hs c e es₂ hnew
    · cases c with
      | nil =>
        rw [List.nil_append] at hc
        simpa using hstep _ _ _ _ _ h hs [] e es₂ hc.symm
      | cons x c =>
        cases hc
        exact ih es₁ e c rfl

end

/-! ### Every state of a run -/

section
variable {σ ℓ ε : Type} {A : Automaton σ ℓ ε}

/-- **Some run takes `s₀` to `s`**, with these steps: the state before each, and its label. -/
inductive Steps (A : Automaton σ ℓ ε) (s₀ : σ) : List (σ × ℓ) → σ → Prop where
  | refl : Steps A s₀ [] s₀
  | step {tr : List (σ × ℓ)} {s s' : σ} {l : ℓ} {new : List ε} (h : Steps A s₀ tr s)
      (hs : A.step s l = some (s', new)) : Steps A s₀ (tr ++ [(s, l)]) s'

variable {s₀ s : σ} {tr : List (σ × ℓ)}

theorem Reaches.steps {es : List ε} (h : Reaches A s₀ es s) : ∃ tr, Steps A s₀ tr s := by
  induction h with
  | refl => exact ⟨[], .refl⟩
  | step _ hs ih =>
    obtain ⟨tr, htr⟩ := ih
    exact ⟨_, htr.step hs⟩

/-- What is observed of steps. -/
def Automaton.observed (A : Automaton σ ℓ ε) (tr : List (σ × ℓ)) : List ε :=
  tr.flatMap fun x => ((A.step x.1 x.2).map Prod.snd).getD []

theorem observed_concat {s' : σ} {l : ℓ} {new : List ε} (hs : A.step s l = some (s', new)) :
    A.observed (tr ++ [(s, l)]) = A.observed tr ++ new := by
  unfold Automaton.observed
  rw [List.flatMap_append, List.flatMap_singleton, hs]
  rfl

theorem Steps.reaches_observed (h : Steps A s₀ tr s) : Reaches A s₀ (A.observed tr) s := by
  induction h with
  | refl => exact .refl
  | step _ hs ih =>
    rw [observed_concat hs]
    exact ih.step hs

theorem Steps.reaches (h : Steps A s₀ tr s) : ∃ es, Reaches A s₀ es s := ⟨_, h.reaches_observed⟩

/-- **All states of a run are good exactly when all its steps are fine**, if a step from a good
state leads to a good state exactly when it is fine. -/
theorem Steps.always_iff {good : σ → Prop} {fine : σ → ℓ → Prop} (h₀ : good s₀)
    (hstep : ∀ es s l s' new, Reaches A s₀ es s → good s → A.step s l = some (s', new) →
      (good s' ↔ fine s l))
    (h : Steps A s₀ tr s) :
    (∀ x ∈ tr, good x.1) ∧ good s ↔ ∀ x ∈ tr, fine x.1 x.2 := by
  induction h with
  | refl => simpa using h₀
  | @step tr s s' l new h hs ih =>
    obtain ⟨es, hes⟩ := h.reaches
    have hlast : ∀ q : σ × ℓ → Prop, (∀ x ∈ tr ++ [(s, l)], q x) ↔ (∀ x ∈ tr, q x) ∧ q (s, l) := by
      intro q
      rw [List.forall_mem_append, List.forall_mem_singleton]
    rw [hlast, hlast, ← ih]
    exact and_congr_right fun hgood => hstep es s l s' new hes hgood.2 hs

/-- **An invariant relates the steps of a run to its state.** -/
theorem Steps.keeps {I : List (σ × ℓ) → σ → Prop} (h₀ : I [] s₀)
    (hstep : ∀ tr s l s' new, Steps A s₀ tr s → I tr s → A.step s l = some (s', new) →
      I (tr ++ [(s, l)]) s') (h : Steps A s₀ tr s) : I tr s := by
  induction h with
  | refl => exact h₀
  | step h hs ih => exact hstep _ _ _ _ _ h ih hs

theorem Steps.trans {s' : σ} {tr' : List (σ × ℓ)} (h : Steps A s₀ tr s) (h' : Steps A s tr' s') :
    Steps A s₀ (tr ++ tr') s' := by
  induction h' with
  | refl => exact (List.append_nil tr).symm ▸ h
  | step _ hs ih => exact List.append_assoc _ _ _ ▸ ih.step hs

/-- **All along a run**, at its end and wherever it has been before, `good` holds of the steps made
so far and the state reached. -/
def Throughout (good : List (σ × ℓ) → σ → Prop) (tr : List (σ × ℓ)) (s : σ) : Prop :=
  good tr s ∧ ∀ tr₁ x tr₂, tr = tr₁ ++ x :: tr₂ → good tr₁ x.1

/-- **All along a run**, `fine` holds of each step and the steps made before it. -/
def Each (fine : List (σ × ℓ) → σ × ℓ → Prop) (tr : List (σ × ℓ)) : Prop :=
  ∀ tr₁ x tr₂, tr = tr₁ ++ x :: tr₂ → fine tr₁ x

theorem each_nil {fine : List (σ × ℓ) → σ × ℓ → Prop} : Each fine [] :=
  fun tr₁ x tr₂ htr => absurd htr (by simp)

theorem each_concat {fine : List (σ × ℓ) → σ × ℓ → Prop} {x : σ × ℓ} :
    Each fine (tr ++ [x]) ↔ Each fine tr ∧ fine tr x := by
  constructor
  · intro h
    refine ⟨fun tr₁ y tr₂ htr => ?_, h tr x [] rfl⟩
    exact h tr₁ y (tr₂ ++ [x]) (by rw [htr]; simp)
  · rintro ⟨h, hlast⟩ tr₁ y tr₂ htr
    rcases List.append_eq_append_iff.mp htr with ⟨c, rfl, hc⟩ | ⟨c, hc, hx⟩
    · cases c with
      | nil =>
        cases hc
        rw [List.append_nil]
        exact hlast
      | cons z c => simp at hc
    · cases c with
      | nil =>
        rw [List.append_nil] at hc
        cases hx
        exact hc ▸ hlast
      | cons z c =>
        cases hx
        exact h tr₁ y c hc

/-- Where the steps made before do not matter. -/
theorem each_iff {p : σ × ℓ → Prop} : Each (fun _ x => p x) tr ↔ ∀ x ∈ tr, p x := by
  constructor
  · intro h x hx
    obtain ⟨tr₁, tr₂, rfl⟩ := List.append_of_mem hx
    exact h tr₁ x tr₂ rfl
  · intro h tr₁ x tr₂ htr
    exact h x (htr ▸ List.mem_append_right _ List.mem_cons_self)

theorem throughout_concat {good : List (σ × ℓ) → σ → Prop} {l : ℓ} {s' : σ} :
    Throughout good (tr ++ [(s, l)]) s' ↔ Throughout good tr s ∧ good (tr ++ [(s, l)]) s' := by
  have h : Each (fun tr x => good tr x.1) (tr ++ [(s, l)]) ↔ _ := each_concat
  exact (and_congr_right' h).trans (and_comm.trans (and_congr_left' and_comm))

/-- **A run is good throughout exactly when each of its steps is fine**, if a step of a run that has
been good leaves it good exactly when it is fine. -/
theorem Steps.throughout_iff_each {good : List (σ × ℓ) → σ → Prop}
    {fine : List (σ × ℓ) → σ × ℓ → Prop} (h₀ : good [] s₀)
    (hstep : ∀ tr s l s' new, Steps A s₀ tr s → good tr s → A.step s l = some (s', new) →
      (good (tr ++ [(s, l)]) s' ↔ fine tr (s, l)))
    (h : Steps A s₀ tr s) : Throughout good tr s ↔ Each fine tr := by
  induction h with
  | refl => exact iff_of_true ⟨h₀, each_nil⟩ each_nil
  | @step tr s s' l new h hs ih =>
    rw [throughout_concat, each_concat, ← ih]
    exact and_congr_right fun hgood => hstep tr s l s' new h hgood.1 hs

/-- The same where the steps made before do not matter. -/
theorem Steps.throughout_iff {good : List (σ × ℓ) → σ → Prop} {fine : σ → ℓ → Prop}
    (h₀ : good [] s₀)
    (hstep : ∀ tr s l s' new, Steps A s₀ tr s → good tr s → A.step s l = some (s', new) →
      (good (tr ++ [(s, l)]) s' ↔ fine s l))
    (h : Steps A s₀ tr s) : Throughout good tr s ↔ ∀ x ∈ tr, fine x.1 x.2 := by
  have heach : Throughout good tr s ↔ Each (fun _ x => fine x.1 x.2) tr :=
    h.throughout_iff_each h₀ hstep
  exact heach.trans each_iff

end

/-! ### A part of a system -/

section
variable {σ ℓ ε τ κ δ : Type} {A : Automaton σ ℓ ε} {B : Automaton τ κ δ}

/-- **`B` is a part of `A`**: seen through `f` and `g`, a step of `A` is a step of `B` or leaves it
alone. -/
structure Part (A : Automaton σ ℓ ε) (B : Automaton τ κ δ) (f : σ → τ) (g : ε → Option δ) :
    Prop where
  step : ∀ s l s' new, A.step s l = some (s', new) →
    (f s' = f s ∧ new.filterMap g = []) ∨ ∃ k, B.step (f s) k = some (f s', new.filterMap g)

theorem Part.reaches {f : σ → τ} {g : ε → Option δ} (hp : Part A B f g) {s₀ s : σ} {es : List ε}
    (h : Reaches A s₀ es s) : Reaches B (f s₀) (es.filterMap g) (f s) := by
  induction h with
  | refl => exact .refl
  | @step es new s s' l _ hs ih =>
    rw [List.filterMap_append]
    rcases hp.step _ _ _ _ hs with ⟨hf, hg⟩ | ⟨k, hk⟩
    · rw [hg, List.append_nil, hf]
      exact ih
    · exact ih.step hk

end

end CodeHive.Concurrency.Interleaving
