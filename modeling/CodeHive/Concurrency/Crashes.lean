import CodeHive.Concurrency.RelyGuarantee

/-! # Crashes

A process may go down at any point. The calls that have not settled are lost with it, and of the
state there remains what is kept outside of the process; the next process goes on from there. What
is proved of every single call without regard to crashes holds through them, for all calls but the
lost ones. -/

namespace CodeHive.Concurrency.Crashes

set_option autoImplicit false

open CodeHive.Concurrency.Calls CodeHive.Concurrency.Pool CodeHive.Concurrency.RelyGuarantee

variable {S : Sig} {τ ρ : Type} {sys : System S τ ρ}

/-- What a crash leaves of a call: one that had not settled counts as `lost`. -/
def fell (lost : ρ) : Thread S τ ρ → Thread S τ ρ
  | .done r => .done r
  | _ => .done lost

/-- **The process goes down** and the next one starts; `keep` is what remains of the state. -/
def crash (lost : ρ) (keep : sys.State → sys.State) (c : Config sys) : Config sys where
  world := ⟨keep c.world.state, c.world.log⟩
  pool := c.pool.map fun x => (x.1, fell lost x.2)
  running := none

/-- `c` is reached from `c₀` by steps of the system and crashes. -/
inductive Endures (lost : ρ) (keep : sys.State → sys.State) (c₀ : Config sys) :
    Config sys → Prop where
  | refl : Endures lost keep c₀ c₀
  | step {c c' : Config sys} {l : Label τ sys.Input} (h : Endures lost keep c₀ c)
      (hs : c.step l = some c') : Endures lost keep c₀ c'
  | crash {c : Config sys} (h : Endures lost keep c₀ c) :
      Endures lost keep c₀ (crash lost keep c)

section
variable {lost : ρ} {keep : sys.State → sys.State} {c₀ c c' : Config sys}

theorem Endures.reaches (h : Endures lost keep c₀ c) (hr : Reaches (AnyStep sys) c c') :
    Endures lost keep c₀ c' := by
  induction hr with
  | refl => exact h
  | step _ _ hs ih => exact ih.step hs

theorem crash_getElem? {t : ℕ} {a : Actor τ} {p : Thread S τ ρ}
    (h : (crash lost keep c).pool[t]? = some (a, p)) :
    ∃ q, c.pool[t]? = some (a, q) ∧ p = fell lost q := by
  unfold crash at h
  rw [List.getElem?_map, Option.map_eq_some_iff] at h
  obtain ⟨⟨b, q⟩, hq, he⟩ := h
  cases he
  exact ⟨q, hq, rfl⟩

theorem Wf.crash (h : Wf c) : Wf (crash lost keep c) where
  tid t a p hp := by
    obtain ⟨q, hq, -⟩ := crash_getElem? hp
    exact h.tid t a q hq
  born t a p hp := by
    obtain ⟨q, hq, -⟩ := crash_getElem? hp
    exact h.born t a q hq
  log e he := by
    obtain ⟨q, hq⟩ := h.log e he
    refine ⟨fell lost q, ?_⟩
    show (c.pool.map fun x => (x.1, fell lost x.2))[e.actor.tid]? = _
    rw [List.getElem?_map, hq]
    rfl
  since := h.since
  running t ht := by cases ht

/-! ### Specifications -/

/-- **The specification of calls that may be lost.** -/
def mortal (lost : ρ) (sp : Spec sys) : Spec sys :=
  { sp with post := fun a r w => r = lost ∨ sp.post a r w }

variable {sp : Spec sys}

theorem Safe.mortal {p : Thread S τ ρ} {a : Actor τ} {w : World sys.toMachine τ}
    (h : Safe sp p a w) : Safe (mortal lost sp) p a w := by
  induction p generalizing a w with
  | done r => exact fun w' hr hi => .inr (h w' hr hi)
  | op o k ih =>
    obtain ⟨hg, hk⟩ := safe_op.mp h
    refine ⟨hg, fun i r w' ha hf => ?_⟩
    obtain ⟨hi, hr, hsafe⟩ := hk i r w' ha hf
    exact ⟨hi, hr, ih r hsafe⟩
  | yield p ih => exact fun w' hr hi => ih (h w' hr hi)
  | fork tag child p ihc ihp =>
    intro b hb htag
    obtain ⟨hchild, hcont⟩ := h b hb htag
    exact ⟨fun w' hr hi => ihc (hchild w' hr hi), ihp hcont⟩

theorem entries_mortal (h : Entries sp) : Entries (mortal lost sp) :=
  fun tag p hp b w htag hi hnew => Safe.mortal (h tag p hp b w htag hi hnew)

/-- **A crash keeps the specification**, if what it does to the state does. -/
theorem ok_crash (h : Ok (mortal lost sp) c) (hinv : ∀ w, sp.inv w → sp.inv ⟨keep w.state, w.log⟩)
    (hrely : ∀ t w, sp.rely t w ⟨keep w.state, w.log⟩) :
    Ok (mortal lost sp) (crash lost keep c) where
  wf := Wf.crash h.wf
  inv := hinv _ h.inv
  safe t a p hp := by
    obtain ⟨q, hq, rfl⟩ := crash_getElem? hp
    cases q with
    | done r =>
      intro w hr hi
      have hdone := safe_done.mp (h.safe t a _ hq)
      exact hdone w (sp.rely_trans _ _ _ _ (hrely _ _) hr) hi
    | op o k => exact fun _ _ _ => .inl rfl
    | yield q => exact fun _ _ _ => .inl rfl
    | fork tag child q => exact fun _ _ _ => .inl rfl
  idle t a p hp _ := by
    obtain ⟨q, -, rfl⟩ := crash_getElem? hp
    cases q <;> trivial

/-- **Soundness through crashes.** -/
theorem Endures.ok (hent : Entries sp) (hall : ∀ a w o, sp.assume a w o)
    (hinv : ∀ w, sp.inv w → sp.inv ⟨keep w.state, w.log⟩)
    (hrely : ∀ t w, sp.rely t w ⟨keep w.state, w.log⟩) (h₀ : Ok (mortal lost sp) c₀)
    (h : Endures lost keep c₀ c) : Ok (mortal lost sp) c := by
  induction h with
  | refl => exact h₀
  | step _ hs ih =>
    exact ih.step (entries_mortal hent) (fun t a o k i _ _ _ => hall a _ o) hs
  | crash _ ih => exact ok_crash ih hinv hrely

/-- What a call has achieved that was not lost. -/
theorem post_of_ok (h : Ok (mortal lost sp) c) {t : ℕ} {a : Actor τ} {r : ρ}
    (ht : c.pool[t]? = some (a, .done r)) (hr : r ≠ lost) : sp.post a r c.world :=
  h.post ht |>.resolve_left hr

/-- **A property of the world that the primitives keep** is kept through crashes. -/
theorem Endures.keeps {J : World sys.toMachine τ → Prop}
    (hok : ∀ c, Endures lost keep c₀ c → Ok (mortal lost sp) c) (hJ : J c₀.world)
    (hstart : ∀ w a, J w → J (w.start a)) (hkeep : ∀ w, J w → J ⟨keep w.state, w.log⟩)
    (hop : ∀ a w o i r w', sp.inv w → sp.guar a w o → J w → w.fire a o i = some (r, w') → J w')
    (h : Endures lost keep c₀ c) : J c.world := by
  induction h with
  | refl => exact hJ
  | crash _ ih => exact hkeep _ ih
  | @step c₁ c₂ l h₁ hs ih =>
    have hok₁ := hok c₁ h₁
    cases stepped_of_step hs with
    | arrive hrun hp => exact hstart _ _ ih
    | resume hrun hp => exact ih
    | fork hrun hp => exact hstart _ _ ih
    | pause hrun hp hsus => exact ih
    | @op t a o k i r w hrun hp hf =>
      exact hop a c₁.world o i r w hok₁.inv (hok₁.guar hp) ih hf

end

end CodeHive.Concurrency.Crashes
