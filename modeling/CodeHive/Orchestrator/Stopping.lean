import CodeHive.Orchestrator.JobFlow

/-! # Stopping the dispatcher

`Stop` returns when every worker loop has ended, and an ended loop never starts again. -/

namespace CodeHive.Orchestrator.Stopping

set_option autoImplicit false

open CodeHive.Concurrency.Interleaving CodeHive.Go.Sync CodeHive.Lists.Slots
open CodeHive.Orchestrator.Types CodeHive.Orchestrator.Runner CodeHive.Orchestrator.JobFlow

/-- The loop has not ended. -/
def aliveOf : Loop → Option Unit
  | .exited => none
  | _ => some ()

/-- The loops that have not ended. -/
def alive (s : State) : List Unit := s.loops.filterMap aliveOf

/-- **What the wait group counts, and what a call of `Stop` that has returned knows.** -/
structure Halting (s : State) : Prop where
  wg : s.d.wg = (alive s).length
  done : s.d.stopOnce = .done → alive s = []
  returned : ∀ k : ℕ, s.stops[k]? = some .returned → s.d.stopOnce = .done

section
variable {s s' : State} {new : List Event}

theorem Halting.start (n : ℕ) : Halting (start n) where
  wg := by
    have hall : (alive (Runner.start n)).length = n := by
      rw [alive, List.length_filterMap_eq_countP, Runner.start, Dispatcher.Start]
      simp [NewDispatcher, aliveOf, List.countP_replicate]
    rw [hall]
    exact Nat.zero_add n
  done h := by cases h
  returned _ h := by cases h

/-- A move that is none of `Stop`, and ends no loop. -/
theorem Halting.keep (h : Halting s) (hwg : s'.d.wg = s.d.wg)
    (honce : s'.d.stopOnce = s.d.stopOnce) (hstops : s'.stops = s.stops)
    (hloops : alive s' = alive s) : Halting s' where
  wg := by rw [hwg, hloops]; exact h.wg
  done := by rw [honce, hloops]; exact h.done
  returned := by rw [honce, hstops]; exact h.returned

theorem Halting.exit (h : Halting s) {i : ℕ} (hi : s.loops[i]? = some .stopping) :
    Halting ({ s with d := { s.d with wg := s.d.wg - 1 } }.goto i .exited) := by
  have hperm : (() :: alive (s.goto i .exited)).Perm (alive s) :=
    perm_filterMap_set aliveOf hi .exited
  refine ⟨?_, fun hd => ?_, h.returned⟩
  · have hlen := hperm.length_eq
    have hwg := h.wg
    rw [List.length_cons] at hlen
    change s.d.wg - 1 = (alive (s.goto i .exited)).length
    omega
  · rw [h.done hd] at hperm
    exact absurd hperm.length_eq (by simp)

theorem Halting.move (h : Halting s) (hm : Move s s' new) : Halting s' := by
  cases hm with
  | send hjob hq => exact h.keep rfl rfl rfl rfl
  | receive hc hr => exact h.keep rfl rfl rfl rfl
  | dequeue hq => exact h.keep rfl rfl rfl rfl
  | take hi hq => exact h.keep rfl rfl rfl (filterMap_set_of_eq _ hi rfl)
  | execute hi => exact h.keep rfl rfl rfl (filterMap_set_of_eq _ hi rfl)
  | executed out elapsed now hi hj => exact h.keep rfl rfl rfl (filterMap_set_of_eq _ hi rfl)
  | result hi hj hc hs => exact h.keep rfl rfl rfl (filterMap_set_of_eq _ hi rfl)
  | finish hi => exact h.keep rfl rfl rfl (filterMap_set_of_eq _ hi rfl)
  | seeStop hi hstop => exact h.keep rfl rfl rfl (filterMap_set_of_eq _ hi rfl)
  | exit hi => exact h.exit hi
  | callStop =>
    refine ⟨h.wg, h.done, fun k hk => ?_⟩
    rcases getElem?_concat_cases hk with hk | ⟨-, hk⟩
    · exact h.returned k hk
    · cases hk
  | close hk honce =>
    refine ⟨h.wg, fun hd => (by cases hd), fun k' hk' => ?_⟩
    rcases getElem?_set_cases hk' with ⟨-, hk'⟩ | ⟨-, hk'⟩
    · have hd := h.returned k' hk'
      rw [honce] at hd
      cases hd
    · cases hk'
  | returned hk honce => exact ⟨h.wg, h.done, fun _ _ => honce⟩
  | waited hk hwg => exact ⟨h.wg, fun _ => List.eq_nil_of_length_eq_zero (h.wg.symm.trans hwg),
      fun _ _ => rfl⟩
  | record results heartbeats => exact h.keep rfl rfl rfl rfl

theorem not_mem_alive (hs : alive s = []) {i : ℕ} {l : Loop} (hi : s.loops[i]? = some l)
    (hl : aliveOf l = some ()) : False := by
  have hmem := mem_filterMap_of_getElem? aliveOf hi hl
  rw [show s.loops.filterMap aliveOf = [] from hs] at hmem
  cases hmem

/-- Where every loop has ended nothing is executed, and no loop comes back. -/
theorem ended_move (hs : alive s = []) (hm : Move s s' new) :
    alive s' = [] ∧ executions new = [] := by
  cases hm with
  | send hjob hq => exact ⟨hs, rfl⟩
  | receive hc hr => exact ⟨hs, rfl⟩
  | dequeue hq => exact ⟨hs, rfl⟩
  | take hi hq => exact (not_mem_alive hs hi rfl).elim
  | execute hi => exact (not_mem_alive hs hi rfl).elim
  | executed out elapsed now hi hj => exact (not_mem_alive hs hi rfl).elim
  | result hi hj hc hr => exact (not_mem_alive hs hi rfl).elim
  | finish hi => exact (not_mem_alive hs hi rfl).elim
  | seeStop hi hstop => exact (not_mem_alive hs hi rfl).elim
  | exit hi => exact (not_mem_alive hs hi rfl).elim
  | callStop => exact ⟨hs, rfl⟩
  | close hk honce => exact ⟨hs, rfl⟩
  | returned hk honce => exact ⟨hs, rfl⟩
  | waited hk hwg => exact ⟨hs, rfl⟩
  | record results heartbeats => exact ⟨hs, rfl⟩

theorem executing_of_ended (hs : alive s = []) : executing s = [] := by
  refine List.filterMap_eq_nil_iff.mpr fun l hl => ?_
  have hnone := List.filterMap_eq_nil_iff.mp hs l hl
  cases l <;> first | rfl | cases hnone

/-- **Where every loop has ended, nothing is ever executed again.** -/
theorem ended_reaches (hs : alive s = []) {es : List Event} (h : Reaches runner s es s') :
    alive s' = [] ∧ executions es = [] := by
  refine keeps_of_moves (I := fun es s => alive s = [] ∧ executions es = []) ⟨hs, rfl⟩
    (fun _ _ _ _ _ h => h) (fun es s₁ s₂ new ⟨h₁, h₂⟩ hm => ?_) h
  obtain ⟨h₃, h₄⟩ := ended_move h₁ hm
  refine ⟨h₃, ?_⟩
  rw [executions, List.filterMap_append]
  exact List.append_eq_nil_iff.mpr ⟨h₂, h₄⟩

end

/-- In every run, a call of `Stop` that has returned has seen every loop end. -/
theorem halting {n : ℕ} {es : List Event} {s : State} (h : Reaches runner (start n) es s) :
    Halting s :=
  keeps_of_moves (I := fun _ s => Halting s) (.start n)
    (fun _ _ _ _ _ h => h.keep rfl rfl rfl rfl) (fun _ _ _ _ h hm => h.move hm) h

end CodeHive.Orchestrator.Stopping
