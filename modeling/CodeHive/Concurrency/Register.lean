import Mathlib.Data.List.Basic

/-! # Two updates of one register

A register is read and written by several parties. An update that reads it, computes a new value and
writes that back is not atomic: of two such updates that overlap, the one that writes first is lost
(`two_updates`). -/

namespace CodeHive.Concurrency.Register

set_option autoImplicit false

/-- A read that returns `x`, or a write of `x`, by party `t`. -/
inductive Access (α : Type) where
  | read (t : ℕ) (x : α)
  | write (t : ℕ) (x : α)

section
variable {α : Type}

def Access.tid : Access α → ℕ
  | .read t _ => t
  | .write t _ => t

/-- The party, if the access is a write. -/
def Access.writer : Access α → Option ℕ
  | .read _ _ => none
  | .write t _ => some t

/-- What belongs to party `t`. -/
def own {β : Type} (party : β → ℕ) (t : ℕ) (l : List β) : List β := l.filter (party · = t)

/-- The parties that write, in order. -/
def writers (l : List (Access α)) : List ℕ := l.filterMap Access.writer

/-- Party `t` is through with the register before `u` comes to it. -/
def Serial (t u : ℕ) (l : List (Access α)) : Prop := l.map Access.tid = [t, t, u, u]

/-- **The accesses take the register from `x` to `y`**: every read returns what it holds. -/
def Replays : List (Access α) → α → α → Prop
  | [], x, y => y = x
  | .read _ z :: l, x, y => z = x ∧ Replays l x y
  | .write _ z :: l, _, y => Replays l z y

variable {l l' : List (Access α)} {x y z : α} {t u : ℕ}

theorem replays_append : Replays (l ++ l') x z ↔ ∃ y, Replays l x y ∧ Replays l' y z := by
  induction l generalizing x with
  | nil => simp [Replays]
  | cons e l ih =>
    cases e with
    | read t r => simp only [List.cons_append, Replays, ih, and_assoc, exists_and_left]
    | write t r => simp only [List.cons_append, Replays, ih]

/-- Reads may be left out. -/
theorem Replays.filter (h : Replays l x y) {p : Access α → Bool}
    (hp : ∀ t z, .write t z ∈ l → p (.write t z) = true) : Replays (l.filter p) x y := by
  induction l generalizing x with
  | nil => exact h
  | cons e l ih =>
    have hp' : ∀ t z, .write t z ∈ l → p (.write t z) = true := fun t z hz =>
      hp t z (List.mem_cons_of_mem _ hz)
    cases e with
    | read t r =>
      rw [List.filter_cons]
      split
      · exact ⟨h.1, ih h.2 hp'⟩
      · exact ih h.2 hp'
    | write t r =>
      rw [List.filter_cons, if_pos (hp t r List.mem_cons_self)]
      exact ih (x := r) h hp'

/-! ### Interleavings -/

/-- The third list is an interleaving of the other two. -/
inductive Shuffle {β : Type} : List β → List β → List β → Prop where
  | nil : Shuffle [] [] []
  | left {a : β} {l₁ l₂ l : List β} (h : Shuffle l₁ l₂ l) : Shuffle (a :: l₁) l₂ (a :: l)
  | right {a : β} {l₁ l₂ l : List β} (h : Shuffle l₁ l₂ l) : Shuffle l₁ (a :: l₂) (a :: l)

theorem shuffle_own {β : Type} (party : β → ℕ) {l : List β} (htu : t ≠ u)
    (hall : ∀ e ∈ l, party e = t ∨ party e = u) : Shuffle (own party t l) (own party u l) l := by
  induction l with
  | nil => exact .nil
  | cons e l ih =>
    have ih := ih fun e' he' => hall e' (List.mem_cons_of_mem _ he')
    rcases hall e List.mem_cons_self with he | he
    · simpa [own, he, htu] using Shuffle.left (a := e) ih
    · simpa [own, he, Ne.symm htu] using Shuffle.right (a := e) ih

theorem Shuffle.nil_left {β : Type} {l₂ l : List β} (h : Shuffle [] l₂ l) : l = l₂ := by
  induction l₂ generalizing l with
  | nil => cases h; rfl
  | cons a l₂ ih =>
    cases h with
    | right h => rw [ih h]

theorem Shuffle.nil_right {β : Type} {l₁ l : List β} (h : Shuffle l₁ [] l) : l = l₁ := by
  induction l₁ generalizing l with
  | nil => cases h; rfl
  | cons a l₁ ih =>
    cases h with
    | left h => rw [ih h]

/-- The interleavings of two single elements, and of two pairs. -/
theorem shuffle_singles {β : Type} {a c : β} {l : List β} (h : Shuffle [a] [c] l) :
    l = [a, c] ∨ l = [c, a] := by
  cases h with
  | left h => simp [h.nil_left]
  | right h => simp [h.nil_right]

theorem shuffle_pairs {β : Type} {a b c d : β} {l : List β} (h : Shuffle [a, b] [c, d] l) :
    l = [a, b, c, d] ∨ l = [c, d, a, b] ∨ l = [a, c, b, d] ∨ l = [c, a, b, d] ∨ l = [a, c, d, b] ∨
      l = [c, a, d, b] := by
  cases h with
  | left h =>
    cases h with
    | left h => simp [h.nil_left]
    | right h =>
      cases h with
      | left h => simp [h.nil_left]
      | right h => simp [h.nil_right]
  | right h =>
    cases h with
    | left h =>
      cases h with
      | left h => simp [h.nil_left]
      | right h => simp [h.nil_right]
    | right h => simp [h.nil_right]

/-- **Two updates**, each a read and a write of what `f` and `g` make of the value read. Both take
effect where one is through before the other begins; else what the first writer does is lost. -/
theorem two_updates {f g : α → α} {r s : α} (htu : t ≠ u) (h : Replays l x y)
    (hall : ∀ e ∈ l, e.tid = t ∨ e.tid = u)
    (ht : own Access.tid t l = [.read t r, .write t (f r)])
    (hu : own Access.tid u l = [.read u s, .write u (g s)]) :
    (Serial t u l ∧ y = g (f x)) ∨ (Serial u t l ∧ y = f (g x)) ∨
      (¬ Serial t u l ∧ ¬ Serial u t l ∧ writers l = [t, u] ∧ y = g x) ∨
      (¬ Serial t u l ∧ ¬ Serial u t l ∧ writers l = [u, t] ∧ y = f x) := by
  have hshuffle := shuffle_own Access.tid htu hall
  rw [ht, hu] at hshuffle
  have hut : u ≠ t := Ne.symm htu
  rcases shuffle_pairs hshuffle with rfl | rfl | rfl | rfl | rfl | rfl <;>
    obtain ⟨rfl, rfl, rfl⟩ := h
  · exact Or.inl ⟨rfl, rfl⟩
  · exact Or.inr (Or.inl ⟨rfl, rfl⟩)
  · refine Or.inr (Or.inr (Or.inl ⟨?_, ?_, rfl, rfl⟩)) <;> simp [Serial, Access.tid, htu, hut]
  · refine Or.inr (Or.inr (Or.inl ⟨?_, ?_, rfl, rfl⟩)) <;> simp [Serial, Access.tid, htu, hut]
  · refine Or.inr (Or.inr (Or.inr ⟨?_, ?_, rfl, rfl⟩)) <;> simp [Serial, Access.tid, htu, hut]
  · refine Or.inr (Or.inr (Or.inr ⟨?_, ?_, rfl, rfl⟩)) <;> simp [Serial, Access.tid, htu, hut]

end

end CodeHive.Concurrency.Register
