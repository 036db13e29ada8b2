import Mathlib.Algebra.Ring.Nat
import Mathlib.Data.List.Nodup
import Mathlib.Data.List.Perm.Basic

/-! # Slots

A list of slots, each of which may hold something: how what is held changes when one slot does, or
when a slot is added. -/

namespace CodeHive.Lists.Slots

set_option autoImplicit false

section
variable {α β : Type} {l : List α} {i : ℕ} {x : α}

/-- What is held is found by what holds it. -/
theorem mem_filterMap_iff {f : α → Option β} {g : β → α} (hf : ∀ a b, f a = some b ↔ a = g b)
    {b : β} : b ∈ l.filterMap f ↔ g b ∈ l := by
  rw [List.mem_filterMap]
  constructor
  · rintro ⟨a, ha, hb⟩
    exact (hf a b).mp hb ▸ ha
  · exact fun hb => ⟨g b, hb, (hf _ _).mpr rfl⟩

/-- What one more slot adds. -/
theorem filterMap_concat (f : α → Option β) (l : List α) (x : α) :
    (l ++ [x]).filterMap f = l.filterMap f ++ (f x).toList := by
  rw [List.filterMap_append]
  cases h : f x <;> simp [h]

/-- **One slot changes from `x` to `y`**: what `x` holds is taken out, what `y` holds is put in. -/
theorem perm_filterMap_set (f : α → Option β) (h : l[i]? = some x) (y : α) :
    ((f x).toList ++ (l.set i y).filterMap f).Perm ((f y).toList ++ l.filterMap f) := by
  obtain ⟨hi, rfl⟩ := List.getElem?_eq_some_iff.mp h
  have hcons : ∀ a, (a :: l.eraseIdx i).filterMap f =
      (f a).toList ++ (l.eraseIdx i).filterMap f := by
    intro a
    rw [List.filterMap_cons]
    cases f a <;> rfl
  have hset := (List.set_perm_cons_eraseIdx hi y).filterMap f
  have hl := (List.getElem_cons_eraseIdx_perm hi).filterMap f
  rw [hcons] at hset hl
  calc (f l[i]).toList ++ (l.set i y).filterMap f
      _ |>.Perm ((f l[i]).toList ++ ((f y).toList ++ (l.eraseIdx i).filterMap f)) :=
        hset.append_left _
      _ |>.Perm ((f y).toList ++ ((f l[i]).toList ++ (l.eraseIdx i).filterMap f)) := by
        rw [← List.append_assoc, ← List.append_assoc]
        exact List.perm_append_comm.append_right _
      _ |>.Perm ((f y).toList ++ l.filterMap f) := hl.append_left _

/-- One more of `l` is held. -/
theorem perm_grow {l held held' rest : List α} (h : l.Perm (held ++ rest))
    (hx : held'.Perm (x :: held)) : (l ++ [x]).Perm (held' ++ rest) := by
  calc l ++ [x]
      _ |>.Perm (x :: l) := List.perm_append_singleton _ _
      _ |>.Perm (x :: (held ++ rest)) := h.cons _
      _ |>.Perm (held' ++ rest) := hx.symm.append_right _

/-- What was held moves on to the end of another list. -/
theorem perm_move {l held held' rest : List α} (h : l.Perm (held ++ rest))
    (hx : (x :: held').Perm held) : l.Perm (held' ++ (rest ++ [x])) := by
  calc l
      _ |>.Perm (held ++ rest) := h
      _ |>.Perm ((x :: held') ++ rest) := hx.symm.append_right _
      _ |>.Perm ((held' ++ rest) ++ [x]) := (List.perm_append_singleton _ _).symm
      _ |>.Perm (held' ++ (rest ++ [x])) := .of_eq (List.append_assoc _ _ _)

/-- A slot that is as good as before changes nothing. -/
theorem filterMap_set_of_eq (f : α → Option β) (h : l[i]? = some x) {y : α} (hxy : f y = f x) :
    (l.set i y).filterMap f = l.filterMap f := by
  induction l generalizing i with
  | nil => cases h
  | cons a l ih =>
    cases i with
    | zero =>
      rw [List.getElem?_cons_zero, Option.some.injEq] at h
      rw [List.set_cons_zero, List.filterMap_cons, List.filterMap_cons, h, hxy]
    | succ i => rw [List.set_cons_succ, List.filterMap_cons, List.filterMap_cons, ih h]

/-- What the slots weigh together, when one of them changes. -/
theorem sum_map_set (f : α → ℕ) (h : l[i]? = some x) (y : α) :
    ((l.set i y).map f).sum + f x = (l.map f).sum + f y := by
  induction l generalizing i with
  | nil => cases h
  | cons a l ih =>
    cases i with
    | zero =>
      rw [List.getElem?_cons_zero, Option.some.injEq] at h
      rw [List.set_cons_zero, List.map_cons, List.map_cons, List.sum_cons, List.sum_cons, h]
      omega
    | succ i =>
      have hrest := ih (i := i) h
      rw [List.set_cons_succ, List.map_cons, List.map_cons, List.sum_cons, List.sum_cons]
      omega

/-- What a slot holds is found. -/
theorem mem_filterMap_of_getElem? (f : α → Option β) (h : l[i]? = some x) {b : β}
    (hb : f x = some b) : b ∈ l.filterMap f :=
  List.mem_filterMap.mpr ⟨x, List.mem_of_getElem? h, hb⟩

/-- What is held once is held in one slot. -/
theorem eq_of_nodup_filterMap (f : α → Option β) (hl : (l.filterMap f).Nodup) {k : ℕ} {y : α} {b : β}
    (hi : l[i]? = some x) (hk : l[k]? = some y) (hx : f x = some b) (hy : f y = some b) :
    i = k := by
  induction l generalizing i k with
  | nil => cases hi
  | cons a l ih =>
    rw [List.filterMap_cons] at hl
    cases i with
    | zero =>
      cases k with
      | zero => rfl
      | succ k =>
        obtain rfl : a = x := Option.some.inj hi
        simp only [hx, List.nodup_cons] at hl
        have hk' : l[k]? = some y := hk
        exact absurd (mem_filterMap_of_getElem? f hk' hy) hl.1
    | succ i =>
      have hl' : (l.filterMap f).Nodup := by
        cases ha : f a with
        | none => simpa only [ha] using hl
        | some c => simp only [ha, List.nodup_cons] at hl; exact hl.2
      cases k with
      | zero =>
        obtain rfl : a = y := Option.some.inj hk
        simp only [hy, List.nodup_cons] at hl
        have hi' : l[i]? = some x := hi
        exact absurd (mem_filterMap_of_getElem? f hi' hx) hl.1
      | succ k => exact congrArg _ (ih hl' hi hk)

/-- A slot of the changed list is the new one or an old one. -/
theorem getElem?_set_cases {y z : α} {k : ℕ} (h : (l.set i y)[k]? = some z) :
    (k ≠ i ∧ l[k]? = some z) ∨ (k = i ∧ z = y) := by
  rw [List.getElem?_set] at h
  split at h
  · next hik =>
    split at h
    · exact Or.inr ⟨hik.symm, (Option.some.inj h).symm⟩
    · cases h
  · next hik => exact Or.inl ⟨fun h' => hik h'.symm, h⟩

/-- A slot that is changed is there, and the others are as before. -/
theorem getElem?_set_keeps {y z : α} {k : ℕ} (h : l[i]? = some x) (hk : l[k]? = some z) :
    (l.set i y)[k]? = some z ∨ (k = i ∧ (l.set i y)[k]? = some y) := by
  by_cases hik : i = k
  · subst hik
    exact Or.inr ⟨rfl, List.getElem?_set_self (List.getElem?_eq_some_iff.mp h).1⟩
  · exact Or.inl (by rw [List.getElem?_set_ne hik]; exact hk)

/-- A slot is overwritten, and the list grows. -/
theorem getElem?_set_concat {y z : α} (h : l[i]? = some x) : (l.set i y ++ [z])[i]? = some y := by
  have hlt := (List.getElem?_eq_some_iff.mp h).1
  rw [List.getElem?_append_left (by rw [List.length_set]; exact hlt)]
  exact List.getElem?_set_self hlt

/-- A slot of the longer list is an old one or the last. -/
theorem getElem?_concat_cases {y : α} {k : ℕ} (h : (l ++ [x])[k]? = some y) :
    l[k]? = some y ∨ (k = l.length ∧ y = x) := by
  rcases Nat.lt_trichotomy k l.length with hlt | rfl | hgt
  · rw [List.getElem?_append_left hlt] at h
    exact Or.inl h
  · simp only [List.getElem?_concat_length, Option.some.injEq] at h
    exact Or.inr ⟨rfl, h.symm⟩
  · rw [List.getElem?_eq_none (by simp; omega)] at h
    cases h

/-! ### Keys -/

/-- Keys that are each found at most once are distinct. -/
theorem nodup_keys {κ γ : Type} [DecidableEq κ] {f : α → Option (κ × β)} {g : κ → α → Option γ}
    (hfg : ∀ a k b, f a = some (k, b) → (g k a).isSome)
    (hone : ∀ k, (l.filterMap (g k)).length ≤ 1) : ((l.filterMap f).map Prod.fst).Nodup := by
  refine List.nodup_iff_count_le_one.mpr fun k => Nat.le_trans ?_ (hone k)
  rw [List.map_filterMap, List.count_filterMap, List.length_filterMap_eq_countP]
  refine List.countP_mono_left fun a _ ha => ?_
  obtain ⟨⟨k', b⟩, hf, rfl⟩ := Option.map_eq_some_iff.mp (eq_of_beq ha)
  exact hfg a _ b hf

/-- Where the keys are distinct, the values are distinct exactly where no value has two keys. -/
theorem nodup_values_iff {κ : Type} {m : List (κ × β)} (h : (m.map Prod.fst).Nodup) :
    (m.map Prod.snd).Nodup ↔ ∀ k k' b, (k, b) ∈ m → (k', b) ∈ m → k = k' := by
  constructor
  · intro hv k k' b hk hk'
    exact congrArg Prod.fst (List.inj_on_of_nodup_map hv hk hk' rfl)
  · intro hk
    refine List.Nodup.map_on (fun x hx y hy hxy => ?_) (List.Nodup.of_map _ h)
    obtain ⟨k, b⟩ := x
    obtain ⟨k', b'⟩ := y
    cases hxy
    rw [hk k k' b hx hy]

end

end CodeHive.Lists.Slots
