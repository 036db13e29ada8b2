import Mathlib.Data.List.AList
import Mathlib.Data.List.Basic

/-! # Channels, `sync.Once`, `sync.WaitGroup` and `sync.Map`

Each operation is one atomic step; `none` where the goroutine that calls it blocks. -/

namespace CodeHive.Go.Sync

set_option autoImplicit false

/-! ### Channels -/

/-- A buffered channel: what is in it, oldest first, and how much fits. -/
structure Chan (α : Type) where
  cap : ℕ
  buf : List α
  bounded : buf.length ≤ cap

section
variable {α : Type}

/-- `make(chan α, cap)`. -/
def Chan.make (cap : ℕ) : Chan α := ⟨cap, [], Nat.zero_le cap⟩

/-- `c <- x` blocks while the buffer is full. -/
def Chan.send (c : Chan α) (x : α) : Option (Chan α) :=
  if h : c.buf.length < c.cap then
    some ⟨c.cap, c.buf ++ [x], by rw [List.length_append]; exact h⟩
  else none

/-- `<-c` blocks while the buffer is empty. -/
def Chan.recv (c : Chan α) : Option (α × Chan α) :=
  match h : c.buf with
  | [] => none
  | x :: rest => some (x, ⟨c.cap, rest, Nat.le_of_succ_le (by simpa [h] using c.bounded)⟩)

variable {c c' : Chan α} {x : α}

theorem Chan.buf_of_send (h : c.send x = some c') : c'.buf = c.buf ++ [x] := by
  unfold Chan.send at h
  split at h
  · exact (Option.some.inj h) ▸ rfl
  · cases h

theorem Chan.buf_of_recv (h : c.recv = some (x, c')) : c.buf = x :: c'.buf := by
  unfold Chan.recv at h
  split at h
  · cases h
  · next hb => cases h; exact hb

theorem Chan.cap_of_send (h : c.send x = some c') : c'.cap = c.cap := by
  unfold Chan.send at h
  split at h
  · exact (Option.some.inj h) ▸ rfl
  · cases h

theorem Chan.cap_of_recv (h : c.recv = some (x, c')) : c'.cap = c.cap := by
  unfold Chan.recv at h
  split at h
  · cases h
  · cases h; rfl

theorem Chan.send_eq_none : c.send x = none ↔ c.buf.length = c.cap := by
  have hle := c.bounded
  unfold Chan.send
  split
  · next hlt => exact iff_of_false (Option.some_ne_none _) (Nat.ne_of_lt hlt)
  · next hge => exact iff_of_true rfl (by omega)

theorem Chan.recv_eq_none : c.recv = none ↔ c.buf = [] := by
  unfold Chan.recv
  split
  · next h => exact iff_of_true rfl h
  · next h => exact iff_of_false (Option.some_ne_none _) (by rw [h]; exact List.cons_ne_nil _ _)

end

/-! ### `sync.Once` -/

/-- Where a `sync.Once` is: its function has not been called, is running, or has returned. -/
inductive Once where
  | fresh
  | running
  | done
  deriving DecidableEq

/-! ### `sync.Map` with strings as keys -/

abbrev Map (α : Type) := AList fun _ : String => α

section
variable {α : Type}

def Map.Load (m : Map α) (key : String) : Option α := m.lookup key

def Map.Store (m : Map α) (key : String) (value : α) : Map α := m.insert key value

theorem Map.Load_Store (m : Map α) (key key' : String) (value : α) :
    (m.Store key value).Load key' = if key' = key then some value else m.Load key' := by
  unfold Map.Store Map.Load
  split
  · next h => rw [h, AList.lookup_insert]
  · next h => rw [AList.lookup_insert_ne h]

/-- What `Range` visits: every key once with its value, in no particular order. -/
def Map.Visits (m : Map α) (visited : List (String × α)) : Prop :=
  visited.Perm (m.entries.map fun e => (e.1, e.2))

instance [DecidableEq α] (m : Map α) (visited : List (String × α)) :
    Decidable (m.Visits visited) :=
  inferInstanceAs (Decidable (visited.Perm (m.entries.map fun e => (e.1, e.2))))

theorem Map.perm_keys {m : Map α} {visited : List (String × α)} (h : m.Visits visited) :
    (visited.map Prod.fst).Perm m.keys := by
  have hmap := h.map Prod.fst
  rwa [List.map_map] at hmap

end

end CodeHive.Go.Sync
