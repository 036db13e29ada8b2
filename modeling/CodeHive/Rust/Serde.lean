import CodeHive.Js.Value
import Mathlib.Algebra.Ring.Int.Defs
import Mathlib.Data.List.AList

/-! # Derived serialization

What `serde_json` makes of a JSON tree for the types that a derived `Deserialize` is made of, and how
it writes them. Reading is `none` where `serde_json` reports an error; which error, and the limit on
the nesting, are left out. A number that is an integer is taken to be spelled as one. -/

namespace CodeHive.Rust.Serde

set_option autoImplicit false

open CodeHive.Js.Value

/-! ### Values -/

/-- `String`. -/
def string : Json → Option String := Json.string?

/-- `u64`. -/
def u64 : Json → Option UInt64
  | .num q => if q.den = 1 ∧ 0 ≤ q.num ∧ q.num < 2 ^ 64 then some (.ofNat q.num.toNat) else none
  | _ => none

/-- `Option<T>`. -/
def option {α : Type} (f : Json → Option α) : Json → Option (Option α)
  | .null => some none
  | v => (f v).map some

/-- `HashMap<String, String>`; of two equal keys the later one counts. -/
def stringMap : Json → Option (AList fun _ : String => String)
  | .obj fields => fields.foldlM (fun m f => (string f.2).map fun v => m.insert f.1 v) ∅
  | _ => none

/-- An enumeration of unit variants, by their names: a string, or an object whose one value is
`null`. -/
def unitEnum {α : Type} (variant : String → Option α) : Json → Option α
  | .str s => variant s
  | .obj [(s, .null)] => variant s
  | _ => none

/-! ### Structs -/

/-- A field of a struct is read into its slot; to read it twice is an error. -/
def fill {α : Type} (f : Json → Option α) (slot : Option α) (v : Json) : Option (Option α) :=
  match slot with
  | some _ => none
  | none => (f v).map some

section
variable {σ α : Type} {visit : σ → String → Json → Option σ} {π : σ → α} {key : String}

/-- The entries of an object are read one after the other, each into the slot of its key. -/
def visitMap (visit : σ → String → Json → Option σ) (slots : σ) (fields : List (String × Json)) :
    Option σ :=
  fields.foldlM (fun s f => visit s f.1 f.2) slots

/-- A slot that only `key` fills is as before if no entry has that key. -/
theorem visitMap_keeps (hkeep : ∀ s k v s', k ≠ key → visit s k v = some s' → π s' = π s)
    {slots slots' : σ} {fields : List (String × Json)} (hmiss : ∀ f ∈ fields, f.1 ≠ key)
    (h : visitMap visit slots fields = some slots') : π slots' = π slots := by
  induction fields generalizing slots with
  | nil =>
    cases h
    rfl
  | cons f fields ih =>
    obtain ⟨hf, hrest⟩ := List.forall_mem_cons.mp hmiss
    obtain ⟨s, hs, h⟩ := Option.bind_eq_some_iff.mp h
    have hstep : π s = π slots := hkeep slots f.1 f.2 s hf hs
    have hlater : π slots' = π s := ih hrest h
    rw [hlater, hstep]

end

/-! ### Writing -/

/-- `Option<T>`. -/
def ofOption {α : Type} (f : α → Json) : Option α → Json
  | none => .null
  | some x => f x

/-- `f64`: what is not finite becomes `null`. -/
def ofF64 : Number → Json
  | .fin q => .num q
  | _ => .null

end CodeHive.Rust.Serde
