import CodeHive.Js.Value
import Mathlib.Algebra.Ring.Int.Defs

/-! # `encoding/json`

What the encoder and the decoder make of the types of this development: `none` where they report an
error; which one is left out. A number that is an integer is taken to be spelled as one, and strings
are UTF-8. -/

namespace CodeHive.Go.Json

set_option autoImplicit false

open CodeHive.Js.Value

/-! ### Encoding -/

/-- How a value is encoded. -/
abbrev Encoding := Option Json

def ofString (s : String) : Encoding := some (.str s)

def ofInt (n : ℤ) : Encoding := some (.num n)

/-- A channel has no encoding, not even when it is `nil`. -/
def ofChan {α : Type} (_ : α) : Encoding := none

/-- A string whose field is tagged `omitempty`. -/
def omitempty (key : String) (s : String) : List (String × Encoding) :=
  if s = "" then [] else [(key, ofString s)]

/-- A field of a struct is encoded. -/
def encodeField (f : String × Encoding) : Option (String × Json) := f.2.map fun v => (f.1, v)

/-- The exported fields of a struct are encoded, or none of them. -/
def ofStruct (fields : List (String × Encoding)) : Encoding :=
  (fields.mapM encodeField).map .obj

theorem mapM_encodeField_eq_none {fields : List (String × Encoding)} {key : String}
    (h : (key, none) ∈ fields) : fields.mapM encodeField = none := by
  induction fields with
  | nil => exact absurd h List.not_mem_nil
  | cons f fields ih =>
    rw [List.mapM_cons]
    rcases List.mem_cons.mp h with rfl | h
    · rfl
    · rw [ih h]
      cases encodeField f <;> rfl

/-- **A struct with a field that has no encoding has none.** -/
theorem ofStruct_eq_none {fields : List (String × Encoding)} {key : String}
    (h : (key, none) ∈ fields) : ofStruct fields = none := by
  unfold ofStruct
  rw [mapM_encodeField_eq_none h, Option.map_none]

/-! ### Decoding -/

section
variable {τ : Type}

/-- How a field of a struct is set from a value. -/
abbrev Setter (τ : Type) := Json → τ → Option τ

/-- A `null` leaves a field as it is. -/
def field {α : Type} (read : Json → Option α) (set : α → τ → τ) : Setter τ
  | .null, x => some x
  | v, x => (read v).map fun a => set a x

def string : Json → Option String := Json.string?

/-- An integer that fits into 64 bits. -/
def int64 : Json → Option ℤ
  | .num q => if q.den = 1 ∧ -2 ^ 63 ≤ q.num ∧ q.num < 2 ^ 63 then some q.num else none
  | _ => none

theorem int64_of_fits {n : ℤ} (hlow : -2 ^ 63 ≤ n) (hhigh : n < 2 ^ 63) :
    int64 (.num n) = some n := by
  show (if (n : Finite).den = 1 ∧ -2 ^ 63 ≤ (n : Finite).num ∧ (n : Finite).num < 2 ^ 63 then
    some (n : Finite).num else none) = some n
  rw [Rat.den_intCast, Rat.num_intCast, if_pos ⟨rfl, hlow, hhigh⟩]

/-- `unicode.SimpleFold`, as far as it concerns ASCII: the letters, the Kelvin sign and the long
s. -/
def foldRune (c : Char) : Char :=
  if c = '\u212A' then 'k' else if c = '\u017F' then 's' else c.toLower

/-- The keys are equal up to case; `name` is in ASCII. -/
def foldEq (name key : String) : Bool := name.toList.map foldRune = key.toList.map foldRune

/-- The field for a key: the one of that name, or else the first whose name is equal up to case. -/
def fieldFor (fields : List (String × Setter τ)) (key : String) : Option (Setter τ) :=
  ((fields.find? fun f => f.1 == key).or (fields.find? fun f => foldEq f.1 key)).map Prod.snd

/-- An entry of the object is decoded; keys that no field has are ignored. -/
def setField (fields : List (String × Setter τ)) (x : τ) (entry : String × Json) : Option τ :=
  match fieldFor fields entry.1 with
  | some set => set entry.2 x
  | none => some x

/-- A key that is no field's name, whatever its case, is ignored. -/
theorem setField_unknown {fields : List (String × Setter τ)} {key : String}
    (h : ∀ name ∈ fields.map Prod.fst, foldEq name key = false) (x : τ) (v : Json) :
    setField fields x (key, v) = some x := by
  have hfold : fields.find? (fun f => foldEq f.1 key) = none := by
    refine List.find?_eq_none.mpr fun f hf => ?_
    simp only [h f.1 (List.mem_map_of_mem hf), Bool.false_eq_true, not_false_eq_true]
  have hexact : fields.find? (fun f => f.1 == key) = none := by
    refine List.find?_eq_none.mpr fun f hf heq => ?_
    have hself : foldEq f.1 key = true := by
      rw [beq_iff_eq.mp heq, foldEq, decide_eq_true_eq]
    exact Bool.false_ne_true ((h f.1 (List.mem_map_of_mem hf)).symm.trans hself)
  unfold setField fieldFor
  rw [hexact, hfold]
  rfl

/-- A value is decoded into a struct. -/
def decodeStruct (fields : List (String × Setter τ)) (x : τ) : Json → Option τ
  | .null => some x
  | .obj entries => entries.foldlM (setField fields) x
  | _ => none

end

end CodeHive.Go.Json
