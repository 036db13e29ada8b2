import CodeHive.Numbers.Doubles

/-! # JavaScript values

What the API uses of the language and its library: numbers, `Array.prototype.slice`, strings, times
and JSON trees. Finite numbers are rationals, and what a sum, a difference, a product or a quotient
comes to is rounded to a double (`Number.ofRat`). -/

namespace CodeHive.Js.Value

set_option autoImplicit false

open CodeHive.Numbers.Doubles

/-! ### Numbers -/

/-- A finite number. -/
abbrev Finite := ℚ

/-- What a `number` expression may evaluate to. -/
inductive Number where
  | nan
  | negInf
  | posInf
  | fin (q : Finite)
  deriving DecidableEq

namespace Number

/-- `x || d`: `NaN` and `0` are falsy. -/
def or (x d : Number) : Number :=
  match x with
  | nan => d
  | fin q => if q = 0 then d else fin q
  | x => x

/-- `Math.min`. -/
def min : Number → Number → Number
  | nan, _ => nan
  | _, nan => nan
  | negInf, _ => negInf
  | _, negInf => negInf
  | posInf, y => y
  | x, posInf => x
  | fin p, fin q => fin (if p ≤ q then p else q)

/-- The double for the value of an operation; from `2 ^ 1024` on it is infinite. -/
def ofRat (q : ℚ) : Number :=
  if |nearest q| < (2 ^ 1024 : ℤ) then fin (nearest q) else if 0 < q then posInf else negInf

/-- `x + y`. -/
def add : Number → Number → Number
  | nan, _ => nan
  | _, nan => nan
  | posInf, negInf => nan
  | negInf, posInf => nan
  | posInf, _ => posInf
  | _, posInf => posInf
  | negInf, _ => negInf
  | _, negInf => negInf
  | fin p, fin q => ofRat (p + q)

/-- `x - y`. -/
def sub (x y : Number) : Number :=
  match y with
  | nan => nan
  | posInf => x.add negInf
  | negInf => x.add posInf
  | fin q => x.add (fin (-q))

/-- `x * n` for a positive integer `n`. -/
def mulNat (x : Number) (n : ℕ) : Number :=
  match x with
  | fin q => ofRat (q * n)
  | x => x

/-- `x / n` for a positive integer `n`. -/
def divNat (x : Number) (n : ℕ) : Number :=
  match x with
  | fin q => ofRat (q / n)
  | x => x

/-- `Math.round`: to the nearest integer, halves up. -/
def round : Number → Number
  | fin q => fin (q + 1 / 2).floor
  | x => x

/-- An index argument of an array method, clamped to `0 … len`; a negative one counts from the
end. -/
def clampIndex (len : ℕ) : Number → ℕ
  | nan => 0
  | negInf => 0
  | posInf => len
  | fin q =>
    let n := q.num.tdiv q.den
    if n < 0 then (len + n).toNat else Nat.min n.toNat len

/-! Operations that are exact -/

theorem ofRat_eq_fin {q r : ℚ} : ofRat q = fin r ↔ nearest q = r ∧ |r| < (2 ^ 1024 : ℤ) := by
  unfold ofRat
  split_ifs with hfin
  · rw [fin.injEq]
    exact ⟨fun h => ⟨h, h ▸ hfin⟩, And.left⟩
  · exact iff_of_false nofun fun h => hfin (h.1 ▸ h.2)
  · exact iff_of_false nofun fun h => hfin (h.1 ▸ h.2)

theorem ofRat_intCast {z : ℤ} (h : |z| ≤ 2 ^ 53) : ofRat z = fin z := by
  refine ofRat_eq_fin.mpr ⟨nearest_intCast h, ?_⟩
  have hlt : |z| < 2 ^ 1024 := h.trans_lt (pow_lt_pow_right₀ (by norm_num) (by norm_num))
  exact_mod_cast hlt

theorem ofRat_natCast {n : ℕ} (h : n ≤ 2 ^ 53) : ofRat n = fin n := by
  have hint := ofRat_intCast (z := n) (by rw [Nat.abs_cast]; exact_mod_cast h)
  rwa [Int.cast_natCast] at hint

theorem add_fin (p q : Finite) : (fin p).add (fin q) = ofRat (p + q) := rfl

theorem sub_fin (p q : Finite) : (fin p).sub (fin q) = ofRat (p - q) := by
  rw [sub_eq_add_neg]
  rfl

theorem add_natCast {m n : ℕ} (h : m + n ≤ 2 ^ 53) : (fin m).add (fin n) = fin (m + n : ℕ) := by
  rw [add_fin, ← Nat.cast_add, ofRat_natCast h]

theorem sub_one_natCast {n : ℕ} (h : n + 1 ≤ 2 ^ 53) : (fin (n + 1 : ℕ)).sub (fin 1) = fin n := by
  have hstep : ((n + 1 : ℕ) : ℚ) - 1 = n := by push_cast; ring
  rw [sub_fin, hstep, ofRat_natCast (by omega)]

end Number

theorem Number.clampIndex_natCast (len n : ℕ) : (Number.fin n).clampIndex len = Nat.min n len := by
  have hn : ¬ (n : ℤ) < 0 := by omega
  simp [Number.clampIndex, hn]

/-- `xs.slice(start, stop)`. -/
def slice {α : Type} (xs : List α) (start stop : Number) : List α :=
  (xs.drop (start.clampIndex xs.length)).take
    (stop.clampIndex xs.length - start.clampIndex xs.length)

/-- `xs.slice(0, n)`. -/
theorem slice_natCast {α : Type} (xs : List α) (n : ℕ) :
    slice xs (.fin 0) (.fin n) = xs.take n := by
  have hstart : (Number.fin 0).clampIndex xs.length = min 0 xs.length :=
    Number.clampIndex_natCast xs.length 0
  have hstop : (Number.fin n).clampIndex xs.length = min n xs.length :=
    Number.clampIndex_natCast xs.length n
  unfold slice
  rw [hstart, hstop, Nat.zero_min, List.drop_zero, Nat.sub_zero, ← List.take_eq_take_min]

/-! ### Strings -/

/-- `length`, in code units of UTF-16. -/
def utf16Length (s : String) : ℕ := (s.toList.map fun c => if c.toNat < 0x10000 then 1 else 2).sum

/-- `buffer.constants.MAX_STRING_LENGTH`, where addresses have 64 bits. -/
def MAX_STRING_LENGTH : ℕ := 2 ^ 29 - 24

/-- `s + t`; a longer string is a `RangeError`. -/
def concat (s t : String) : Option String :=
  if utf16Length (s ++ t) ≤ MAX_STRING_LENGTH then some (s ++ t) else none

theorem utf16Length_append (s t : String) :
    utf16Length (s ++ t) = utf16Length s + utf16Length t := by
  unfold utf16Length
  rw [String.toList_append, List.map_append, List.sum_append]

theorem utf16Length_replicate (n : ℕ) : utf16Length (String.ofList (List.replicate n 'a')) = n := by
  unfold utf16Length
  rw [String.toList_ofList, List.map_replicate, List.sum_replicate]
  exact Nat.mul_one n

/-! ### Times -/

/-- The milliseconds of a `Date`: 100,000,000 days to either side of the epoch. -/
abbrev TimeValue := {ms : ℤ // |ms| ≤ 8640000000000000}

/-- `getTime()`, which is `NaN` for a `Date` that is not valid. -/
def getTime : Option TimeValue → Number
  | none => .nan
  | some t => .fin t.val

/-- `x` in decimal, with leading zeros up to `n` digits. -/
def padStart (n x : ℕ) : String :=
  String.ofList (List.replicate (n - (toString x).length) '0') ++ toString x

/-- Year, month and day of the day `days` after 1970-01-01, in the Gregorian calendar: counted from
1 March of year 0, in eras of 400 years. -/
def civil (days : ℤ) : ℤ × ℕ × ℕ :=
  let z := days + 719468
  let era := z.fdiv 146097
  let doe := (z - era * 146097).toNat
  let yoe := (doe - doe / 1460 + doe / 36524 - doe / 146096) / 365
  let doy := doe - (365 * yoe + yoe / 4 - yoe / 100)
  let mp := (5 * doy + 2) / 153
  let d := doy - (153 * mp + 2) / 5 + 1
  let m := if mp < 10 then mp + 3 else mp - 9
  (yoe + era * 400 + (if m ≤ 2 then 1 else 0), m, d)

/-- `new Date(ms).toISOString()`. -/
@[irreducible] def toISOString (ms : ℤ) : String :=
  let days := ms.fdiv 86400000
  let t := (ms - days * 86400000).toNat
  let (y, m, d) := civil days
  let year :=
    if 0 ≤ y ∧ y ≤ 9999 then padStart 4 y.toNat
    else (if y < 0 then "-" else "+") ++ padStart 6 y.natAbs
  year ++ "-" ++ padStart 2 m ++ "-" ++ padStart 2 d ++ "T" ++
    padStart 2 (t / 3600000) ++ ":" ++ padStart 2 (t / 60000 % 60) ++ ":" ++
    padStart 2 (t / 1000 % 60) ++ "." ++ padStart 3 (t % 1000) ++ "Z"

theorem toISOString_ne_empty (ms : ℤ) : toISOString ms ≠ "" := by
  unfold toISOString
  simp

example : toISOString 0 = "1970-01-01T00:00:00.000Z" := by decide +kernel

example : toISOString 1709210096789 = "2024-02-29T12:34:56.789Z" := by decide +kernel

/-! ### JSON -/

/-- A parsed JSON text. -/
inductive Json where
  | null
  | bool (b : Bool)
  | num (q : Finite)
  | str (s : String)
  | arr (xs : List Json)
  | obj (fields : List (String × Json))

/-- The property `key` of an object, `none` where it is undefined; of two equal keys the later one
counts. -/
def Json.get (key : String) : Json → Option Json
  | .obj fields => (fields.reverse.find? fun f => f.1 == key).map Prod.snd
  | _ => none

/-- A non-null object that is not an array. -/
def Json.isObject : Json → Bool
  | .obj _ => true
  | _ => false

/-- The string it is, if it is one. -/
def Json.string? : Json → Option String
  | .str s => some s
  | _ => none

/-- The number it is, if it is one. -/
def Json.number? : Json → Option Finite
  | .num q => some q
  | _ => none

end CodeHive.Js.Value
