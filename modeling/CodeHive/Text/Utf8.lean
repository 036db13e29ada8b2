import Mathlib.Data.List.Basic
import Mathlib.Data.Nat.Basic

/-! # Decoding UTF-8

The decoder takes one byte at a time and refuses none: U+FFFD stands for a sequence that a byte or
the end breaks off, and for a byte that begins none. Pieces that are decoded one by one give the
text of the whole exactly when no sequence goes on from one piece to the next. -/

namespace CodeHive.Text.Utf8

set_option autoImplicit false

/-! ### The decoder -/

/-- What the next byte of a sequence may be; the second byte is bounded by the first. -/
inductive Bounds where
  | tail
  | afterE0
  | afterED
  | afterF0
  | afterF4
  deriving DecidableEq

def Bounds.lower : Bounds → ℕ
  | .afterE0 => 0xA0
  | .afterF0 => 0x90
  | _ => 0x80

def Bounds.upper : Bounds → ℕ
  | .afterED => 0x9F
  | .afterF4 => 0x8F
  | _ => 0xBF

inductive State where
  /-- Between two characters. -/
  | start
  /-- A byte is missing, and then so many more; with the bits of the character so far. -/
  | inside (bounds : Bounds) (more point : ℕ)
  deriving DecidableEq

def replacement : Char := Char.ofNat 0xFFFD

/-- A byte between two characters. -/
def lead (b : ℕ) : State × List Char :=
  if b < 0x80 then (.start, [Char.ofNat b])
  else if b < 0xC2 ∨ 0xF4 < b then (.start, [replacement])
  else if b < 0xE0 then (.inside .tail 0 (b - 0xC0), [])
  else if b < 0xF0 then
    (.inside (if b = 0xE0 then .afterE0 else if b = 0xED then .afterED else .tail) 1 (b - 0xE0), [])
  else
    (.inside (if b = 0xF0 then .afterF0 else if b = 0xF4 then .afterF4 else .tail) 2 (b - 0xF0), [])

/-- The byte goes on with the sequence that the decoder is in. -/
def Continues : State → ℕ → Prop
  | .start, _ => False
  | .inside bounds _ _, b => bounds.lower ≤ b ∧ b ≤ bounds.upper

instance : (s : State) → (b : ℕ) → Decidable (Continues s b)
  | .start, _ => inferInstanceAs (Decidable False)
  | .inside bounds _ _, b => inferInstanceAs (Decidable (bounds.lower ≤ b ∧ b ≤ bounds.upper))

/-- What is left of a sequence that is broken off. -/
def flush : State → List Char
  | .start => []
  | .inside _ _ _ => [replacement]

/-- A byte that goes on. -/
def continued (more point b : ℕ) : State × List Char :=
  match more with
  | 0 => (.start, [Char.ofNat (point * 64 + (b - 0x80))])
  | more + 1 => (.inside .tail more (point * 64 + (b - 0x80)), [])

/-- The decoder takes a byte. -/
def step (s : State) (b : ℕ) : State × List Char :=
  match s with
  | .start => lead b
  | .inside _ more point =>
    if Continues s b then continued more point b
    else ((lead b).1, flush s ++ (lead b).2)

/-- The characters of the bytes that follow. -/
def decodeFrom (s : State) : List UInt8 → List Char
  | [] => flush s
  | b :: bs => (step s b.toNat).2 ++ decodeFrom (step s b.toNat).1 bs

/-- The state after bytes. -/
def after (s : State) : List UInt8 → State
  | [] => s
  | b :: bs => after (step s b.toNat).1 bs

/-- **The text of bytes.** -/
def decode (bs : List UInt8) : String := .ofList (decodeFrom .start bs)

/-! ### Pieces -/

/-- The text of pieces that are decoded one by one. -/
def decodePieces (pieces : List (List UInt8)) : String := String.join (pieces.map decode)

/-- The next byte goes on with the sequence. -/
def Reaches (s : State) (bs : List UInt8) : Prop := ∃ b ∈ bs.head?, Continues s b.toNat

instance (s : State) (bs : List UInt8) : Decidable (Reaches s bs) :=
  inferInstanceAs (Decidable (∃ b ∈ bs.head?, Continues s b.toNat))

/-- **No piece ends inside a sequence that the next byte goes on with.** -/
def Aligned : List (List UInt8) → Prop
  | [] => True
  | piece :: pieces => ¬ Reaches (after .start piece) pieces.flatten ∧ Aligned pieces

section
variable {s : State} {b : ℕ} {bs rest : List UInt8}

theorem Bounds.tail_of_le (bounds : Bounds) (hl : bounds.lower ≤ b) (hu : b ≤ bounds.upper) :
    0x80 ≤ b ∧ b < 0xC0 := by
  cases bounds <;> simp only [Bounds.lower, Bounds.upper] at hl hu <;> omega

/-- A byte that goes on begins nothing. -/
theorem lead_of_continues (h : Continues s b) : lead b = (.start, [replacement]) := by
  cases s with
  | start => exact h.elim
  | inside bounds more point =>
    obtain ⟨hge, hlt⟩ := bounds.tail_of_le h.1 h.2
    unfold lead
    rw [if_neg (by omega), if_pos (by omega)]

/-- A byte that does not go on is read as if it were the first. -/
theorem step_of_not_continues (h : ¬ Continues s b) :
    step s b = ((lead b).1, flush s ++ (lead b).2) := by
  cases s with
  | start => rfl
  | inside bounds more point => exact if_neg h

theorem step_of_continues {bounds : Bounds} {more point : ℕ}
    (h : Continues (.inside bounds more point) b) :
    step (.inside bounds more point) b = continued more point b := if_pos h

theorem length_flush_le (s : State) : (flush s).length ≤ 1 := by
  cases s with
  | start => exact Nat.zero_le _
  | inside bounds more point => exact le_rfl

/-! ### What a sequence leaves behind -/

/-- **Bytes that do not go on with a sequence are decoded without it.** -/
theorem decodeFrom_of_not_reaches (h : ¬ Reaches s bs) :
    decodeFrom s bs = flush s ++ decodeFrom .start bs := by
  cases bs with
  | nil => exact (List.append_nil _).symm
  | cons b bs =>
    have hb : ¬ Continues s b.toNat := fun hc => h ⟨b, rfl, hc⟩
    unfold decodeFrom
    rw [step_of_not_continues hb, List.append_assoc]
    rfl

/-- A byte that goes on would be a character of its own at the start. -/
theorem decodeFrom_start_of_continues {c : UInt8} (h : Continues s c.toNat) :
    decodeFrom .start (c :: bs) = replacement :: decodeFrom .start bs := by
  show (lead c.toNat).2 ++ decodeFrom (lead c.toNat).1 bs = _
  rw [lead_of_continues h]
  rfl

/-- A sequence leaves at most one character behind. -/
theorem length_decodeFrom_le (s : State) (bs : List UInt8) :
    (decodeFrom s bs).length ≤ 1 + (decodeFrom .start bs).length := by
  induction bs generalizing s with
  | nil => exact Nat.le_add_right_of_le (length_flush_le s)
  | cons b bs ih =>
    by_cases hb : Continues s b.toNat
    · rw [decodeFrom_start_of_continues hb, decodeFrom]
      cases s with
      | start => exact hb.elim
      | inside bounds more point =>
        rw [step_of_continues hb, List.length_append, List.length_cons]
        have hle := ih (continued more point b.toNat).1
        cases more with
        | zero => simp only [continued, List.length_singleton]; omega
        | succ more => simp only [continued, List.length_nil] at hle ⊢; omega
    · have hstop : ¬ Reaches s (b :: bs) := fun ⟨c, hc, hcont⟩ => hb (by cases hc; exact hcont)
      rw [decodeFrom_of_not_reaches hstop, List.length_append]
      exact Nat.add_le_add_right (length_flush_le s) _

/-- **It leaves less behind than on its own where it goes on.** -/
theorem length_decodeFrom_lt (h : Reaches s bs) :
    (decodeFrom s bs).length < (flush s).length + (decodeFrom .start bs).length := by
  obtain ⟨c, hc, hcont⟩ := h
  obtain ⟨bs, rfl⟩ : ∃ tl, bs = c :: tl := List.head?_eq_some_iff.mp hc
  rw [decodeFrom_start_of_continues hcont, decodeFrom]
  cases s with
  | start => exact hcont.elim
  | inside bounds more point =>
    rw [step_of_continues hcont, List.length_append, List.length_cons]
    have hle := length_decodeFrom_le (continued more point c.toNat).1 bs
    cases more with
    | zero => simp only [continued, flush, List.length_singleton]; omega
    | succ more => simp only [continued, flush, List.length_nil, List.length_singleton] at hle ⊢; omega

/-! ### Pieces and the whole -/

/-- What comes out of bytes before the next ones are looked at. -/
def emitted (s : State) : List UInt8 → List Char
  | [] => []
  | b :: bs => (step s b.toNat).2 ++ emitted (step s b.toNat).1 bs

theorem decodeFrom_append (s : State) (bs rest : List UInt8) :
    decodeFrom s (bs ++ rest) = emitted s bs ++ decodeFrom (after s bs) rest := by
  induction bs generalizing s with
  | nil => rfl
  | cons b bs ih =>
    show (step s b.toNat).2 ++ decodeFrom (step s b.toNat).1 (bs ++ rest) = _
    rw [ih, ← List.append_assoc]
    rfl

theorem decodeFrom_eq (s : State) (bs : List UInt8) :
    decodeFrom s bs = emitted s bs ++ flush (after s bs) := by
  have h := decodeFrom_append s bs []
  rw [List.append_nil] at h
  exact h

/-- The characters of pieces that are decoded one by one. -/
def pieceChars (pieces : List (List UInt8)) : List Char := pieces.flatMap (decodeFrom .start)

/-- Pieces leave no less behind than the whole. -/
theorem length_whole_le (pieces : List (List UInt8)) :
    (decodeFrom .start pieces.flatten).length ≤ (pieceChars pieces).length := by
  induction pieces with
  | nil => exact le_rfl
  | cons piece pieces ih =>
    have hle : (decodeFrom (after .start piece) pieces.flatten).length ≤
        (flush (after .start piece)).length + (decodeFrom .start pieces.flatten).length := by
      by_cases hr : Reaches (after .start piece) pieces.flatten
      · exact Nat.le_of_lt (length_decodeFrom_lt hr)
      · rw [decodeFrom_of_not_reaches hr, List.length_append]
    show _ ≤ (decodeFrom .start piece ++ pieceChars pieces).length
    rw [List.flatten_cons, decodeFrom_append, decodeFrom_eq .start piece]
    simp only [List.length_append]
    omega

/-- **Pieces are the whole exactly when they are aligned.** -/
theorem pieceChars_eq_iff (pieces : List (List UInt8)) :
    pieceChars pieces = decodeFrom .start pieces.flatten ↔ Aligned pieces := by
  induction pieces with
  | nil => exact iff_of_true rfl trivial
  | cons piece pieces ih =>
    show decodeFrom .start piece ++ pieceChars pieces = _ ↔
      ¬ Reaches (after .start piece) pieces.flatten ∧ Aligned pieces
    rw [List.flatten_cons, decodeFrom_append, decodeFrom_eq, List.append_assoc,
      List.append_cancel_left_eq]
    by_cases hr : Reaches (after .start piece) pieces.flatten
    · refine iff_of_false (fun heq => ?_) (fun h => h.1 hr)
      have hlt := length_decodeFrom_lt hr
      have hle := length_whole_le pieces
      rw [← heq, List.length_append] at hlt
      omega
    · rw [decodeFrom_of_not_reaches hr, List.append_cancel_left_eq, ih]
      exact (and_iff_right hr).symm

theorem decodePieces_eq (pieces : List (List UInt8)) :
    decodePieces pieces = .ofList (pieceChars pieces) := by
  unfold decodePieces pieceChars
  induction pieces with
  | nil => rfl
  | cons piece pieces ih =>
    rw [List.map_cons, String.join_cons, ih, List.flatMap_cons, String.ofList_append]
    rfl

/-- **Decoding piece by piece gives the text of the whole exactly when no piece ends inside a
sequence that goes on.** -/
theorem decodePieces_eq_iff (pieces : List (List UInt8)) :
    decodePieces pieces = decode pieces.flatten ↔ Aligned pieces := by
  rw [decodePieces_eq, ← pieceChars_eq_iff]
  unfold decode
  exact String.ofList_inj

/-! ### Text that was encoded -/

/-- The first of two bytes. -/
theorem lead_two : ∀ bits < 32, 2 ≤ bits → lead (bits + 0xC0) = (.inside .tail 0 bits, []) := by
  decide

/-- The first of three. -/
theorem lead_three : ∀ bits < 16, lead (bits + 0xE0) =
    (.inside (if bits = 0 then .afterE0 else if bits = 13 then .afterED else .tail) 1 bits, []) := by
  decide

/-- The first of four. -/
theorem lead_four : ∀ bits < 5, lead (bits + 0xF0) =
    (.inside (if bits = 0 then .afterF0 else if bits = 4 then .afterF4 else .tail) 2 bits, []) := by
  decide

theorem decodeFrom_lead {n : ℕ} (h : n < 256) :
    decodeFrom .start (UInt8.ofNat n :: rest) = (lead n).2 ++ decodeFrom (lead n).1 rest := by
  have hn : (UInt8.ofNat n).toNat = n := by
    rw [UInt8.toNat_ofNat']
    omega
  show (lead _).2 ++ decodeFrom (lead _).1 rest = _
  rw [hn]

/-- A byte that goes on is taken, with the bits that it carries. -/
theorem decodeFrom_continued {bounds : Bounds} {more point bits : ℕ}
    (hl : bounds.lower ≤ bits + 0x80) (hu : bits + 0x80 ≤ bounds.upper) :
    decodeFrom (.inside bounds more point) (UInt8.ofNat (bits + 0x80) :: rest) =
      (continued more point (bits + 0x80)).2 ++
        decodeFrom (continued more point (bits + 0x80)).1 rest := by
  have hn : (UInt8.ofNat (bits + 0x80)).toNat = bits + 0x80 := by
    have hlt := bounds.tail_of_le hl hu
    rw [UInt8.toNat_ofNat']
    omega
  have hcont : Continues (.inside bounds more point) (bits + 0x80) := ⟨hl, hu⟩
  rw [decodeFrom, hn, step_of_continues hcont]

/-- The last byte of a sequence. -/
theorem decodeFrom_last {point bits : ℕ} (h : bits < 64) :
    decodeFrom (.inside .tail 0 point) (UInt8.ofNat (bits + 0x80) :: rest) =
      Char.ofNat (point * 64 + bits) :: decodeFrom .start rest := by
  rw [decodeFrom_continued (Nat.le_add_left _ _) (by simp only [Bounds.upper]; omega)]
  simp [continued]

/-- A byte before the last. -/
theorem decodeFrom_next {bounds : Bounds} {more point bits : ℕ}
    (hl : bounds.lower ≤ bits + 0x80) (hu : bits + 0x80 ≤ bounds.upper) :
    decodeFrom (.inside bounds (more + 1) point) (UInt8.ofNat (bits + 0x80) :: rest) =
      decodeFrom (.inside .tail more (point * 64 + bits)) rest := by
  rw [decodeFrom_continued hl hu]
  simp [continued]

/-- **A character is decoded from what encodes it.** -/
theorem decodeFrom_encodeChar (c : Char) (rest : List UInt8) :
    decodeFrom .start (String.utf8EncodeChar c ++ rest) = c :: decodeFrom .start rest := by
  have hvalid : c.val.toNat < 0xD800 ∨ 0xDFFF < c.val.toNat ∧ c.val.toNat < 0x110000 := c.valid
  have hofNat : Char.ofNat c.val.toNat = c := Char.ofNat_toNat c
  simp only [String.utf8EncodeChar]
  generalize c.val.toNat = v at hvalid hofNat
  split_ifs with h1 h2 h3
  · rw [List.singleton_append, decodeFrom_lead (by omega), lead, if_pos (by omega), hofNat]
    rfl
  · have hpoint : v / 64 % 32 * 64 + v % 64 = v := by omega
    simp only [List.cons_append, List.nil_append]
    rw [decodeFrom_lead (by omega), lead_two _ (by omega) (by omega), List.nil_append,
      decodeFrom_last (by omega), hpoint, hofNat]
  · have hpoint : (v / 4096 % 16 * 64 + v / 64 % 64) * 64 + v % 64 = v := by omega
    simp only [List.cons_append, List.nil_append]
    rw [decodeFrom_lead (by omega), lead_three _ (by omega), List.nil_append,
      decodeFrom_next ?_ ?_, decodeFrom_last (by omega), hpoint, hofNat]
    · split_ifs <;> simp only [Bounds.lower] <;> omega
    · split_ifs <;> simp only [Bounds.upper] <;> omega
  · have hpoint : ((v / 262144 % 8 * 64 + v / 4096 % 64) * 64 + v / 64 % 64) * 64 + v % 64 = v := by
      omega
    simp only [List.cons_append, List.nil_append]
    have htail : v / 64 % 64 + 0x80 ≤ Bounds.tail.upper := by
      simp only [Bounds.upper]
      omega
    rw [decodeFrom_lead (by omega), lead_four _ (by omega), List.nil_append,
      decodeFrom_next ?_ ?_, decodeFrom_next (Nat.le_add_left _ _) htail,
      decodeFrom_last (by omega), hpoint, hofNat]
    · split_ifs <;> simp only [Bounds.lower] <;> omega
    · split_ifs <;> simp only [Bounds.upper] <;> omega

/-- **Decoding undoes encoding.** -/
theorem decode_encode (s : String) : decode s.toByteArray.data.toList = s := by
  have henc : s.toByteArray.data.toList = s.toList.flatMap String.utf8EncodeChar := by
    rw [← String.utf8Encode_toList, List.utf8Encode, List.data_toByteArray]
  have hdec : ∀ cs : List Char, decodeFrom .start (cs.flatMap String.utf8EncodeChar) = cs := by
    intro cs
    induction cs with
    | nil => rfl
    | cons c cs ih => rw [List.flatMap_cons, decodeFrom_encodeChar, ih]
  rw [henc, decode, hdec, String.ofList_toList]

end

end CodeHive.Text.Utf8
