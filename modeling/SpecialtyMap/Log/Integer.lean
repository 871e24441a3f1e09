import Mathlib.Algebra.Order.Ring.Nat
import Mathlib.Data.Nat.Bitwise
import Mathlib.Data.Nat.Size
import Mathlib.Tactic.Common
import Mathlib.Tactic.Zify

/-!
# Integers of the transaction log

`TransactLogEncoder::encode_int` writes an integer as groups of seven bits, lowest first, with the
sign in the last group; `TransactLogParser::read_int` reads one back, as an integer of a type that
need not be the one it was written from. Integers are `ℤ` within the range of their type, characters
are numbers below 256.

What is read back is said for every value and every pair of types (`readInt_encodeInt`). By the
comment on the encoding, reading fails if and only if the value is outside the range of the type it
is read as. That is so but for one kind of value: a negative one other than minus one, read as an
unsigned type, wraps (`readInt_encodeInt_iff`).
-/

namespace SpecialtyMap.Log

/-- An integer type: its value bits, and whether it has a sign bit beside them. -/
structure IntType where
  digits : ℕ
  signed : Bool
deriving DecidableEq

namespace IntType
variable (ty : IntType)

def int : IntType := ⟨31, true⟩
def int64 : IntType := ⟨63, true⟩
def uint32 : IntType := ⟨32, false⟩
def size : IntType := ⟨64, false⟩

def max : ℕ := 2 ^ ty.digits - 1

def InRange (value : ℤ) : Prop :=
  (if ty.signed then -2 ^ ty.digits else 0) ≤ value ∧ value < 2 ^ ty.digits

instance (value : ℤ) : Decidable (ty.InRange value) := inferInstanceAs (Decidable (_ ∧ _))

/-- The most characters an integer of the type takes, with a sign bit in any case. -/
def maxBytes : ℕ := (1 + ty.digits + 6) / 7

end IntType

/-- The last character: the highest bits of the magnitude and the sign. -/
def lastPart (negative : Bool) (value : ℕ) : ℕ := if negative then 1 <<< 6 ||| value else value

/-- The loop of `encode_int`, for so many more iterations, and the character after it. -/
def encodeParts (negative : Bool) : ℕ → ℕ → List ℕ
  | 0, value => [lastPart negative value]
  | n + 1, value =>
    if value >>> 6 = 0 then [lastPart negative value]
    else (1 <<< 7 ||| (value &&& (1 <<< 7 - 1))) :: encodeParts negative n (value >>> 7)

/-- What is written for the value: itself, or for a negative one how far it is below minus one. -/
def magnitude (value : ℤ) : ℕ := (if value < 0 then -(value + 1) else value).toNat

def encodeInt (ty : IntType) (value : ℤ) : List ℕ :=
  encodeParts (value < 0) ty.maxBytes (magnitude value)

/-- What stops a parser: the exception `BadTransactLog`, or its assertion on the
levels of a table. -/
inductive ParserStop where
  | badTransactLog
  | levels
deriving DecidableEq

/-- The loop of `read_int` from its turn `i`, with so many turns left: the magnitude, the sign and
what follows in the log. -/
def readParts (ty : IntType) : ℕ → ℕ → ℕ → List ℕ → Except ParserStop (ℕ × Bool × List ℕ)
  | 0, _, _, _ => .error .badTransactLog
  | _ + 1, _, _, [] => .error .badTransactLog
  | n + 1, i, value, part :: input =>
    if part &&& 0x80 = 0 then
      let p := part &&& 0x3F
      if ty.max >>> (i * 7) < p then .error .badTransactLog
      else .ok (value ||| p <<< (i * 7), part &&& 0x40 ≠ 0, input)
    else if n = 0 then .error .badTransactLog
    else readParts ty n (i + 1) (value ||| (part &&& 0x7F) <<< (i * 7)) input

/-- What `read_int` makes of the magnitude of a negative value. An unsigned type
negates by wrapping. -/
def negate (ty : IntType) (value : ℕ) : Except ParserStop ℤ :=
  if ty.signed then
    if -(value : ℤ) - 1 < -2 ^ ty.digits then .error .badTransactLog else .ok (-(value : ℤ) - 1)
  else
    let value := (2 ^ ty.digits - value) % 2 ^ ty.digits
    if value < 1 then .error .badTransactLog else .ok ((value - 1 : ℕ) : ℤ)

def readInt (ty : IntType) (input : List ℕ) : Except ParserStop (ℤ × List ℕ) := do
  let (value, negative, input) ← readParts ty ty.maxBytes 0 0 input
  if negative then
    let value ← negate ty value
    return (value, input)
  else return (value, input)

section Parts
variable {ty : IntType} {negative : Bool} {n k i m a : ℕ}

lemma lastPart_bits (lt : m < 64) : lastPart negative m &&& 0x80 = 0 ∧
    lastPart negative m &&& 0x3F = m ∧ decide (lastPart negative m &&& 0x40 ≠ 0) = negative := by
  have all : ∀ negative : Bool, ∀ m : Fin 64, lastPart negative m &&& 0x80 = 0 ∧
      lastPart negative m &&& 0x3F = m ∧
      decide (lastPart negative m &&& 0x40 ≠ 0) = negative := by decide
  exact all negative ⟨m, lt⟩

lemma part_bits : (1 <<< 7 ||| (m &&& (1 <<< 7 - 1))) &&& 0x80 ≠ 0 ∧
    (1 <<< 7 ||| (m &&& (1 <<< 7 - 1))) &&& 0x7F = m % 128 := by
  have all : ∀ m : Fin 128, (1 <<< 7 ||| (m : ℕ)) &&& 0x80 ≠ 0 ∧
      (1 <<< 7 ||| (m : ℕ)) &&& 0x7F = m := by decide
  have low : m &&& (1 <<< 7 - 1) = m % 128 := Nat.and_two_pow_sub_one_eq_mod m 7
  rw [low]
  exact all ⟨m % 128, Nat.mod_lt m (by decide)⟩

/-- A group goes above the ones before it. -/
lemma or_shift (lt : a < 2 ^ (7 * i)) : a ||| m <<< (i * 7) = a + m * 2 ^ (7 * i) := by
  rw [Nat.shiftLeft_eq, Nat.mul_comm i 7, Nat.or_comm, Nat.mul_comm m,
    ← Nat.two_pow_add_eq_or_of_lt lt, Nat.add_comm]

lemma maxBytes_le (lt : i < ty.maxBytes) : 7 * i ≤ ty.digits := by
  rw [IntType.maxBytes] at lt
  omega

/-- The last group is refused exactly if it takes the value out of the type. -/
lemma overflow_iff (le : 7 * i ≤ ty.digits) (lt : a < 2 ^ (7 * i)) :
    ty.max >>> (i * 7) < m ↔ ¬ a + m * 2 ^ (7 * i) < 2 ^ ty.digits := by
  have below : 0 < 2 ^ (7 * i) := Nat.two_pow_pos _
  have whole : 0 < 2 ^ ty.digits := Nat.two_pow_pos _
  rw [Nat.shiftRight_eq_div_pow, Nat.mul_comm i 7, IntType.max, Nat.div_lt_iff_lt_mul below, not_lt]
  constructor
  · intro beyond
    omega
  · intro beyond
    obtain ⟨high, same⟩ := Nat.exists_eq_add_of_le le
    -- with one group less than it takes the value would still fit
    have enough : 2 ^ high ≤ m := by
      by_contra few
      have room : (m + 1) * 2 ^ (7 * i) ≤ 2 ^ high * 2 ^ (7 * i) :=
        Nat.mul_le_mul_right _ (Nat.lt_of_not_le few)
      rw [same, Nat.pow_add, Nat.mul_comm (2 ^ (7 * i))] at beyond
      rw [Nat.add_mul] at room
      omega
    have fills : 2 ^ ty.digits ≤ m * 2 ^ (7 * i) := by
      rw [same, Nat.pow_add, Nat.mul_comm]
      exact Nat.mul_le_mul_right _ enough
    omega

lemma readParts_last (lt : m < 64) (room : i < ty.maxBytes) (acc : a < 2 ^ (7 * i))
    (input : List ℕ) :
    readParts ty (k + 1) i a (lastPart negative m :: input) =
      if a + m * 2 ^ (7 * i) < 2 ^ ty.digits then .ok (a + m * 2 ^ (7 * i), negative, input)
      else .error .badTransactLog := by
  obtain ⟨last, low, sign⟩ := @lastPart_bits negative m lt
  rw [readParts, if_pos last]
  simp only [low, sign, or_shift acc, overflow_iff (maxBytes_le room) acc]
  split_ifs <;> rfl

/-- Reading the groups of a magnitude gives the magnitude, unless the type has no room for it. -/
lemma readParts_encodeParts (fits : m < 2 ^ (7 * n + 6)) (turns : i + (k + 1) = ty.maxBytes)
    (acc : a < 2 ^ (7 * i)) (input : List ℕ) :
    readParts ty (k + 1) i a (encodeParts negative n m ++ input) =
      if a + m * 2 ^ (7 * i) < 2 ^ ty.digits then .ok (a + m * 2 ^ (7 * i), negative, input)
      else .error .badTransactLog := by
  have room : i < ty.maxBytes := by omega
  induction n generalizing m i k a with
  | zero => exact readParts_last fits room acc input
  | succ n ih =>
    rw [encodeParts]
    by_cases small : m >>> 6 = 0
    · rw [if_pos small]
      rw [Nat.shiftRight_eq_div_pow] at small
      exact readParts_last ((Nat.div_eq_zero_iff_lt (by decide)).mp small) room acc input
    · obtain ⟨more, low⟩ := @part_bits m
      have large : 64 ≤ m := by
        rw [Nat.shiftRight_eq_div_pow] at small
        omega
      rw [if_neg small, List.cons_append, readParts, if_neg more, low, or_shift acc]
      have next : 2 ^ (7 * (i + 1)) = 128 * 2 ^ (7 * i) := by
        rw [Nat.mul_add, Nat.pow_add, Nat.mul_comm]
      cases k with
      | zero =>
        -- the type has no further group
        have full : 2 ^ ty.digits ≤ 64 * 2 ^ (7 * i) := by
          have pow : 64 * 2 ^ (7 * i) = 2 ^ (7 * i + 6) := by
            rw [Nat.pow_add, Nat.mul_comm]
          rw [pow]
          refine Nat.pow_le_pow_right (by decide) ?_
          rw [IntType.maxBytes] at turns
          omega
        have beyond : 64 * 2 ^ (7 * i) ≤ m * 2 ^ (7 * i) := Nat.mul_le_mul_right _ large
        rw [if_pos rfl, if_neg (by omega)]
      | succ k =>
        have low' : m % 128 < 128 := Nat.mod_lt m (by decide)
        have fits' : m >>> 7 < 2 ^ (7 * n + 6) := by
          rw [Nat.shiftRight_eq_div_pow]
          refine Nat.div_lt_of_lt_mul ?_
          rw [← Nat.pow_add]
          exact lt_of_lt_of_eq fits (congrArg _ (by omega))
        have acc' : a + m % 128 * 2 ^ (7 * i) < 2 ^ (7 * (i + 1)) := by
          have room' : m % 128 * 2 ^ (7 * i) ≤ 127 * 2 ^ (7 * i) :=
            Nat.mul_le_mul_right _ (by omega)
          rw [next]
          omega
        have sum : a + m % 128 * 2 ^ (7 * i) + m >>> 7 * 2 ^
            (7 * (i + 1)) = a + m * 2 ^ (7 * i) := by
          rw [next, Nat.shiftRight_eq_div_pow, ← Nat.mul_assoc, Nat.add_assoc, ← Nat.add_mul]
          have split : m % 128 + m / 2 ^ 7 * 128 = m := Nat.mod_add_div' m 128
          rw [split]
        rw [if_neg (Nat.succ_ne_zero k), ih fits' (by omega) acc' (by omega), sum]

end Parts

section Length
variable {negative : Bool} {n m : ℕ}

lemma size_shiftRight : (m >>> 7).size = m.size - 7 := by
  refine eq_of_forall_ge_iff fun k => ?_
  rw [Nat.size_le, Nat.shiftRight_eq_div_pow, Nat.div_lt_iff_lt_mul (Nat.two_pow_pos 7),
    ← Nat.pow_add,
    ← Nat.size_le, Nat.sub_le_iff_le_add]

/-- There are as many characters as it takes seven bits each for the magnitude and the sign. -/
lemma length_encodeParts (fits : m < 2 ^ (7 * n + 6)) :
    (encodeParts negative n m).length = (m.size + 7) / 7 := by
  induction n generalizing m with
  | zero =>
    have size : m.size ≤ 6 := Nat.size_le.mpr fits
    rw [encodeParts, List.length_singleton]
    omega
  | succ n ih =>
    rw [encodeParts]
    split_ifs with small
    · rw [Nat.shiftRight_eq_div_pow, Nat.div_eq_zero_iff_lt (by decide)] at small
      have size : m.size ≤ 6 := Nat.size_le.mpr small
      rw [List.length_singleton]
      omega
    · have large : 6 < m.size := by
        rw [Nat.lt_size]
        rw [Nat.shiftRight_eq_div_pow] at small
        omega
      have fits' : m >>> 7 < 2 ^ (7 * n + 6) := by
        rw [← Nat.size_le, size_shiftRight]
        have size : m.size ≤ 7 * (n + 1) + 6 := Nat.size_le.mpr fits
        omega
      rw [List.length_cons, ih fits', size_shiftRight]
      omega

end Length

section Values
variable {ty ty' : IntType} {value : ℤ} {input : List ℕ}

lemma magnitude_of_nonneg (nonneg : ¬ value < 0) : (magnitude value : ℤ) = value := by
  rw [magnitude, if_neg nonneg]
  omega

lemma magnitude_of_neg (neg : value < 0) : (magnitude value : ℤ) = -value - 1 := by
  rw [magnitude, if_pos neg]
  omega

lemma magnitude_lt (inRange : ty.InRange value) : magnitude value < 2 ^ ty.digits := by
  obtain ⟨low, high⟩ := inRange
  zify
  by_cases neg : value < 0
  · rw [magnitude_of_neg neg]
    split_ifs at low
    · omega
    · omega
  · rwa [magnitude_of_nonneg neg]

lemma magnitude_fits (inRange : ty.InRange value) :
    magnitude value < 2 ^ (7 * ty.maxBytes + 6) := by
  refine (magnitude_lt inRange).trans_le (Nat.pow_le_pow_right (by decide) ?_)
  rw [IntType.maxBytes]
  omega

/-- What is written are characters. -/
lemma encodeParts_lt {negative : Bool} {n m part : ℕ} (fits : m < 2 ^ (7 * n + 6))
    (mem : part ∈ encodeParts negative n m) : part < 256 := by
  have last {m : ℕ} (lt : m < 64) : lastPart negative m < 256 := by
    have all : ∀ negative : Bool, ∀ m : Fin 64, lastPart negative m < 256 := by decide
    exact all negative ⟨m, lt⟩
  induction n generalizing m with
  | zero =>
    rw [List.mem_singleton.mp mem]
    exact last fits
  | succ n ih =>
    rw [encodeParts] at mem
    split_ifs at mem with small
    · rw [Nat.shiftRight_eq_div_pow, Nat.div_eq_zero_iff_lt (by decide)] at small
      rw [List.mem_singleton.mp mem]
      exact last small
    · rcases List.mem_cons.mp mem with rfl | rest
      · have low : m &&& (1 <<< 7 - 1) = m % 128 := Nat.and_two_pow_sub_one_eq_mod m 7
        have all : ∀ m : Fin 128, 1 <<< 7 ||| (m : ℕ) < 256 := by decide
        rw [low]
        exact all ⟨m % 128, Nat.mod_lt m (by decide)⟩
      · refine ih ?_ rest
        rw [← Nat.size_le, size_shiftRight]
        have size : m.size ≤ 7 * (n + 1) + 6 := Nat.size_le.mpr fits
        omega

/-- `encode_int` stays within the most characters for its type. -/
lemma length_encodeInt_le (inRange : ty.InRange value) :
    (encodeInt ty value).length ≤ ty.maxBytes := by
  have size : (magnitude value).size ≤ ty.digits := Nat.size_le.mpr (magnitude_lt inRange)
  rw [encodeInt, length_encodeParts (magnitude_fits inRange), IntType.maxBytes]
  omega

/-- What is read is said by the magnitude and the sign alone. -/
lemma readInt_parts (inRange : ty.InRange value) :
    readInt ty' (encodeInt ty value ++ input) =
      if magnitude value < 2 ^ ty'.digits then
        if value < 0 then (negate ty' (magnitude value)).map fun value => (value, input)
        else .ok (value, input)
      else .error .badTransactLog := by
  have fits := magnitude_fits inRange
  obtain ⟨k, turns⟩ : ∃ k, ty'.maxBytes = k + 1 := Nat.exists_eq_succ_of_ne_zero (by
    rw [IntType.maxBytes]
    omega)
  have parts := @readParts_encodeParts ty' (value < 0) ty.maxBytes k 0 (magnitude value) 0 fits
    (by rw [turns, Nat.zero_add]) (by decide) input
  rw [Nat.mul_zero, Nat.pow_zero, Nat.mul_one, Nat.zero_add] at parts
  rw [readInt, encodeInt, turns, parts]
  by_cases room : magnitude value < 2 ^ ty'.digits
  · rw [if_pos room, if_pos room]
    by_cases neg : value < 0
    · rw [if_pos neg]
      simp only [neg, decide_true, Bind.bind, Except.bind, if_true]
      cases negate ty' (magnitude value) <;> rfl
    · rw [if_neg neg]
      simp only [neg, decide_false, Bind.bind, Except.bind]
      rw [magnitude_of_nonneg neg]
      rfl
  · rw [if_neg room, if_neg room]
    rfl

lemma negate_eq (neg : value < 0) (room : magnitude value < 2 ^ ty.digits) :
    negate ty (magnitude value) =
      if ty.signed then .ok value
      else if value = -1 then .error .badTransactLog else .ok (2 ^ ty.digits + value) := by
  have size := magnitude_of_neg neg
  have room' : (magnitude value : ℤ) < 2 ^ ty.digits := by exact_mod_cast room
  rw [negate]
  by_cases signed : ty.signed
  · rw [if_pos signed, if_pos signed, if_neg (by omega)]
    congr 1
    omega
  · rw [if_neg signed, if_neg signed]
    by_cases one : value = -1
    · have zero : magnitude value = 0 := by omega
      rw [zero, if_pos one]
      simp
    · have positive : 0 < magnitude value := by omega
      have wraps : (2 ^ ty.digits - magnitude value) % 2 ^ ty.digits =
          2 ^ ty.digits - magnitude value :=
        Nat.mod_eq_of_lt (Nat.sub_lt (Nat.two_pow_pos _) positive)
      simp only [wraps]
      rw [if_neg (by omega), if_neg one]
      congr 1
      have cast : ((2 ^ ty.digits : ℕ) : ℤ) = 2 ^ ty.digits := by push_cast; rfl
      omega

/-- A value of the type it is read as is read as itself. -/
lemma readInt_encodeInt (inRange : ty.InRange value) (inRange' : ty'.InRange value) :
    readInt ty' (encodeInt ty value ++ input) = .ok (value, input) := by
  have room := magnitude_lt inRange'
  rw [readInt_parts inRange, if_pos room]
  by_cases neg : value < 0
  · have signed : ty'.signed := by
      by_contra unsigned
      have low := inRange'.1
      rw [if_neg unsigned] at low
      omega
    rw [if_pos neg, negate_eq neg room, if_pos signed]
    rfl
  · rw [if_neg neg]

/-- Reading fails if and only if the value is outside the range of the type, except that an unsigned
type takes a negative value below minus one, if it has as many bits as the magnitude. -/
theorem readInt_encodeInt_iff (inRange : ty.InRange value) :
    readInt ty' (encodeInt ty value ++ input) =
        (if ty'.InRange value then .ok (value, input) else .error .badTransactLog) ↔
      ¬ (ty'.signed = false ∧ -2 ^ ty'.digits ≤ value ∧ value < -1) := by
  by_cases inRange' : ty'.InRange value
  · rw [if_pos inRange', readInt_encodeInt inRange inRange']
    refine iff_of_true rfl fun wraps => ?_
    have low := inRange'.1
    rw [wraps.1, if_neg Bool.false_ne_true] at low
    omega
  · rw [if_neg inRange', readInt_parts inRange]
    have cast : ((2 ^ ty'.digits : ℕ) : ℤ) = 2 ^ ty'.digits := by push_cast; rfl
    by_cases neg : value < 0
    · have size := magnitude_of_neg neg
      have room : magnitude value < 2 ^ ty'.digits ↔ -2 ^ ty'.digits ≤ value := by omega
      by_cases low : -2 ^ ty'.digits ≤ value
      · have unsigned : ty'.signed = false := by
          by_contra signed
          refine inRange' ⟨?_, by omega⟩
          rwa [if_pos (Bool.eq_true_of_not_eq_false signed)]
        rw [if_pos (room.mpr low), if_pos neg, negate_eq neg (room.mpr low), unsigned,
          if_neg Bool.false_ne_true]
        by_cases one : value = -1
        · simp [one, Except.map]
        · have below : value < -1 := by omega
          simp [one, low, below, Except.map]
      · rw [if_neg (low ∘ room.mp)]
        simp [low]
    · have size := magnitude_of_nonneg neg
      have full : ¬ magnitude value < 2 ^ ty'.digits := by
        intro room
        refine inRange' ⟨?_, by omega⟩
        split_ifs <;> omega
      rw [if_neg full]
      refine iff_of_true rfl fun wraps => ?_
      omega

/-- Minus two is read as the last but one of the unsigned values. -/
theorem readInt_encodeInt_iff_two :
    readInt .size (encodeInt .int64 (-2) ++ [7]) =
        (if IntType.size.InRange (-2) then .ok (-2, [7]) else .error .badTransactLog) ↔
      ¬ (IntType.size.signed = false ∧ -2 ^ IntType.size.digits ≤ (-2 : ℤ) ∧ (-2 : ℤ) < -1) :=
  readInt_encodeInt_iff (by decide)

example : readInt .size (encodeInt .int64 (-2) ++ [7]) = .ok (2 ^ 64 - 2, [7]) := by decide

end Values

end SpecialtyMap.Log
