import Mathlib.Data.Rat.Floor

/-!
# Decimal numbers

Conversion, rounding and printing of `Double`, for exact rationals. A rational with a finite decimal
expansion is printed with all its decimals, up to the seventeen a `Double` can need, and with one
decimal at least.
-/

namespace SpecialtyMap.Number

/-- `Int(x)`: towards zero. -/
def truncate (x : ℚ) : ℤ := if 0 ≤ x then ⌊x⌋ else ⌈x⌉

/-- `round(x)`: to the nearest integer, halves away from zero. -/
def roundAway (x : ℚ) : ℤ := if 0 ≤ x then ⌊x + 1 / 2⌋ else ⌈x - 1 / 2⌉

/-- The decimals of a number between zero and one, up to the last that is not zero. -/
def decimals : Nat → ℚ → List Char
  | 0, _ => []
  | places + 1, x =>
    let digit := ⌊10 * x⌋
    let rest := 10 * x - digit
    Nat.digitChar digit.toNat :: if rest = 0 then [] else decimals places rest

/-- `String(x)`. -/
def description (x : ℚ) : String :=
  let size := |x|
  (if x < 0 then "-" else "") ++ ⌊size⌋.toNat.repr ++ "." ++
    String.ofList (decimals 17 (size - ⌊size⌋))

example : description (3018281828 / 1000000000) = "3.018281828" := by decide +kernel

end SpecialtyMap.Number
