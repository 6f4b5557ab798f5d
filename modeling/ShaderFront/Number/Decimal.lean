import ShaderFront.Number.Binary64
import ShaderFront.Text.Numeral

/-!
# Reading decimals

A number literal is a row of digits with at most one point. Its value is the binary
number nearest to the decimal; of two that are equally near, the one with the even
significand. A decimal too large for every binary number has no value.
-/

namespace ShaderFront

/-- The decimal `coefficient * 10 ^ exponent`. -/
structure Decimal where
  /-- The digits read as one whole number. -/
  coefficient : Nat
  /-- The power of ten that the coefficient is scaled by. -/
  exponent : Int
  deriving DecidableEq, Repr

/-- The whole number nearest to a quotient; a half goes to the even neighbour. -/
def roundDiv (num den : Nat) : Nat :=
  let quotient := num / den
  let remainder := num % den
  if 2 * remainder < den then quotient
  else if den < 2 * remainder then quotient + 1
  else quotient + quotient % 2

/-- The largest `k` with `2 ^ k ≤ num / den`, for positive numbers. -/
def floorLog2 (num den : Nat) : Int :=
  let k : Int := (num.log2 : Int) - den.log2
  if den * Nat.pow 2 k.toNat ≤ num * Nat.pow 2 (-k).toNat then k else k - 1

namespace Binary64

/-- The binary number nearest to a quotient of natural numbers, if it is not too large.
The unit of the result is the power of two that leaves 53 bits before the point, but
never less than `2 ^ -1074`. Rounding up may carry into the exponent field, which is
then one higher with an empty fraction, as it should be. -/
def nearest? (num den : Nat) : Option Binary64 :=
  if num = 0 then some zero else
  let unit := max (floorLog2 num den - 52) (-1074)
  let significand := roundDiv (num * Nat.pow 2 (-unit).toNat) (den * Nat.pow 2 unit.toNat)
  let bits := (unit + 1074).toNat * exponentUnit + significand
  if bits < infinityBits then some ⟨UInt64.ofNat bits⟩ else none

end Binary64

namespace Decimal

/-- The numerator of the decimal as a fraction. -/
def num (d : Decimal) : Nat :=
  d.coefficient * Nat.pow 10 d.exponent.toNat

/-- The denominator of the decimal as a fraction. -/
def den (d : Decimal) : Nat :=
  Nat.pow 10 (-d.exponent).toNat

/-- The binary number nearest to the decimal, if it is not too large. -/
def toBinary64? (d : Decimal) : Option Binary64 :=
  Binary64.nearest? d.num d.den

/-- Read a row of digits with at most one point in it. There must be a digit. -/
def ofText? (t : Bytes) : Option Decimal :=
  let whole := t.takeWhile Numeral.isDigit
  match t.dropWhile Numeral.isDigit with
  | [] => if whole.isEmpty then none else some ⟨Numeral.value whole, 0⟩
  | point :: fraction =>
    if point = 0x2e && fraction.all Numeral.isDigit && !(whole.isEmpty && fraction.isEmpty) then
      some ⟨Numeral.value (whole ++ fraction), -(fraction.length : Int)⟩
    else none

end Decimal

/-- The value of a number literal: absent if the text is no decimal or is too large. -/
def Binary64.ofText? (t : Bytes) : Option Binary64 :=
  (Decimal.ofText? t).bind Decimal.toBinary64?

end ShaderFront
