import ShaderFront.Number.Decimal

/-!
# Shortest decimals

A finite binary number is written with the fewest digits that read back as the same
number. For each number of digits in turn the two neighbours of the exact value on
the grid of such decimals are tried; the first grid with a hit decides, and of two
hits on it the nearer one is taken, or the even one if both are equally near.
-/

namespace ShaderFront

namespace Binary64

/-- The numerator of a finite magnitude as a fraction over `2 ^ 1074`. -/
def exactNum (x : Binary64) : Nat :=
  x.significand * Nat.pow 2 x.scale

/-- The denominator that goes with `exactNum`. -/
def exactDen : Nat :=
  Nat.pow 2 1074

/-- The magnitude with the sign cleared. -/
def abs (x : Binary64) : Binary64 :=
  ⟨UInt64.ofNat x.magnitude⟩

/-- The exact value of a finite magnitude as a decimal. -/
def exactDecimal (x : Binary64) : Decimal :=
  ⟨x.exactNum * Nat.pow 5 1074, -1074⟩

end Binary64

/-- The number of decimal digits before the point of a positive quotient; zero or
negative if the quotient is below one, counting the zeros after the point. -/
def pointPlace (num den : Nat) : Int :=
  if den ≤ num then ((Numeral.ofNat (num / den)).length : Int)
  else 1 - ((Numeral.ofNat ((den - 1) / num)).length : Int)

namespace Decimal

/-- Move the zeros at the end of the coefficient into the exponent. -/
def trim (d : Decimal) : Decimal :=
  if h : d.coefficient ≠ 0 ∧ d.coefficient % 10 = 0 then
    trim ⟨d.coefficient / 10, d.exponent + 1⟩
  else d
termination_by d.coefficient
decreasing_by exact Nat.div_lt_self (by omega) (by omega)

/-- Is `x` the binary number nearest to the decimal? -/
def readsBack (d : Decimal) (x : Binary64) : Bool :=
  d.toBinary64? = some x

/-- The best decimal with the given number of digits that reads back as the number
`x`, which is finite and not negative, if there is one. -/
def withDigits? (x : Binary64) (digits : Nat) : Option Decimal :=
  let exponent := pointPlace x.exactNum Binary64.exactDen - digits
  let num := x.exactNum * Nat.pow 10 (-exponent).toNat
  let den := Binary64.exactDen * Nat.pow 10 exponent.toNat
  let lower : Decimal := ⟨num / den, exponent⟩
  let upper : Decimal := ⟨num / den + 1, exponent⟩
  let remainder := num % den
  match lower.readsBack x, upper.readsBack x with
  | true, true =>
    if 2 * remainder < den then some lower
    else if den < 2 * remainder then some upper
    else if lower.coefficient % 2 = 0 then some lower else some upper
  | true, false => some lower
  | false, true => some upper
  | false, false => none

/-- The shortest decimal that reads back as the number `x`, which is finite and
positive. Seventeen digits are always enough; the exact value closes the search. -/
def shortest (x : Binary64) : Decimal :=
  (((List.range 17).findSome? fun n => withDigits? x (n + 1)).getD x.exactDecimal).trim

end Decimal

end ShaderFront
