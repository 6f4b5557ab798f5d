import ShaderFront.Number.Shortest

/-!
# Written numbers

How the value of a number literal is printed: the shortest digits that read back,
positional for moderate sizes and with an exponent otherwise.
-/

namespace ShaderFront

namespace Decimal

/-- Digits with a point after the given number of them. Zeros fill the gap between
the point and the digits on either side; without a fraction there is no point. -/
def positional (digits : Bytes) (place : Int) : Bytes :=
  if place ≤ 0 then utf8 "0." ++ List.replicate (-place).toNat 0x30 ++ digits
  else
    let whole := digits.take place.toNat
    let fraction := digits.drop place.toNat
    let zeros := List.replicate (place.toNat - digits.length) 0x30
    if fraction.isEmpty then whole ++ zeros else whole ++ utf8 "." ++ fraction

/-- An exponent with its sign and at least two digits. -/
def exponentText (e : Int) : Bytes :=
  let digits := Numeral.ofNat e.natAbs
  (if e < 0 then utf8 "-" else utf8 "+") ++ List.replicate (2 - digits.length) 0x30 ++ digits

/-- Digits with a point after the first one, and the power of ten. -/
def scientific (digits : Bytes) (exponent : Int) : Bytes :=
  let fraction := digits.drop 1
  digits.take 1 ++ (if fraction.isEmpty then [] else utf8 "." ++ fraction) ++
    utf8 "e" ++ exponentText exponent

/-- A decimal in positional notation if the exponent of its first digit is at least
`-4` and at most `5`, and with an exponent otherwise. -/
def text (d : Decimal) : Bytes :=
  let digits := Numeral.ofNat d.coefficient
  let place : Int := digits.length + d.exponent
  if -3 ≤ place && place ≤ 6 then positional digits place else scientific digits (place - 1)

end Decimal

/-- A binary number as it is printed. -/
def Binary64.text (x : Binary64) : Bytes :=
  if x.isNaN then utf8 "NaN"
  else if x.isInfinite then (if x.negative then utf8 "-Inf" else utf8 "+Inf")
  else
    (if x.negative then utf8 "-" else []) ++
      (if x.isZero then utf8 "0" else (Decimal.shortest x.abs).text)

end ShaderFront
