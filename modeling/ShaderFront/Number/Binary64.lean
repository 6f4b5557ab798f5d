/-!
# Binary numbers of 64 bits

The value of a number literal is a binary floating-point number: a sign, an exponent
field of eleven bits and a fraction of 52 bits. All computation on it is exact
arithmetic on natural numbers, so no result depends on the machine.
-/

namespace ShaderFront

/-- A 64-bit binary floating-point number, given by its bit pattern. -/
structure Binary64 where
  /-- Sign, exponent field and fraction, from the highest bit down. -/
  bits : UInt64
  deriving DecidableEq, Repr, Inhabited

namespace Binary64

/-- The number zero with a positive sign. -/
def zero : Binary64 := ⟨0⟩

/-- The quiet not-a-number that stands for all of them. -/
def nan : Binary64 := ⟨0x7ff8000000000000⟩

/-- The bit pattern of positive infinity; every larger magnitude is not a number. -/
def infinityBits : Nat := 0x7ff0000000000000

/-- The value of the sign bit, `2 ^ 63`. -/
def signUnit : Nat := 0x8000000000000000

/-- The value of the lowest bit of the exponent field, `2 ^ 52`. -/
def exponentUnit : Nat := 0x10000000000000

/-- Is the sign bit set? -/
def negative (x : Binary64) : Bool :=
  signUnit ≤ x.bits.toNat

/-- The bits below the sign. -/
def magnitude (x : Binary64) : Nat :=
  x.bits.toNat % signUnit

/-- Is this one of the patterns that denote no number? -/
def isNaN (x : Binary64) : Bool :=
  infinityBits < x.magnitude

/-- Is this one of the two infinities? -/
def isInfinite (x : Binary64) : Bool :=
  x.magnitude = infinityBits

/-- Is this one of the two zeros? -/
def isZero (x : Binary64) : Bool :=
  x.magnitude = 0

/-- The whole number that is scaled by a power of two to give a finite magnitude. -/
def significand (x : Binary64) : Nat :=
  if x.magnitude < exponentUnit then x.magnitude else exponentUnit + x.magnitude % exponentUnit

/-- How far the power of two that scales the significand lies above the lowest one,
which is `2 ^ -1074`. -/
def scale (x : Binary64) : Nat :=
  x.magnitude / exponentUnit - 1

end Binary64

end ShaderFront
