import ShaderFront.Text.Bytes

/-!
# Numerals

Whole numbers written in base ten, and code points written in base sixteen with a
fixed number of digits.
-/

namespace ShaderFront.Numeral

/-- The digit of a number below ten. -/
def digit (n : Nat) : UInt8 :=
  UInt8.ofNat (0x30 + n)

/-- A natural number in base ten, without leading zeros. -/
def ofNat (n : Nat) : Bytes :=
  if n < 10 then [digit n] else ofNat (n / 10) ++ [digit (n % 10)]

/-- An integer in base ten, with a minus sign if it is negative. -/
def ofInt : Int → Bytes
  | .ofNat n => ofNat n
  | .negSucc n => 0x2d :: ofNat (n + 1)

/-- Is this byte a digit of base ten? -/
def isDigit (b : UInt8) : Bool :=
  0x30 ≤ b && b ≤ 0x39

/-- The number that a row of digits stands for. -/
def value (digits : Bytes) : Nat :=
  digits.foldl (fun n b => 10 * n + (b.toNat - 0x30)) 0

/-- The lower-case digit of a number below sixteen. -/
def hexDigit (n : Nat) : UInt8 :=
  if n < 10 then digit n else UInt8.ofNat (0x57 + n)

/-- The lowest digits of a number in base sixteen, as many as asked for. -/
def hex : Nat → Nat → Bytes
  | 0, _ => []
  | width + 1, n => hex width (n / 16) ++ [hexDigit (n % 16)]

@[simp] theorem length_hex (width n : Nat) : (hex width n).length = width := by
  induction width generalizing n with
  | zero => rfl
  | succ width ih => simp [hex, ih]

end ShaderFront.Numeral
