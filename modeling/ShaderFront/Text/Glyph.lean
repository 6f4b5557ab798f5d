import ShaderFront.Text.Bytes

/-!
# Glyphs

A byte text is read as a sequence of glyphs: the characters that UTF-8 decoding
finds, and the bytes that belong to no well-formed character. Overlong forms,
surrogates and values above U+10FFFF are not well formed. A byte that starts no
well-formed character stands alone, and reading goes on with the byte after it, so
no byte is lost.
-/

namespace ShaderFront

/-- One unit of text: a decoded character, or a byte outside every character. -/
inductive Glyph where
  /-- A character, written by its UTF-8 bytes. -/
  | char (c : Char)
  /-- A byte that is part of no well-formed character. -/
  | stray (b : UInt8)
  deriving DecidableEq, Repr

namespace Glyph

/-- The bytes that a glyph was read from. -/
def bytes : Glyph → Bytes
  | .char c => String.utf8EncodeChar c
  | .stray b => [b]

/-- The character a glyph is shown as; a stray byte shows as the replacement character. -/
def shown : Glyph → Char
  | .char c => c
  | .stray _ => '�'

end Glyph

/-- The bytes of a sequence of glyphs. -/
def glyphBytes (gs : List Glyph) : Bytes :=
  gs.flatMap Glyph.bytes

/-- Bytes that continue a character. -/
def isTail (b : UInt8) : Bool :=
  0x80 ≤ b && b ≤ 0xbf

/-- The six value bits of a continuing byte. -/
def tailBits (b : UInt8) : Nat :=
  b.toNat % 0x40

/-- The character of two bytes, for U+0080 to U+07FF. -/
def pairChar? (a b : UInt8) : Option Char :=
  if 0xc2 ≤ a && a ≤ 0xdf && isTail b then
    some (Char.ofNat (a.toNat % 0x20 * 0x40 + tailBits b))
  else none

/-- The character of three bytes, for U+0800 to U+FFFF without the surrogates. -/
def tripleChar? (a b c : UInt8) : Option Char :=
  if 0xe0 ≤ a && a ≤ 0xef && isTail b && isTail c &&
      (a != 0xe0 || 0xa0 ≤ b) && (a != 0xed || b ≤ 0x9f) then
    some (Char.ofNat ((a.toNat % 0x10 * 0x40 + tailBits b) * 0x40 + tailBits c))
  else none

/-- The character of four bytes, for U+10000 to U+10FFFF. -/
def quadChar? (a b c d : UInt8) : Option Char :=
  if 0xf0 ≤ a && a ≤ 0xf4 && isTail b && isTail c && isTail d &&
      (a != 0xf0 || 0x90 ≤ b) && (a != 0xf4 || b ≤ 0x8f) then
    some (Char.ofNat
      (((a.toNat % 0x08 * 0x40 + tailBits b) * 0x40 + tailBits c) * 0x40 + tailBits d))
  else none

/-- Read a text as glyphs. The first byte decides how many bytes a character may
have, so at most one of the four forms fits. -/
def decode : Bytes → List Glyph
  | [] => []
  | a :: s₁ =>
    if a < 0x80 then .char (Char.ofNat a.toNat) :: decode s₁
    else match s₁ with
      | [] => [.stray a]
      | b :: s₂ =>
        match pairChar? a b with
        | some x => .char x :: decode s₂
        | none =>
          match s₂ with
          | [] => .stray a :: decode [b]
          | c :: s₃ =>
            match tripleChar? a b c with
            | some x => .char x :: decode s₃
            | none =>
              match s₃ with
              | [] => .stray a :: decode [b, c]
              | d :: s₄ =>
                match quadChar? a b c d with
                | some x => .char x :: decode s₄
                | none => .stray a :: decode (b :: c :: d :: s₄)

/-- Does decoding find nothing but characters? -/
def isWellFormed (t : Bytes) : Bool :=
  (decode t).all fun g => match g with
    | .char _ => true
    | .stray _ => false

/-- The string of a text, if decoding finds nothing but characters. -/
def toString? (t : Bytes) : Option String :=
  if isWellFormed t then some (String.ofList ((decode t).map Glyph.shown)) else none

end ShaderFront
