import ShaderFront.Text.Glyph
import ShaderFront.Text.Numeral
import ShaderFront.Text.Printable

/-!
# Quoted text

Text between quotes, written so that it takes one line and can be told apart from
any other text. Printable characters stand for themselves. The quote and the
backslash are preceded by a backslash, the common controls have a letter each, and
everything else is written by its code in base sixteen; a stray byte is written by
its own value.
-/

namespace ShaderFront

/-- The letter that names a common control character after a backslash. -/
def controlLetter? (c : Char) : Option Char :=
  match c.toNat with
  | 0x07 => some 'a'
  | 0x08 => some 'b'
  | 0x09 => some 't'
  | 0x0a => some 'n'
  | 0x0b => some 'v'
  | 0x0c => some 'f'
  | 0x0d => some 'r'
  | _ => none

/-- A character that is not printable, by its letter or its code. -/
def escapeCode (c : Char) : Bytes :=
  match controlLetter? c with
  | some letter => utf8 "\\" ++ String.utf8EncodeChar letter
  | none =>
    if c.toNat < 0x80 then utf8 "\\x" ++ Numeral.hex 2 c.toNat
    else if c.toNat < 0x10000 then utf8 "\\u" ++ Numeral.hex 4 c.toNat
    else utf8 "\\U" ++ Numeral.hex 8 c.toNat

/-- A glyph as it is written between two of the given quotes. -/
def Glyph.escaped (quote : Char) : Glyph → Bytes
  | .stray b => utf8 "\\x" ++ Numeral.hex 2 b.toNat
  | .char c =>
    if c = quote || c = '\\' then utf8 "\\" ++ String.utf8EncodeChar c
    else if isPrintable c then String.utf8EncodeChar c
    else escapeCode c

/-- A text between double quotes. -/
def quoted (t : Bytes) : Bytes :=
  utf8 "\"" ++ (decode t).flatMap (Glyph.escaped '"') ++ utf8 "\""

/-- A character between single quotes. -/
def quotedChar (c : Char) : Bytes :=
  utf8 "'" ++ Glyph.escaped '\'' (.char c) ++ utf8 "'"

end ShaderFront
