import ShaderFront.Text.Quoted

/-!
# Progress reports

A report is a line of keys with their values. A value is quoted if it would not be
clear where it ends otherwise.
-/

namespace ShaderFront

/-- Must a value with this glyph be quoted? Among the characters of ASCII these are the
blank, the equals sign, the quote and the controls, apart from the delete character. -/
def needsQuotes : Glyph → Bool
  | .stray _ => true
  | .char c =>
    if c.toNat < 0x80 then c.toNat ≤ 0x20 || c = '=' || c = '"'
    else c = '�' || !isPrintable c

/-- A value as it is reported. -/
def logValue (t : Bytes) : Bytes :=
  if t.isEmpty || (decode t).any needsQuotes then quoted t else t

/-- A step of the work on a file that may be reported. -/
structure LogEntry where
  /-- What was done. -/
  message : String
  /-- The file. -/
  path : Bytes
  /-- What is counted. -/
  what : String
  /-- How many of them there are. -/
  count : Nat
  deriving DecidableEq, Repr

/-- The line of a report. The time comes first, if it is known. -/
def LogEntry.line (e : LogEntry) (time : Option Bytes) : Bytes :=
  (match time with
    | some t => utf8 "time=" ++ t ++ utf8 " "
    | none => []) ++
  utf8 "level=DEBUG msg=" ++ logValue (utf8 e.message) ++ utf8 " path=" ++ logValue e.path ++
    utf8 " " ++ utf8 e.what ++ utf8 "=" ++ Numeral.ofNat e.count ++ utf8 "\n"

end ShaderFront
