import ShaderFront.Diagnostic.Kind
import ShaderFront.Source.Position

/-!
# Diagnostics

A diagnostic says what is wrong and where. With the source text at hand it can show
the line that it is about, with a mark below the place.
-/

namespace ShaderFront

/-- A failure at a place of a source text. -/
structure Diagnostic where
  /-- What sort of failure it is. -/
  kind : ErrorKind
  /-- What is wrong, without the place. -/
  message : Bytes
  /-- The stretch of text it is about. -/
  span : Span
  /-- The source text, or nothing if it is not at hand. -/
  source : Bytes := []
  deriving DecidableEq, Repr

namespace Diagnostic

/-- Does the diagnostic have this kind? -/
def hasKind (d : Diagnostic) (k : ErrorKind) : Bool :=
  d.kind = k

/-- The message with the source text put in place of whatever was there. -/
def withSource (d : Diagnostic) (source : Bytes) : Diagnostic :=
  { d with source := source }

/-- The message after its position. A line of zero means that there is none. -/
def headline (d : Diagnostic) : Bytes :=
  if d.span.start.line = 0 then d.message
  else d.span.start.text ++ utf8 ": " ++ d.message

/-- The line of the source that the diagnostic is about, without carriage returns at
its end, if there is such a line. -/
def sourceLine? (d : Diagnostic) : Option Bytes :=
  if d.source.isEmpty || d.span.start.line < 1 then none
  else ((splitLines d.source)[(d.span.start.line - 1).toNat]?).map trimReturns

/-- The column to mark in a line: the one asked for, moved into the line or to the
place just after it. -/
def shownColumn (line : Bytes) (column : Int) : Nat :=
  min (max column 1).toNat ((decode line).length + 1)

/-- The source line below the message, with a mark under the column. -/
def excerpt (message : Bytes) (number : Int) (line : Bytes) (column : Nat) : Bytes :=
  utf8 "error: " ++ message ++ utf8 "\n" ++
  utf8 "  --> line " ++ Numeral.ofInt number ++ utf8 ":" ++ Numeral.ofNat column ++ utf8 "\n" ++
  utf8 "   |\n" ++
  padLeft 3 (Numeral.ofInt number) ++ utf8 "| " ++ line ++ utf8 "\n" ++
  utf8 "   | " ++ blanks (column - 1) ++ utf8 "^\n"

/-- The diagnostic with the line it is about. Where there is no such line, or no
source to take it from, only the headline is shown. -/
def withContext (d : Diagnostic) : Bytes :=
  match d.sourceLine? with
  | some line =>
    excerpt d.message d.span.start.line line (shownColumn line d.span.start.column)
  | none => d.headline

end Diagnostic

end ShaderFront
