import ShaderFront.Text.Glyph
import ShaderFront.Text.Numeral

/-!
# Positions

A place in a source text is a line and a column, both counted from one. A column
counts glyphs, so a stray byte is as wide as a character. Positions of tokens that
come from elsewhere may be any integers.
-/

namespace ShaderFront

/-- A line and a column. -/
structure Position where
  /-- The line, counted from one in a scanned text. -/
  line : Int
  /-- The column in glyphs, counted from one in a scanned text. -/
  column : Int
  deriving DecidableEq, Repr, Inhabited

namespace Position

/-- Where every text starts. -/
def start : Position := ⟨1, 1⟩

/-- The position that stands for none. -/
def none : Position := ⟨0, 0⟩

/-- The position after a glyph: a line feed starts a line, anything else takes a column. -/
def advance (p : Position) (g : Glyph) : Position :=
  if g = .char '\n' then ⟨p.line + 1, 1⟩ else ⟨p.line, p.column + 1⟩

/-- The position after a row of glyphs. -/
def advanceOver (p : Position) (gs : List Glyph) : Position :=
  gs.foldl advance p

@[simp] theorem advanceOver_nil (p : Position) : p.advanceOver [] = p := rfl

@[simp] theorem advanceOver_cons (p : Position) (g : Glyph) (gs : List Glyph) :
    p.advanceOver (g :: gs) = (p.advance g).advanceOver gs := rfl

/-- Advancing over two rows is advancing over one and then over the other. -/
theorem advanceOver_append (p : Position) (gs hs : List Glyph) :
    p.advanceOver (gs ++ hs) = (p.advanceOver gs).advanceOver hs :=
  List.foldl_append

/-- A position as it is printed, the line before the column. -/
def text (p : Position) : Bytes :=
  Numeral.ofInt p.line ++ utf8 ":" ++ Numeral.ofInt p.column

end Position

/-- A stretch of text. -/
structure Span where
  /-- Where the stretch starts. -/
  start : Position
  /-- Where the stretch stops, if that is recorded. -/
  stop : Position
  deriving DecidableEq, Repr, Inhabited

namespace Span

/-- A stretch of which only the start is recorded. -/
def startingAt (p : Position) : Span := ⟨p, .none⟩

/-- The empty stretch at a position. -/
def point (p : Position) : Span := ⟨p, p⟩

/-- The stretch of a tree that was not read from a text. -/
def nowhere : Span := ⟨.none, .none⟩

end Span

end ShaderFront
