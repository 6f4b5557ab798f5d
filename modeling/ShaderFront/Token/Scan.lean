import ShaderFront.Diagnostic.Basic
import ShaderFront.Text.Letter
import ShaderFront.Token.Basic

/-!
# Scanning

A source text is read from left to right as a row of lexical elements: blanks and
comments, which leave nothing behind, and tokens. The first glyph of an element
decides what it can be, and the element takes as many glyphs as that allows. What
follows the first glyph is described by its extent, the number of further glyphs, so
an element always takes at least one and never more than there are.

The row of tokens ends with exactly one end token. A text with an element that cannot
be read has no tokens, only the diagnostic of that element.
-/

namespace ShaderFront

/-- Why a lexical element cannot be read. -/
inductive LexicalCause where
  /-- Digits and points that make no number, or one that is too large. -/
  | malformedNumber (text : Bytes)
  /-- A character that starts no element. -/
  | unexpectedCharacter (c : Char)
  /-- A number sign with no name after it. -/
  | missingAttributeName
  /-- A bracketed attribute with nothing between the brackets. -/
  | emptyAttributeName
  /-- One half of an operator that is written with two equal characters. -/
  | halfOperator (c : Char)
  /-- A string literal that the text ends in. -/
  | unterminatedString
  /-- A block comment that the text ends in. -/
  | unterminatedComment
  /-- A bracketed attribute that the text ends in. -/
  | unterminatedAttribute
  deriving DecidableEq, Repr

namespace LexicalCause

/-- The kind under which a cause is reported. -/
def kind : LexicalCause → ErrorKind
  | malformedNumber _ => .malformedNumber
  | unexpectedCharacter _ | missingAttributeName | emptyAttributeName => .unexpectedCharacter
  | halfOperator _ => .unknownOperator
  | unterminatedString => .unterminatedString
  | unterminatedComment => .unterminatedComment
  | unterminatedAttribute => .unterminatedAttribute

/-- A cause in words. -/
def message : LexicalCause → Bytes
  | malformedNumber t => utf8 "malformed number " ++ quoted t
  | unexpectedCharacter c => utf8 "unexpected character " ++ quotedChar c
  | missingAttributeName =>
    utf8 "unexpected character " ++ quotedChar '#' ++ utf8 ", expected attribute name after '#'"
  | emptyAttributeName => utf8 "empty attribute name in '#[]'"
  | halfOperator c => utf8 "unknown operator " ++ quoted (String.utf8EncodeChar c)
  | unterminatedString => utf8 "unterminated string"
  | unterminatedComment => utf8 "unterminated block comment"
  | unterminatedAttribute => utf8 "unterminated attribute, expected ']'"

end LexicalCause

/-! ## Classes of glyphs -/

/-- Is this character a blank between elements? -/
def isGap (c : Char) : Bool :=
  c = ' ' || c = '\t' || c = '\r' || c = '\n'

/-- May this character start a name? -/
def isNameStart (c : Char) : Bool :=
  isLetter c || c = '_'

/-- May this character stand in a name? -/
def isNameChar (c : Char) : Bool :=
  isLetter c || c.isDigit || c = '_'

namespace Glyph

/-- May this glyph stand in a name? -/
def inName : Glyph → Bool
  | .char c => isNameChar c
  | .stray _ => false

/-- May this glyph stand in a number literal? -/
def inNumber : Glyph → Bool
  | .char c => c.isDigit || c = '.'
  | .stray _ => false

end Glyph

/-! ## Elements -/

/-- What a lexical element is read as. -/
inductive Reading where
  /-- A blank or a comment. -/
  | gap
  /-- A token. -/
  | symbol (s : Symbol)
  /-- Nothing that can be read. -/
  | fault (cause : LexicalCause)
  deriving DecidableEq, Repr

/-- A lexical element at the head of a text. -/
structure Element where
  /-- What it is read as. -/
  reading : Reading
  /-- How many glyphs it takes after its first; of an element that cannot be read, how
  many were looked at before that was clear. -/
  extent : Nat
  deriving DecidableEq, Repr

/-- The number of glyphs up to and with the end of a block comment, if it ends. -/
def commentEnd? : List Glyph → Option Nat
  | [] => none
  | g :: rest =>
    if g = .char '*' && rest.head? = some (.char '/') then some 2
    else (commentEnd? rest).map (· + 1)

/-- The element that starts with a slash: a comment or the operator. -/
def slashElement (rest : List Glyph) : Element :=
  match rest with
  | .char '/' :: comment => ⟨.gap, 1 + (comment.takeWhile (· ≠ .char '\n')).length⟩
  | .char '*' :: comment =>
    match commentEnd? comment with
    | some n => ⟨.gap, 1 + n⟩
    | none => ⟨.fault .unterminatedComment, rest.length⟩
  | _ => ⟨.symbol (.operator .divide), 0⟩

/-- The string literal that starts with the given quote. It goes on to the next such
quote, over lines if need be; nothing in it is special. -/
def stringElement (quote : Char) (rest : List Glyph) : Element :=
  match rest.dropWhile (· ≠ .char quote) with
  | [] => ⟨.fault .unterminatedString, rest.length⟩
  | _ :: _ =>
    let body := rest.takeWhile (· ≠ .char quote)
    ⟨.symbol (.string (glyphBytes body)), body.length + 1⟩

/-- The attribute after an opening bracket, with its name up to the closing one. -/
def bracketedAttribute (rest : List Glyph) : Element :=
  match rest.dropWhile (· ≠ .char ']') with
  | [] => ⟨.fault .unterminatedAttribute, 1 + rest.length⟩
  | _ :: _ =>
    let name := rest.takeWhile (· ≠ .char ']')
    if name.isEmpty then ⟨.fault .emptyAttributeName, 1⟩
    else ⟨.symbol (.attr (glyphBytes name)), name.length + 2⟩

/-- The attribute that starts with a number sign: a bracketed name or a bare one. -/
def attributeElement (rest : List Glyph) : Element :=
  match rest with
  | .char '[' :: name => bracketedAttribute name
  | _ =>
    let name := rest.takeWhile Glyph.inName
    if name.isEmpty then ⟨.fault .missingAttributeName, 0⟩
    else ⟨.symbol (.attr (glyphBytes name)), name.length⟩

/-- An operator that is longer if the given character follows. -/
def longerIf (rest : List Glyph) (next : Char) (long short : Reading) : Element :=
  if rest.head? = some (.char next) then ⟨long, 1⟩ else ⟨short, 0⟩

/-- The operator that starts with a character other than the slash. -/
def operatorElement? (c : Char) (rest : List Glyph) : Option Element :=
  match c with
  | '=' => some (longerIf rest '=' (.symbol (.operator .equals)) (.symbol (.operator .assign)))
  | '!' => some (longerIf rest '=' (.symbol (.operator .notEquals)) (.symbol (.operator .not)))
  | '<' => some (longerIf rest '=' (.symbol (.operator .lessEqual)) (.symbol (.operator .less)))
  | '>' =>
    some (longerIf rest '=' (.symbol (.operator .greaterEqual)) (.symbol (.operator .greater)))
  | '&' => some (longerIf rest '&' (.symbol (.operator .and)) (.fault (.halfOperator '&')))
  | '|' => some (longerIf rest '|' (.symbol (.operator .or)) (.fault (.halfOperator '|')))
  | '+' => some ⟨.symbol (.operator .plus), 0⟩
  | '-' => some ⟨.symbol (.operator .minus), 0⟩
  | '*' => some ⟨.symbol (.operator .times), 0⟩
  | '%' => some ⟨.symbol (.operator .mod), 0⟩
  | _ => none

/-- The number literal that starts with a digit: the longest row of digits and points. -/
def numberElement (first : Char) (rest : List Glyph) : Element :=
  let run := rest.takeWhile Glyph.inNumber
  let text := glyphBytes (.char first :: run)
  match Binary64.ofText? text with
  | some value => ⟨.symbol (.number value), run.length⟩
  | none => ⟨.fault (.malformedNumber text), run.length⟩

/-- The symbol of a word: a truth value, a reserved word or a name. -/
def wordSymbol (word : Bytes) : Symbol :=
  if word = utf8 "true" then .bool true
  else if word = utf8 "false" then .bool false
  else match Keyword.ofText? word with
    | some k => .keyword k
    | none => .ident word

/-- The word that starts with a letter or an underscore. -/
def wordElement (first : Char) (rest : List Glyph) : Element :=
  let run := rest.takeWhile Glyph.inName
  ⟨.symbol (wordSymbol (glyphBytes (.char first :: run))), run.length⟩

/-- The element at the head of a text with the given first glyph. -/
def element (g : Glyph) (rest : List Glyph) : Element :=
  match g with
  | .stray _ => ⟨.fault (.unexpectedCharacter g.shown), 0⟩
  | .char c =>
    match Punct.ofChar? c, operatorElement? c rest with
    | some p, _ => ⟨.symbol (.punct p), 0⟩
    | none, some e => e
    | none, none =>
      if isGap c then ⟨.gap, 0⟩
      else if c = '/' then slashElement rest
      else if c = '"' || c = '\'' then stringElement c rest
      else if c = '#' then attributeElement rest
      else if c.isDigit then numberElement c rest
      else if isNameStart c then wordElement c rest
      else ⟨.fault (.unexpectedCharacter c), 0⟩

/-! ## Whole texts -/

/-- A lexical element that cannot be read. -/
structure LexicalFault where
  /-- Why it cannot be read. -/
  cause : LexicalCause
  /-- From the start of the element to the end of what was looked at. -/
  span : Span
  deriving DecidableEq, Repr

/-- The tokens of a row of glyphs that starts at a position. -/
def scan (p : Position) (gs : List Glyph) : Except LexicalFault (List Token) :=
  match gs with
  | [] => .ok [Token.eof p]
  | g :: rest =>
    let e := element g rest
    let text := g :: rest.take e.extent
    let after := p.advanceOver text
    match e.reading with
    | .gap => scan after (rest.drop e.extent)
    | .symbol s => (scan after (rest.drop e.extent)).map (⟨s, glyphBytes text, p⟩ :: ·)
    | .fault cause => .error ⟨cause, ⟨p, after⟩⟩
termination_by gs.length
decreasing_by all_goals simp only [List.length_cons, List.length_drop]; omega

/-- The diagnostic of a lexical fault in a source text. -/
def LexicalFault.diagnostic (f : LexicalFault) (source : Bytes) : Diagnostic :=
  { kind := f.cause.kind, message := f.cause.message, span := f.span, source := source }

/-- The tokens of a source text, or the diagnostic of its first faulty element. -/
def tokenize (source : Bytes) : Except Diagnostic (List Token) :=
  (scan .start (decode source)).mapError (·.diagnostic source)

end ShaderFront
