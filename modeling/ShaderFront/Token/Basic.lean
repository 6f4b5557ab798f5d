import ShaderFront.Number.Written
import ShaderFront.Source.Position
import ShaderFront.Text.Quoted
import ShaderFront.Token.Operator

/-!
# Tokens

The words of the language. A token is a symbol, the text it was read from, and the
position where that text starts. The symbol alone decides what the grammar makes of
the token.
-/

namespace ShaderFront

/-- Punctuation marks. -/
inductive Punct where
  | openBrace
  | closeBrace
  | openParen
  | closeParen
  | colon
  | semicolon
  | comma
  deriving DecidableEq, Repr

namespace Punct

/-- Every mark. -/
def all : List Punct :=
  [openBrace, closeBrace, openParen, closeParen, colon, semicolon, comma]

/-- The character of a mark. -/
def char : Punct → Char
  | openBrace => '\x7b'
  | closeBrace => '\x7d'
  | openParen => '('
  | closeParen => ')'
  | colon => ':'
  | semicolon => ';'
  | comma => ','

/-- The mark of a character. -/
def ofChar? (c : Char) : Option Punct :=
  all.find? fun p => p.char = c

/-- How a mark is spelled. -/
def spelling (p : Punct) : String :=
  String.singleton p.char

end Punct

/-- Reserved words, apart from the two truth values. -/
inductive Keyword where
  /-- `if` -/
  | cond
  /-- `float` -/
  | float
  /-- `in` -/
  | input
  /-- `vec3` -/
  | vec3
  /-- `vec4` -/
  | vec4
  /-- `void` -/
  | void
  /-- `struct` -/
  | struct
  /-- `fn` -/
  | fn
  /-- `let` -/
  | binding
  /-- `mut` -/
  | mutable
  deriving DecidableEq, Repr

namespace Keyword

/-- Every reserved word, apart from the two truth values. -/
def all : List Keyword :=
  [cond, float, input, vec3, vec4, void, struct, fn, binding, mutable]

/-- How a word is spelled. -/
def spelling : Keyword → String
  | cond => "if"
  | float => "float"
  | input => "in"
  | vec3 => "vec3"
  | vec4 => "vec4"
  | void => "void"
  | struct => "struct"
  | fn => "fn"
  | binding => "let"
  | mutable => "mut"

/-- The word of a text. -/
def ofText? (t : Bytes) : Option Keyword :=
  all.find? fun k => utf8 k.spelling = t

/-- Does the word name a type? -/
def isType : Keyword → Bool
  | float | vec3 | vec4 | void => true
  | _ => false

/-- Does the word name a type that is built from components? -/
def isVector : Keyword → Bool
  | vec3 | vec4 => true
  | _ => false

end Keyword

/-- What sort of token something is. Sorts are also exchanged by number; a number
beyond the known sorts is kept as it is. -/
inductive TokenKind where
  /-- The end of the text. -/
  | eof
  /-- A punctuation mark. -/
  | punct (p : Punct)
  /-- An operator. -/
  | operator
  /-- A truth value. -/
  | bool
  /-- A number literal. -/
  | number
  /-- A string literal. -/
  | string
  /-- A name. -/
  | ident
  /-- An attribute, written after a number sign. -/
  | attr
  /-- A reserved word. -/
  | keyword (k : Keyword)
  /-- A number beyond the known sorts, counted from zero. -/
  | unassigned (n : Nat)
  deriving DecidableEq, Repr

namespace TokenKind

/-- The number of a sort. -/
def code : TokenKind → Nat
  | eof => 0
  | punct .openBrace => 1
  | punct .closeBrace => 2
  | punct .openParen => 3
  | punct .closeParen => 4
  | punct .colon => 5
  | punct .semicolon => 6
  | punct .comma => 7
  | operator => 8
  | bool => 9
  | number => 10
  | string => 11
  | ident => 12
  | attr => 13
  | keyword .cond => 14
  | keyword .float => 15
  | keyword .input => 16
  | keyword .vec3 => 17
  | keyword .vec4 => 18
  | keyword .void => 19
  | keyword .struct => 20
  | keyword .fn => 21
  | keyword .binding => 22
  | keyword .mutable => 23
  | unassigned n => n + 24

/-- The sort of a number. -/
def ofCode : Nat → TokenKind
  | 0 => eof
  | 1 => punct .openBrace
  | 2 => punct .closeBrace
  | 3 => punct .openParen
  | 4 => punct .closeParen
  | 5 => punct .colon
  | 6 => punct .semicolon
  | 7 => punct .comma
  | 8 => operator
  | 9 => bool
  | 10 => number
  | 11 => string
  | 12 => ident
  | 13 => attr
  | 14 => keyword .cond
  | 15 => keyword .float
  | 16 => keyword .input
  | 17 => keyword .vec3
  | 18 => keyword .vec4
  | 19 => keyword .void
  | 20 => keyword .struct
  | 21 => keyword .fn
  | 22 => keyword .binding
  | 23 => keyword .mutable
  | n + 24 => unassigned n

@[simp] theorem ofCode_code (k : TokenKind) : ofCode k.code = k := by
  cases k with
  | punct p => cases p <;> rfl
  | keyword w => cases w <;> rfl
  | _ => rfl

/-- What a sort is called. -/
def name : TokenKind → String
  | eof => "EOF"
  | punct p => p.spelling
  | operator => "Operator"
  | bool => "Bool"
  | number => "Number"
  | string => "String"
  | ident => "Identifier"
  | attr => "Attribute"
  | keyword k => k.spelling
  | unassigned _ => "Unknown"

end TokenKind

/-- A token as the grammar sees it: its sort and what belongs to the sort. -/
inductive Symbol where
  /-- The end of the text. -/
  | eof
  /-- A punctuation mark. -/
  | punct (p : Punct)
  /-- An operator. -/
  | operator (op : Operator)
  /-- A truth value. -/
  | bool (value : Bool)
  /-- A number literal with its value. -/
  | number (value : Binary64)
  /-- A string literal with the text between its quotes. -/
  | string (text : Bytes)
  /-- A name. -/
  | ident (name : Bytes)
  /-- An attribute with its name. -/
  | attr (name : Bytes)
  /-- A reserved word. -/
  | keyword (k : Keyword)
  /-- A token of no known sort. -/
  | unassigned (n : Nat)
  deriving DecidableEq, Repr

namespace Symbol

/-- The sort of a symbol. -/
def kind : Symbol → TokenKind
  | eof => .eof
  | punct p => .punct p
  | operator _ => .operator
  | bool _ => .bool
  | number _ => .number
  | string _ => .string
  | ident _ => .ident
  | attr _ => .attr
  | keyword k => .keyword k
  | unassigned n => .unassigned n

/-- The name that a symbol is, if it is one. -/
def name? : Symbol → Option Bytes
  | ident name => some name
  | _ => none

/-- The type word that a symbol is, if it is one. -/
def typeWord? : Symbol → Option Keyword
  | keyword k => if k.isType then some k else none
  | _ => none

/-- A symbol as it is printed: the name of its sort, and what belongs to it in
brackets. -/
def text (s : Symbol) : Bytes :=
  let name := utf8 s.kind.name
  let bracketed (content : Bytes) := name ++ utf8 "(" ++ content ++ utf8 ")"
  match s with
  | operator op => bracketed (utf8 op.spelling)
  | bool value => bracketed (utf8 (if value then "true" else "false"))
  | number value => bracketed value.text
  | string t | ident t | attr t => bracketed (quoted t)
  | eof | punct _ | keyword _ | unassigned _ => name

end Symbol

/-- A token of a source text. -/
structure Token where
  /-- What the grammar sees of the token. -/
  symbol : Symbol
  /-- The text that the token was read from. -/
  lexeme : Bytes
  /-- Where that text starts. -/
  pos : Position
  deriving DecidableEq, Repr

namespace Token

/-- The token that ends a text at the given position. -/
def eof (p : Position) : Token := ⟨.eof, [], p⟩

/-- One line that shows the position and the symbol of a token. -/
def line (t : Token) : Bytes :=
  t.pos.text ++ utf8 "\t" ++ t.symbol.text ++ [lineFeed]

end Token

/-- The listing of a row of tokens, a line for each. -/
def listing (tokens : List Token) : Bytes :=
  tokens.flatMap Token.line

end ShaderFront
