/-!
# Kinds of diagnostics

Every failure of reading a source text has a kind, by which it can be recognised
whatever its message says.
-/

namespace ShaderFront

/-- What sort of failure a diagnostic reports. Kinds are also exchanged by number; a
number beyond the known kinds is kept as it is. -/
inductive ErrorKind where
  /-- Nothing is known about the failure. -/
  | unknown
  /-- A number literal that is no number, or is too large. -/
  | malformedNumber
  /-- A character that starts no token, or an attribute without a name. -/
  | unexpectedCharacter
  /-- Half of an operator. -/
  | unknownOperator
  /-- A string literal without its closing quote. -/
  | unterminatedString
  /-- A block comment that is not closed. -/
  | unterminatedComment
  /-- An attribute without its closing bracket. -/
  | unterminatedAttribute
  /-- A mark that the grammar requires is missing. -/
  | expectedToken
  /-- A name that the grammar requires is missing. -/
  | expectedIdentifier
  /-- A type that a declaration requires is missing. -/
  | expectedDeclaration
  /-- A token that starts no operand. -/
  | unexpectedToken
  /-- A function with parameters. -/
  | unsupportedParameters
  /-- A call with several arguments. -/
  | unsupportedArguments
  /-- A struct without members. -/
  | unsupportedStruct
  /-- A number beyond the known kinds, counted from zero. -/
  | unassigned (n : Nat)
  deriving DecidableEq, Repr

namespace ErrorKind

/-- The number of a kind. -/
def code : ErrorKind → Nat
  | unknown => 0
  | malformedNumber => 1
  | unexpectedCharacter => 2
  | unknownOperator => 3
  | unterminatedString => 4
  | unterminatedComment => 5
  | unterminatedAttribute => 6
  | expectedToken => 7
  | expectedIdentifier => 8
  | expectedDeclaration => 9
  | unexpectedToken => 10
  | unsupportedParameters => 11
  | unsupportedArguments => 12
  | unsupportedStruct => 13
  | unassigned n => n + 14

/-- The kind of a number. -/
def ofCode : Nat → ErrorKind
  | 0 => unknown
  | 1 => malformedNumber
  | 2 => unexpectedCharacter
  | 3 => unknownOperator
  | 4 => unterminatedString
  | 5 => unterminatedComment
  | 6 => unterminatedAttribute
  | 7 => expectedToken
  | 8 => expectedIdentifier
  | 9 => expectedDeclaration
  | 10 => unexpectedToken
  | 11 => unsupportedParameters
  | 12 => unsupportedArguments
  | 13 => unsupportedStruct
  | n + 14 => unassigned n

@[simp] theorem ofCode_code (k : ErrorKind) : ofCode k.code = k := by
  cases k <;> rfl

/-- A kind in words. -/
def name : ErrorKind → String
  | unknown | unassigned _ => "unknown error"
  | malformedNumber => "malformed number literal"
  | unexpectedCharacter => "unexpected character"
  | unknownOperator => "unknown operator"
  | unterminatedString => "unterminated string"
  | unterminatedComment => "unterminated comment"
  | unterminatedAttribute => "unterminated attribute"
  | expectedToken => "missing expected token"
  | expectedIdentifier => "missing expected identifier"
  | expectedDeclaration => "missing expected declaration"
  | unexpectedToken => "unexpected token"
  | unsupportedParameters => "unsupported parameter list"
  | unsupportedArguments => "unsupported argument list"
  | unsupportedStruct => "unsupported struct shape"

end ErrorKind

end ShaderFront
