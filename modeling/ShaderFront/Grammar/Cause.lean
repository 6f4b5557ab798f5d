import ShaderFront.Diagnostic.Basic
import ShaderFront.Token.Basic

/-!
# Causes of refusal

Why a program cannot go on with a token. A cause always concerns the first token
that fits no program, and names it where that helps.
-/

namespace ShaderFront

/-- A place of the grammar where a certain punctuation mark must stand. -/
inductive Place where
  /-- Before the condition of an `if`. -/
  | conditionStart
  /-- After the condition of an `if`. -/
  | conditionEnd
  /-- Before the statements of a function. -/
  | blockStart
  /-- After the initial value of a variable. -/
  | declarationEnd
  /-- Before the members of a struct. -/
  | structStart
  /-- Between the name and the type of a member. -/
  | memberType
  /-- After a member. -/
  | memberEnd
  /-- After the expression of a statement. -/
  | statementEnd
  /-- After an expression in parentheses. -/
  | parenEnd
  /-- After the arguments of a call. -/
  | callEnd
  /-- Before the components of a vector. -/
  | vectorStart (k : Keyword)
  /-- After the components of a vector. -/
  | vectorEnd
  deriving DecidableEq, Repr

namespace Place

/-- The mark that must stand there. -/
def mark : Place → Punct
  | conditionStart | vectorStart _ => .openParen
  | conditionEnd | parenEnd | callEnd | vectorEnd => .closeParen
  | blockStart | structStart => .openBrace
  | memberType => .colon
  | declarationEnd | memberEnd | statementEnd => .semicolon

/-- The place in words. -/
def phrase : Place → String
  | conditionStart => "after 'if'"
  | conditionEnd => "after if condition"
  | blockStart => "to open block"
  | declarationEnd => "after declaration"
  | structStart => "after struct name"
  | memberType => "after member name"
  | memberEnd => "after struct member"
  | statementEnd => "after expression"
  | parenEnd => "to close parenthesized expression"
  | callEnd => "after call arguments"
  | vectorStart k => "after '" ++ k.spelling ++ "'"
  | vectorEnd => "after constructor arguments"

end Place

/-- Why a token is refused. -/
inductive Cause where
  /-- Another token stands where a certain mark must stand. -/
  | missingMark (place : Place) (got : Symbol)
  /-- The text ends inside a block. -/
  | unclosedBlock (got : Symbol)
  /-- The text ends inside a struct. -/
  | unclosedStruct (name : Bytes) (got : Symbol)
  /-- Neither a value nor the end nor parentheses follow a declared name. -/
  | badDeclaration (got : Symbol)
  /-- No type follows the modifier of a declaration. -/
  | missingType (got : Symbol)
  /-- No name follows the type of a declaration. -/
  | missingName (type : Keyword) (got : Symbol)
  /-- No name follows `struct`. -/
  | missingStructName (got : Symbol)
  /-- A member does not start with a name. -/
  | missingMemberName (got : Symbol)
  /-- No type follows the colon of a member. -/
  | missingMemberType (got : Symbol)
  /-- No name follows a container and a colon. -/
  | missingField (container : Bytes) (got : Symbol)
  /-- The token starts no operand. -/
  | notOperand (got : Symbol)
  /-- A function has parameters. -/
  | parameters (function : Bytes) (got : Symbol)
  /-- A call has a second argument. -/
  | severalArguments (opened : Position)
  /-- A struct has no members. -/
  | emptyStruct (name : Bytes)
  deriving DecidableEq, Repr

namespace Cause

/-- The kind under which a cause is reported. -/
def kind : Cause → ErrorKind
  | missingMark _ _ | unclosedBlock _ | unclosedStruct _ _ | badDeclaration _ => .expectedToken
  | missingType _ => .expectedDeclaration
  | missingName _ _ | missingStructName _ | missingMemberName _ | missingMemberType _
  | missingField _ _ => .expectedIdentifier
  | notOperand _ => .unexpectedToken
  | parameters _ _ => .unsupportedParameters
  | severalArguments _ => .unsupportedArguments
  | emptyStruct _ => .unsupportedStruct

/-- The end of a message that names the token found. -/
def got (s : Symbol) : Bytes :=
  utf8 ", got " ++ s.text

/-- A cause in words. -/
def message : Cause → Bytes
  | missingMark place s =>
    utf8 "expected '" ++ utf8 place.mark.spelling ++ utf8 "' " ++ utf8 place.phrase ++ got s
  | unclosedBlock s => utf8 "expected '\x7d' to close block" ++ got s
  | unclosedStruct name s => utf8 "expected '\x7d' to close struct " ++ name ++ got s
  | badDeclaration s => utf8 "expected assign or semicolon" ++ got s
  | missingType s => utf8 "expected a type in declaration" ++ got s
  | missingName type s =>
    utf8 "expected an identifier after '" ++ utf8 type.spelling ++ utf8 "'" ++ got s
  | missingStructName s => utf8 "expected struct name" ++ got s
  | missingMemberName s => utf8 "expected member name" ++ got s
  | missingMemberType s => utf8 "expected member type" ++ got s
  | missingField container s =>
    utf8 "expected an identifier after '" ++ container ++ utf8 ":'" ++ got s
  | notOperand s => utf8 "unexpected token " ++ s.text ++ utf8 " in expression"
  | parameters function s =>
    utf8 "function parameters are not supported, expected ')' after '" ++ function ++
      utf8 "('" ++ got s
  | severalArguments opened =>
    utf8 "calls with more than one argument are not supported (call opened at " ++
      opened.text ++ utf8 ")"
  | emptyStruct name => utf8 "struct " ++ name ++ utf8 " must have a member"

end Cause

end ShaderFront
