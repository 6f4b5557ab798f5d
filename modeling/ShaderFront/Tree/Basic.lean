import ShaderFront.Number.Binary64
import ShaderFront.Source.Position
import ShaderFront.Token.Operator

/-!
# Programs as trees

A program is a list of statements, and statements hold expressions. Every node
records the stretch of source text that it was read from. Trees may also be built by
hand, so they can hold what no source text gives: nodes that are left open, operators
and modifiers without a spelling, parameters.
-/

namespace ShaderFront

/-- A word before the type of a declaration. Modifiers are also exchanged by number; a
number without a modifier is kept as it is. -/
inductive Modifier where
  /-- `in`, number one. -/
  | input
  /-- A number without a modifier: zero stands for itself, and the rest count on from two. -/
  | unassigned (n : Nat)
  deriving DecidableEq, Repr

namespace Modifier

/-- The modifier of a number. -/
def ofCode : Nat → Modifier
  | 0 => unassigned 0
  | 1 => input
  | n + 2 => unassigned (n + 1)

/-- How a modifier is spelled. -/
def spelling : Modifier → String
  | input => "in"
  | unassigned _ => "?"

end Modifier

/-- Expressions. -/
inductive Expr where
  /-- A place left open. -/
  | hole
  /-- An operator between two operands. -/
  | binary (op : Operator) (left right : Expr) (span : Span)
  /-- An operator before its operand. -/
  | unary (op : Operator) (operand : Expr) (span : Span)
  /-- A truth value. -/
  | bool (value : Bool) (span : Span)
  /-- A number literal. -/
  | number (value : Binary64) (span : Span)
  /-- A string literal. -/
  | string (value : Bytes) (span : Span)
  /-- A name. -/
  | ident (name : Bytes) (span : Span)
  /-- An expression in parentheses. -/
  | paren (inner : Expr) (span : Span)
  /-- A field of a named container. -/
  | member (container field : Bytes) (span : Span)
  /-- A call. -/
  | call (callee : Expr) (args : List Expr) (span : Span)
  /-- A value built from components. -/
  | construct (type : Bytes) (args : List Expr) (span : Span)
  deriving Repr

instance : Inhabited Expr := ⟨.hole⟩

/-- The stretch of text that an expression was read from. -/
def Expr.span : Expr → Span
  | hole => .nowhere
  | binary _ _ _ span | unary _ _ span | bool _ span | number _ span | string _ span
  | ident _ span | paren _ span | member _ _ span | call _ _ span | construct _ _ span => span

/-- What a variable and a function have in common: modifiers, type and name. -/
structure Head where
  /-- The words before the type. -/
  modifiers : List Modifier
  /-- The type of the variable, or of what the function returns. -/
  type : Bytes
  /-- The declared name. -/
  name : Bytes
  /-- The stretch of text of the whole declaration. -/
  span : Span
  deriving DecidableEq, Repr

/-- A member of a struct. -/
structure Member where
  /-- The name of the member. -/
  name : Bytes
  /-- The type of the member. -/
  type : Bytes
  /-- The stretch of text of the member. -/
  span : Span
  deriving DecidableEq, Repr

/-- Statements. -/
inductive Stmt where
  /-- A place left open. -/
  | hole
  /-- An expression evaluated for its effect. -/
  | expr (value : Expr) (span : Span)
  /-- A statement that runs if a condition holds. -/
  | cond (condition : Expr) (body : Stmt) (span : Span)
  /-- Statements between braces. -/
  | block (body : List Stmt) (span : Span)
  /-- A variable, perhaps with an initial value. -/
  | decl (head : Head) (init : Option Expr)
  /-- An attribute that stands by itself. -/
  | directive (name : Bytes) (params : List Expr) (span : Span)
  /-- A function with the block that it runs. -/
  | function (head : Head) (params : List Bytes) (body : List Stmt) (bodySpan : Span)
  /-- A struct with its members. -/
  | struct (attr name : Bytes) (members : List Member) (span : Span)
  deriving Repr

instance : Inhabited Stmt := ⟨.hole⟩

/-- The stretch of text that a statement was read from. -/
def Stmt.span : Stmt → Span
  | hole => .nowhere
  | expr _ span | cond _ _ span | block _ span | directive _ _ span | struct _ _ _ span => span
  | decl head _ | function head _ _ _ => head.span

end ShaderFront
