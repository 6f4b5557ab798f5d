import ShaderFront.Text.Bytes

/-!
# Operators

The operators of the language, their spelling, and how tightly those with two
operands bind.
-/

namespace ShaderFront

/-- An operator. Operators are also exchanged by number; a number beyond the known
operators is kept as it is. -/
inductive Operator where
  /-- The number zero, which no operator of the language has. -/
  | empty
  /-- `=` -/
  | assign
  /-- `||` -/
  | or
  /-- `&&` -/
  | and
  /-- `==` -/
  | equals
  /-- `!=` -/
  | notEquals
  /-- `>` -/
  | greater
  /-- `>=` -/
  | greaterEqual
  /-- `<` -/
  | less
  /-- `<=` -/
  | lessEqual
  /-- `+` -/
  | plus
  /-- `-`, with one operand or two -/
  | minus
  /-- `*` -/
  | times
  /-- `/` -/
  | divide
  /-- `%` -/
  | mod
  /-- `!`, with one operand -/
  | not
  /-- A number beyond the known operators, counted from zero. -/
  | unassigned (n : Nat)
  deriving DecidableEq, Repr

namespace Operator

/-- The number of an operator. -/
def code : Operator → Nat
  | empty => 0
  | assign => 1
  | or => 2
  | and => 3
  | equals => 4
  | notEquals => 5
  | greater => 6
  | greaterEqual => 7
  | less => 8
  | lessEqual => 9
  | plus => 10
  | minus => 11
  | times => 12
  | divide => 13
  | mod => 14
  | not => 15
  | unassigned n => n + 16

/-- The operator of a number. -/
def ofCode : Nat → Operator
  | 0 => empty
  | 1 => assign
  | 2 => or
  | 3 => and
  | 4 => equals
  | 5 => notEquals
  | 6 => greater
  | 7 => greaterEqual
  | 8 => less
  | 9 => lessEqual
  | 10 => plus
  | 11 => minus
  | 12 => times
  | 13 => divide
  | 14 => mod
  | 15 => not
  | n + 16 => unassigned n

@[simp] theorem ofCode_code (op : Operator) : ofCode op.code = op := by
  cases op <;> rfl

/-- How an operator is spelled. -/
def spelling : Operator → String
  | empty => ""
  | assign => "="
  | or => "||"
  | and => "&&"
  | equals => "=="
  | notEquals => "!="
  | greater => ">"
  | greaterEqual => ">="
  | less => "<"
  | lessEqual => "<="
  | plus => "+"
  | minus => "-"
  | times => "*"
  | divide => "/"
  | mod => "%"
  | not => "!"
  | unassigned _ => "?"

/-- How tightly an operator binds its two operands, from one for assignment up to six;
absent for those that do not stand between operands. -/
def level? : Operator → Option Nat
  | assign => some 1
  | or | and => some 2
  | equals | notEquals => some 3
  | greater | greaterEqual | less | lessEqual => some 4
  | plus | minus => some 5
  | times | divide | mod => some 6
  | empty | not | unassigned _ => none

/-- May this operator stand before a single operand? -/
def isUnary : Operator → Bool
  | not | minus => true
  | _ => false

end Operator

end ShaderFront
