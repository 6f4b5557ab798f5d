import ShaderFront.Grammar.Parser
import ShaderFront.Token.Record

/-!
# Reading by descent

A second reader of programs. It has a row of flat records and an index into it, looks at
records only through that index, and has a procedure for each part of the grammar, which
calls the procedures of the parts within. A procedure gives a result or a diagnostic and
moves the index in either case. It gives nothing if it looks at a record outside of the
row, or if it never ends: the procedures call each other without regard to whether that
leads anywhere, so that the index stays within the row and that the calls end is
something to prove.
-/

namespace ShaderFront

/-- A row of records and the index of the one that comes next. -/
structure Reader where
  /-- The records. -/
  records : List TokenRecord
  /-- The index. -/
  current : Nat := 0
  deriving DecidableEq, Repr

/-- A procedure of the reader. -/
abbrev Descent := ExceptT Diagnostic (StateT Reader Option)

/-- What a procedure gives, with the reader after it. -/
def Reader.perform {α : Type} (r : Reader) (f : Descent α) :
    Option (Except Diagnostic α × Reader) :=
  f.run.run r

namespace Descent

/-! ## Looking at records -/

/-- The record at an index. There is no result outside of the row. -/
def recordAt (i : Nat) : Descent TokenRecord := fun r =>
  (r.records[i]?).map fun t => (.ok t, r)

/-- The next record. A missing end reads as an end at the last record. -/
def peek : Descent TokenRecord := do
  let r ← get
  if r.current < r.records.length then recordAt r.current
  else if 0 < r.records.length then
    return { kind := .eof, pos := (← recordAt (r.records.length - 1)).pos }
  else return { kind := .eof }

/-- Is the next record an end? -/
def isAtEnd : Descent Bool := do
  return (← peek).kind = .eof

/-- The record before the next one. -/
def previous : Descent TokenRecord := do
  let r ← get
  if r.current = 0 then peek else recordAt (r.current - 1)

/-- Step over the next record, unless it is an end. -/
def advance : Descent TokenRecord := do
  unless ← isAtEnd do
    modify fun r => { r with current := r.current + 1 }
  previous

/-- Is the next record of a sort? -/
def check (kind : TokenKind) : Descent Bool := do
  return (← peek).kind = kind

/-- Step over the next record if it is of a sort. -/
def accept (kind : TokenKind) : Descent Bool := do
  if (← check kind) && !(← isAtEnd) then
    let _ ← advance
    return true
  else return false

/-- Is the next record one of these operators? -/
def checkOp (ops : List Operator) : Descent Bool := do
  let t ← peek
  return t.kind = .operator && ops.contains t.op

/-- Give up at the next record. -/
def fail {α : Type} (kind : ErrorKind) (message : Bytes) : Descent α := do
  throw { kind := kind, message := message, span := .point (← peek).pos }

/-- Give up at the next record and tell what it is. -/
def failGot {α : Type} (kind : ErrorKind) (message : Bytes) : Descent α := do
  fail kind (message ++ utf8 ", got " ++ (← peek).symbol.text)

/-- Step over a mark, which must be there. -/
def expect (mark : Punct) (context : String) : Descent Unit := do
  unless ← accept (.punct mark) do
    failGot .expectedToken
      (utf8 "expected '" ++ utf8 mark.spelling ++ utf8 "' " ++ utf8 context)

end Descent

/-- The stretch of text that starts with a record. -/
def TokenRecord.span (t : TokenRecord) : Span := .startingAt t.pos

/-- The operators of a level. -/
def Operator.ofLevel : Nat → List Operator
  | 1 => [.assign]
  | 2 => [.or, .and]
  | 3 => [.equals, .notEquals]
  | 4 => [.greater, .greaterEqual, .less, .lessEqual]
  | 5 => [.plus, .minus]
  | 6 => [.times, .divide, .mod]
  | _ => []

/-- Does this sort of record name a type? -/
def TokenKind.isType : TokenKind → Bool
  | keyword k => k.isType
  | _ => false

namespace Options

open Descent

/-! ## Expressions -/

mutual

/-- Read an expression: assignments, and what binds more tightly. -/
def assign? (o : Options) : Descent Expr := do
  let left ← o |>.binary? 2
  if o.assignRight then
    if ← checkOp [.assign] then
      let op ← advance
      let right ← o |>.assign?
      return .binary op.op left right left.span
    else return left
  else o |>.binaryRest? 1 left
partial_fixpoint

/-- Read operands of the next tighter level with operators of this level between them. The
tightest level is that of operators before their operand. -/
def binary? (o : Options) (level : Nat) : Descent Expr := do
  if level ≤ 6 then
    let left ← o |>.binary? (level + 1)
    o |>.binaryRest? level left
  else o |>.unary?
partial_fixpoint

/-- Go on with a left operand as long as operators of its level follow. -/
def binaryRest? (o : Options) (level : Nat) (left : Expr) : Descent Expr := do
  if ← checkOp (Operator.ofLevel level) then
    let op ← advance
    let right ← o |>.binary? (level + 1)
    o |>.binaryRest? level (.binary op.op left right left.span)
  else return left
partial_fixpoint

/-- Read an operand with the operators before it. -/
def unary? (o : Options) : Descent Expr := do
  if ← checkOp [.not, .minus] then
    let op ← advance
    let right ← o |>.unary?
    return .unary op.op right op.span
  else o |>.primary?
partial_fixpoint

/-- Read a literal, a name, a field, a call, a vector, or an expression in parentheses. -/
def primary? (o : Options) : Descent Expr := do
  let t ← peek
  match t.kind with
  | .bool =>
    let _ ← advance
    return .bool t.bool t.span
  | .number =>
    let _ ← advance
    return .number t.number t.span
  | .string =>
    let _ ← advance
    return .string t.text t.span
  | .ident =>
    let _ ← advance
    o |>.named? t
  | .punct .openParen =>
    let _ ← advance
    let e ← o |>.assign?
    expect .closeParen "to close parenthesized expression"
    return .paren e t.span
  | .keyword .vec3 | .keyword .vec4 => o |>.construct?
  | _ =>
    fail .unexpectedToken (utf8 "unexpected token " ++ t.symbol.text ++ utf8 " in expression")
partial_fixpoint

/-- Read what follows a name: the arguments of a call, a field, or nothing of it. -/
def named? (o : Options) (t : TokenRecord) : Descent Expr := do
  if ← check (.punct .openParen) then o |>.call? (.ident t.text t.span)
  else if ← accept (.punct .colon) then
    if ← check .ident then
      let field ← advance
      let member := Expr.member t.text field.text t.span
      if ← check (.punct .openParen) then o |>.call? member else return member
    else
      failGot .expectedIdentifier (utf8 "expected an identifier after '" ++ t.text ++ utf8 ":'")
  else return .ident t.text t.span
partial_fixpoint

/-- Read the arguments of a call. -/
def call? (o : Options) (callee : Expr) : Descent Expr := do
  let start ← peek
  expect .openParen "to open call arguments"
  if ← accept (.punct .closeParen) then return .call callee [] callee.span
  else
    let args ← o |>.arguments? start.pos []
    expect .closeParen "after call arguments"
    return .call callee args callee.span
partial_fixpoint

/-- Read arguments on top of those that are there. -/
def arguments? (o : Options) (opened : Position) (args : List Expr) : Descent (List Expr) := do
  let e ← o |>.assign?
  if ← check (.punct .comma) then
    if o.manyArguments then
      let _ ← advance
      o |>.arguments? opened (args ++ [e])
    else
      fail .unsupportedArguments
        (utf8 "calls with more than one argument are not supported (call opened at " ++
          opened.text ++ utf8 ")")
  else return args ++ [e]
partial_fixpoint

/-- Read a vector. -/
def construct? (o : Options) : Descent Expr := do
  let type ← advance
  expect .openParen ("after '" ++ type.kind.name ++ "'")
  if ← accept (.punct .closeParen) then return .construct (utf8 type.kind.name) [] type.span
  else
    let args ← o |>.components? []
    expect .closeParen "after constructor arguments"
    return .construct (utf8 type.kind.name) args type.span
partial_fixpoint

/-- Read components on top of those that are there. -/
def components? (o : Options) (args : List Expr) : Descent (List Expr) := do
  let e ← o |>.assign?
  if ← accept (.punct .comma) then o |>.components? (args ++ [e])
  else return args ++ [e]
partial_fixpoint

end

/-! ## Statements -/

/-- Read a directive. -/
def directive : Descent Stmt := do
  let t ← advance
  return .directive t.text [] t.span

/-- Read an expression that is a statement. -/
def expressionStatement (o : Options) : Descent Stmt := do
  let start ← peek
  let e ← o.assign?
  expect .semicolon "after expression"
  return .expr e start.span

/-- Read the type of a member: any name, or a type word. -/
def memberType : Descent Bytes := do
  let t ← peek
  if t.kind = .ident then
    let _ ← advance
    return t.text
  else if t.kind.isType then
    let _ ← advance
    return utf8 t.kind.name
  else failGot .expectedIdentifier (utf8 "expected member type")

/-- Read a member of a struct. -/
def member : Descent Member := do
  if ← check .ident then
    let name ← advance
    expect .colon "after member name"
    let type ← memberType
    expect .semicolon "after struct member"
    return ⟨name.text, type, name.span⟩
  else failGot .expectedIdentifier (utf8 "expected member name")

/-- Read members on top of those that are kept. All are read, but maybe only the first is
kept. -/
def members? (o : Options) (name : Bytes) (members : List Member) : Descent (List Member) := do
  if ← check (.punct .closeBrace) then return members
  else if ← isAtEnd then
    failGot .expectedToken (utf8 "expected '\x7d' to close struct " ++ name)
  else
    let m ← member
    o |>.members? name (if members.isEmpty || o.allMembers then members ++ [m] else members)
partial_fixpoint

/-- Read a struct. -/
def structStatement (o : Options) : Descent Stmt := do
  let start ← advance
  if ← check .ident then
    let name ← advance
    expect .openBrace "after struct name"
    if (← peek).kind = .punct .closeBrace && !o.allMembers then
      fail .unsupportedStruct (utf8 "struct " ++ name.text ++ utf8 " must have a member")
    else
      let members ← o.members? name.text []
      let _ ← advance
      return .struct [] name.text members start.span
  else failGot .expectedIdentifier (utf8 "expected struct name")

/-- Read the words before the type of a declaration. -/
def modifiers : Descent (List Modifier) := do
  if ← accept (.keyword .input) then return [.input] else return []

/-- Read a declaration up to its name. -/
def head : Descent Head := do
  let start ← peek
  let modifiers ← modifiers
  if (← peek).kind.isType then
    let type ← advance
    if ← check .ident then
      let name ← advance
      return ⟨modifiers, utf8 type.kind.name, name.text, start.span⟩
    else
      failGot .expectedIdentifier
        (utf8 "expected an identifier after '" ++ utf8 type.kind.name ++ utf8 "'")
  else failGot .expectedDeclaration (utf8 "expected a type in declaration")

/-- Read the initial value of a variable, which ends the declaration. -/
def initialValue (o : Options) (head : Head) : Descent Stmt := do
  let init ← o.assign?
  expect .semicolon "after declaration"
  return .decl head (some init)

mutual

/-- Read a statement. -/
def statement? (o : Options) : Descent Stmt := do
  match (← peek).kind with
  | .attr => directive
  | .keyword .cond => o |>.guarded?
  | .punct .openBrace =>
    let (start, body) ← o |>.block?
    return .block body start
  | .keyword .input | .keyword .float | .keyword .vec3 | .keyword .vec4 | .keyword .void =>
    o |>.declaration?
  | .keyword .struct => o.structStatement
  | _ => o.expressionStatement
partial_fixpoint

/-- Read a condition and the statement that it guards. -/
def guarded? (o : Options) : Descent Stmt := do
  let start ← advance
  expect .openParen "after 'if'"
  let condition ← o.assign?
  expect .closeParen "after if condition"
  let body ← o |>.statement?
  return .cond condition body start.span
partial_fixpoint

/-- Read a block, with where it starts. -/
def block? (o : Options) : Descent (Span × List Stmt) := do
  let start ← peek
  expect .openBrace "to open block"
  let body ← o |>.statements? []
  let _ ← advance
  return (start.span, body)
partial_fixpoint

/-- Read statements on top of those that are there, up to a closing brace. -/
def statements? (o : Options) (done : List Stmt) : Descent (List Stmt) := do
  if ← check (.punct .closeBrace) then return done
  else if ← isAtEnd then failGot .expectedToken (utf8 "expected '\x7d' to close block")
  else
    let s ← o |>.statement?
    o |>.statements? (done ++ [s])
partial_fixpoint

/-- Read a variable or a function. -/
def declaration? (o : Options) : Descent Stmt := do
  let head ← head
  let t ← peek
  if t.kind = .operator && t.op = .assign then
    let _ ← advance
    o.initialValue head
  else if t.kind = .punct .semicolon then
    let _ ← advance
    return .decl head none
  else if t.kind = .punct .openParen then
    let _ ← advance
    o |>.function? head
  else failGot .expectedToken (utf8 "expected assign or semicolon")
partial_fixpoint

/-- Read a function after its opening parenthesis. -/
def function? (o : Options) (head : Head) : Descent Stmt := do
  if ← check (.punct .closeParen) then
    let _ ← advance
    let (start, body) ← o |>.block?
    return .function head [] body start
  else
    failGot .unsupportedParameters
      (utf8 "function parameters are not supported, expected ')' after '" ++ head.name ++
        utf8 "('")
partial_fixpoint

end

/-- Read statements on top of those that are there, up to the end. -/
def program? (o : Options) (done : List Stmt) : Descent (List Stmt) := do
  if ← isAtEnd then return done
  else
    let s ← o.statement?
    o |>.program? (done ++ [s])
partial_fixpoint

end Options

end ShaderFront
