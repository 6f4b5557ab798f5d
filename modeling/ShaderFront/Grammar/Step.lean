import ShaderFront.Grammar.Cause
import ShaderFront.Grammar.State

/-!
# Taking a token

An unfinished program takes a token and becomes another one, or refuses it. Both
depend on nothing but the unfinished program and the token, so the first token that
is refused is also the first that fits no program at all.

Operators are grouped by how tightly they bind. When an operator follows a complete
operand, the parts that bind at least as tightly become complete first; the others
wait for what follows.
-/

namespace ShaderFront

/-! ## Grouping operators -/

/-- Does a left operand with its operator wait while the operator after its right
operand is read? It does if the latter binds more tightly, and in a row of assignments
if those group to the right. -/
def Options.waits (o : Options) (pending next : Operator) : Bool :=
  match pending.level?, next.level? with
  | some p, some n => p < n || (o.assignRight && pending = .assign && next = .assign)
  | _, _ => false

/-- Complete the operators around an operand, from the inside out, up to the first one
that waits or up to a bracket. -/
def group (waits : Operator → Bool) (e : Expr) : List Frame → Expr × List Frame
  | .unary op start :: frames => group waits (.unary op e (.startingAt start)) frames
  | .binary left op :: frames =>
    if waits op then (e, .binary left op :: frames)
    else group waits (.binary op left e left.span) frames
  | frames => (e, frames)

/-- Complete all operators around an operand up to the innermost bracket. -/
def groupAll (e : Expr) (frames : List Frame) : Expr × List Frame :=
  group (fun _ => false) e frames

/-! ## Expressions -/

namespace Token

/-- The stretch of text that starts with a token. -/
def span (t : Token) : Span := .startingAt t.pos

end Token

/-- Take the first token of an operand. -/
def takeOperand? (host : Host) (frames : List Frame) (t : Token) : Option Mode :=
  match t.symbol with
  | .operator op =>
    if op.isUnary then some (.expression host (.unary op t.pos :: frames) .operand) else none
  | .bool value => some (.expression host frames (.complete (.bool value t.span)))
  | .number value => some (.expression host frames (.complete (.number value t.span)))
  | .string value => some (.expression host frames (.complete (.string value t.span)))
  | .ident name => some (.expression host frames (.name name t.pos))
  | .punct .openParen => some (.expression host (.paren t.pos :: frames) .operand)
  | .keyword k => if k.isVector then some (.expression host frames (.vector k t.pos)) else none
  | _ => none

/-- Close the bracket that is the innermost frame, after its last part. -/
def closeBracket? (host : Host) (last : Option Expr) : List Frame → Option Mode
  | .paren start :: frames =>
    last.map fun e => .expression host frames (.complete (.paren e (.startingAt start)))
  | .call callee _ args :: frames =>
    let value := Expr.call callee (last.toList ++ args).reverse callee.span
    some (.expression host frames (.complete value))
  | .construct type start args :: frames =>
    let value := Expr.construct (utf8 type.spelling) (last.toList ++ args).reverse
      (.startingAt start)
    some (.expression host frames (.complete value))
  | _ => none

/-- Continue with the next part of the bracket that is the innermost frame. -/
def nextArgument? (o : Options) (host : Host) (e : Expr) : List Frame → Option Mode
  | .call callee opened args :: frames =>
    if o.manyArguments then
      some (.expression host (.call callee opened (e :: args) :: frames) .operand)
    else none
  | .construct type start args :: frames =>
    some (.expression host (.construct type start (e :: args) :: frames) .operand)
  | _ => none

/-- Take a token after a complete expression that no bracket encloses. -/
def endExpression? (state : State) (host : Host) (e : Expr) (s : Symbol) : Option State :=
  match host, s with
  | .statement start, .punct .semicolon =>
    some (state.complete (.expr e (.startingAt start)))
  | .initial head, .punct .semicolon => some (state.complete (.decl head (some e)))
  | .condition start, .punct .closeParen => some (state.enter (.guard start e))
  | _, _ => none

/-- Take a token after a complete operand. -/
def takeAfter? (o : Options) (state : State) (host : Host) (frames : List Frame) (e : Expr)
    (t : Token) : Option State :=
  match t.symbol with
  | .operator op =>
    if op.level?.isSome then
      let (left, waiting) := group (fun pending => o.waits pending op) e frames
      some (state.withMode (.expression host (.binary left op :: waiting) .operand))
    else none
  | s =>
    match groupAll e frames with
    | (e, []) => endExpression? state host e s
    | (e, frames) =>
      match s with
      | .punct .closeParen => (closeBracket? host (some e) frames).map state.withMode
      | .punct .comma => (nextArgument? o host e frames).map state.withMode
      | _ => none

/-- Take a certain mark and go on in another mode. -/
def State.onMark? (state : State) (t : Token) (mark : Punct) (mode : Mode) : Option State :=
  if t.symbol = .punct mark then some (state.withMode mode) else none

/-- Take a token after what may be called: an opening parenthesis starts the call. -/
def takeAfterCallee? (o : Options) (state : State) (host : Host) (frames : List Frame)
    (callee : Expr) (t : Token) : Option State :=
  if t.symbol = .punct .openParen then
    some (state.withMode (.expression host (.call callee t.pos [] :: frames) .firstArgument))
  else takeAfter? o state host frames callee t

/-- Take a token inside an expression. -/
def takeInExpression? (o : Options) (state : State) (host : Host) (frames : List Frame)
    (point : Point) (t : Token) : Option State :=
  match point with
  | .operand => (takeOperand? host frames t).map state.withMode
  | .firstArgument =>
    if t.symbol = .punct .closeParen then (closeBracket? host none frames).map state.withMode
    else (takeOperand? host frames t).map state.withMode
  | .name name start =>
    if t.symbol = .punct .colon then
      some (state.withMode (.expression host frames (.field name start)))
    else takeAfterCallee? o state host frames (.ident name (.startingAt start)) t
  | .field container start =>
    t.symbol.name?.map fun field =>
      state.withMode (.expression host frames (.member container field start))
  | .member container field start =>
    takeAfterCallee? o state host frames (.member container field (.startingAt start)) t
  | .vector type start =>
    state.onMark? t .openParen
      (.expression host (.construct type start [] :: frames) .firstArgument)
  | .complete e => takeAfter? o state host frames e t

/-! ## Statements -/

/-- Close the innermost block. -/
def closeBlock? (state : State) : Option State :=
  match state.scopes with
  | .block opened inner :: scopes =>
    some (addStatement (.block inner.reverse (.startingAt opened)) state.finished scopes)
  | .function head opened inner :: scopes =>
    some (addStatement (.function head [] inner.reverse (.startingAt opened)) state.finished scopes)
  | _ => none

/-- Take the first token of a statement, or the end of the block around it. -/
def takeStatement? (state : State) (t : Token) : Option State :=
  match t.symbol with
  | .attr name => some (state.complete (.directive name [] t.span))
  | .punct .openBrace => some (state.enter (.block t.pos []))
  | .punct .closeBrace => closeBlock? state
  | .keyword .cond => some (state.withMode (.conditionStart t.pos))
  | .keyword .input => some (state.withMode (.modified t.pos))
  | .keyword .struct => some (state.withMode (.structName t.pos))
  | .keyword k => if k.isType then some (state.withMode (.typed [] k t.pos)) else none
  | _ => (takeOperand? (.statement t.pos) [] t).map state.withMode

/-- Take a token after the name of a declaration: a value follows, or nothing, or the
parentheses of a function. -/
def takeAfterName? (state : State) (head : Head) (t : Token) : Option State :=
  match t.symbol with
  | .operator op =>
    if op = .assign then some (state.withMode (.expression (.initial head) [] .operand)) else none
  | .punct .semicolon => some (state.complete (.decl head none))
  | .punct .openParen => some (state.withMode (.parameters head))
  | _ => none

/-- The type that a symbol names in a struct: any name, or a type word. -/
def memberTypeName? (s : Symbol) : Option Bytes :=
  s.name? <|> s.typeWord?.map fun k => utf8 k.spelling

/-- The struct with one more member, if it is kept. -/
def OpenStruct.add (o : Options) (s : OpenStruct) (m : Member) : OpenStruct :=
  if o.allMembers || s.members.isEmpty then { s with members := m :: s.members } else s

/-- The complete struct. -/
def OpenStruct.close (s : OpenStruct) : Stmt :=
  .struct [] s.name s.members.reverse (.startingAt s.start)

/-- Take a token between two members of a struct. -/
def takeMember? (o : Options) (state : State) (s : OpenStruct) (t : Token) : Option State :=
  if t.symbol = .punct .closeBrace then
    if s.members.isEmpty && !o.allMembers then none else some (state.complete s.close)
  else t.symbol.name?.map fun name => state.withMode (.memberColon s name t.pos)

/-- Take a token, or refuse it. -/
def State.take? (o : Options) (state : State) (t : Token) : Option State :=
  match state.mode with
  | .statement => takeStatement? state t
  | .conditionStart start =>
    state.onMark? t .openParen (.expression (.condition start) [] .operand)
  | .modified start =>
    t.symbol.typeWord?.map fun k => state.withMode (.typed [.input] k start)
  | .typed modifiers type start =>
    t.symbol.name?.map fun name =>
      state.withMode (.declared ⟨modifiers, utf8 type.spelling, name, .startingAt start⟩)
  | .declared head => takeAfterName? state head t
  | .parameters head => state.onMark? t .closeParen (.functionBody head)
  | .functionBody head =>
    if t.symbol = .punct .openBrace then some (state.enter (.function head t.pos [])) else none
  | .structName start => t.symbol.name?.map fun name => state.withMode (.structStart name start)
  | .structStart name start =>
    state.onMark? t .openBrace (.members { name := name, start := start })
  | .members s => takeMember? o state s t
  | .memberColon s name start => state.onMark? t .colon (.memberType s name start)
  | .memberType s name start =>
    (memberTypeName? t.symbol).map fun type =>
      state.withMode (.memberEnd s ⟨name, type, .startingAt start⟩)
  | .memberEnd s m => state.onMark? t .semicolon (.members (s.add o m))
  | .expression host frames point => takeInExpression? o state host frames point t

/-! ## Refusals -/

/-- Why a symbol is refused after a complete operand: the innermost bracket, or what
the expression is for, does not go on like that. -/
def refusalAfter (host : Host) (got : Symbol) : List Frame → Cause
  | .unary _ _ :: frames | .binary _ _ :: frames => refusalAfter host got frames
  | .paren _ :: _ => .missingMark .parenEnd got
  | .call _ opened _ :: _ =>
    if got = .punct .comma then .severalArguments opened else .missingMark .callEnd got
  | .construct _ _ _ :: _ => .missingMark .vectorEnd got
  | [] =>
    match host with
    | .statement _ => .missingMark .statementEnd got
    | .condition _ => .missingMark .conditionEnd got
    | .initial _ => .missingMark .declarationEnd got

/-- Why a symbol is refused where a statement may start. -/
def refusalAtStatement (got : Symbol) : List Scope → Cause
  | .block _ _ :: _ | .function _ _ _ :: _ =>
    if got = .eof then .unclosedBlock got else .notOperand got
  | _ => .notOperand got

/-- Why a symbol is refused inside an expression. -/
def refusalInExpression (host : Host) (frames : List Frame) (point : Point) (got : Symbol) :
    Cause :=
  match point with
  | .operand | .firstArgument => .notOperand got
  | .field container _ => .missingField container got
  | .vector type _ => .missingMark (.vectorStart type) got
  | .name _ _ | .member _ _ _ | .complete _ => refusalAfter host got frames

/-- Why a symbol is refused between two members of a struct. -/
def refusalAtMember (s : OpenStruct) (got : Symbol) : Cause :=
  match got with
  | .eof => .unclosedStruct s.name got
  | .punct .closeBrace => .emptyStruct s.name
  | _ => .missingMemberName got

/-- Why a symbol is refused, if it is. -/
def State.refusal (state : State) (got : Symbol) : Cause :=
  match state.mode with
  | .statement => refusalAtStatement got state.scopes
  | .conditionStart _ => .missingMark .conditionStart got
  | .modified _ => .missingType got
  | .typed _ type _ => .missingName type got
  | .declared _ => .badDeclaration got
  | .parameters head => .parameters head.name got
  | .functionBody _ => .missingMark .blockStart got
  | .structName _ => .missingStructName got
  | .structStart _ _ => .missingMark .structStart got
  | .members s => refusalAtMember s got
  | .memberColon _ _ _ => .missingMark .memberType got
  | .memberType _ _ _ => .missingMemberType got
  | .memberEnd _ _ => .missingMark .memberEnd got
  | .expression host frames point => refusalInExpression host frames point got

end ShaderFront
