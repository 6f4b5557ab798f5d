import ShaderFront.Grammar.Step

/-!
# What a token can do

One rule for each way in which an unfinished program takes a token. The rules say the
same as the functions that take tokens, so a property of programs is kept by every
token if it is kept by every rule.
-/

namespace ShaderFront

/-- The value of an operand of which nothing more needs to follow. -/
def Point.value? : Point → Option Expr
  | .name n start => some (.ident n (.startingAt start))
  | .member container f start => some (.member container f (.startingAt start))
  | .complete value => some value
  | .operand | .firstArgument | .field _ _ | .vector _ _ => none

/-- What may be called, as a point and as an expression. -/
inductive Callee : Point → Expr → Prop
  /-- A name. -/
  | name (name : Bytes) (start : Position) :
    Callee (.name name start) (.ident name (.startingAt start))
  /-- A field of a container. -/
  | member (container field : Bytes) (start : Position) :
    Callee (.member container field start) (.member container field (.startingAt start))

/-! ## Rules -/

/-- How a token starts an operand. -/
inductive StartsOperand (host : Host) (frames : List Frame) (t : Token) : Mode → Prop
  /-- An operator before the operand proper. -/
  | unary {op : Operator} (h : t.symbol = .operator op) (hu : op.isUnary = true) :
    StartsOperand host frames t (.expression host (.unary op t.pos :: frames) .operand)
  /-- A truth value. -/
  | bool {value : Bool} (h : t.symbol = .bool value) :
    StartsOperand host frames t (.expression host frames (.complete (.bool value t.span)))
  /-- A number. -/
  | number {value : Binary64} (h : t.symbol = .number value) :
    StartsOperand host frames t (.expression host frames (.complete (.number value t.span)))
  /-- A string. -/
  | string {value : Bytes} (h : t.symbol = .string value) :
    StartsOperand host frames t (.expression host frames (.complete (.string value t.span)))
  /-- A name. -/
  | name {name : Bytes} (h : t.symbol = .ident name) :
    StartsOperand host frames t (.expression host frames (.name name t.pos))
  /-- An opening parenthesis. -/
  | paren (h : t.symbol = .punct .openParen) :
    StartsOperand host frames t (.expression host (.paren t.pos :: frames) .operand)
  /-- The type of a vector. -/
  | vector {k : Keyword} (h : t.symbol = .keyword k) (hk : k.isVector = true) :
    StartsOperand host frames t (.expression host frames (.vector k t.pos))

/-- How a token follows an operand of which nothing more needs to follow. -/
inductive TakesAfter (o : Options) (state : State) (host : Host) (frames : List Frame)
    (e : Expr) (t : Token) : State → Prop
  /-- An operator, which takes what binds at least as tightly for its left operand. -/
  | operator {op : Operator} {left : Expr} {waiting : List Frame}
    (h : t.symbol = .operator op) (hl : op.level?.isSome = true)
    (hg : group (fun pending => o.waits pending op) e frames = (left, waiting)) :
    TakesAfter o state host frames e t
      (state.withMode (.expression host (.binary left op :: waiting) .operand))
  /-- The end of a statement. -/
  | statementEnd {start : Position} {v : Expr} (h : t.symbol = .punct .semicolon)
    (hh : host = .statement start) (hg : groupAll e frames = (v, [])) :
    TakesAfter o state host frames e t (state.complete (.expr v (.startingAt start)))
  /-- The end of a declaration. -/
  | declarationEnd {head : Head} {v : Expr} (h : t.symbol = .punct .semicolon)
    (hh : host = .initial head) (hg : groupAll e frames = (v, [])) :
    TakesAfter o state host frames e t (state.complete (.decl head (some v)))
  /-- The end of a condition. -/
  | conditionEnd {start : Position} {v : Expr} (h : t.symbol = .punct .closeParen)
    (hh : host = .condition start) (hg : groupAll e frames = (v, [])) :
    TakesAfter o state host frames e t (state.enter (.guard start v))
  /-- The end of an expression in parentheses. -/
  | parenEnd {start : Position} {v : Expr} {outer : List Frame}
    (h : t.symbol = .punct .closeParen) (hg : groupAll e frames = (v, .paren start :: outer)) :
    TakesAfter o state host frames e t
      (state.withMode (.expression host outer (.complete (.paren v (.startingAt start)))))
  /-- The end of a call. -/
  | callEnd {callee v : Expr} {opened : Position} {args : List Expr} {outer : List Frame}
    (h : t.symbol = .punct .closeParen)
    (hg : groupAll e frames = (v, .call callee opened args :: outer)) :
    TakesAfter o state host frames e t
      (state.withMode (.expression host outer
        (.complete (.call callee (v :: args).reverse callee.span))))
  /-- The end of a vector. -/
  | constructEnd {type : Keyword} {v : Expr} {start : Position} {args : List Expr}
    {outer : List Frame} (h : t.symbol = .punct .closeParen)
    (hg : groupAll e frames = (v, .construct type start args :: outer)) :
    TakesAfter o state host frames e t
      (state.withMode (.expression host outer
        (.complete (.construct (utf8 type.spelling) (v :: args).reverse (.startingAt start)))))
  /-- A further argument of a call. -/
  | nextArgument {callee v : Expr} {opened : Position} {args : List Expr} {outer : List Frame}
    (h : t.symbol = .punct .comma) (ho : o.manyArguments = true)
    (hg : groupAll e frames = (v, .call callee opened args :: outer)) :
    TakesAfter o state host frames e t
      (state.withMode (.expression host (.call callee opened (v :: args) :: outer) .operand))
  /-- A further component of a vector. -/
  | nextComponent {type : Keyword} {v : Expr} {start : Position} {args : List Expr}
    {outer : List Frame} (h : t.symbol = .punct .comma)
    (hg : groupAll e frames = (v, .construct type start args :: outer)) :
    TakesAfter o state host frames e t
      (state.withMode (.expression host (.construct type start (v :: args) :: outer) .operand))

/-- How an unfinished program takes a token. -/
inductive Takes (o : Options) (done : List Stmt) (scopes : List Scope) (t : Token) :
    Mode → State → Prop
  /-- A directive. -/
  | directive {name : Bytes} (h : t.symbol = .attr name) :
    Takes o done scopes t .statement (addStatement (.directive name [] t.span) done scopes)
  /-- The start of a block. -/
  | openBlock (h : t.symbol = .punct .openBrace) :
    Takes o done scopes t .statement ⟨done, .block t.pos [] :: scopes, .statement⟩
  /-- The end of a block. -/
  | closeBlock {opened : Position} {inner : List Stmt} {outer : List Scope}
    (h : t.symbol = .punct .closeBrace) (hs : scopes = .block opened inner :: outer) :
    Takes o done scopes t .statement
      (addStatement (.block inner.reverse (.startingAt opened)) done outer)
  /-- The end of a function. -/
  | closeFunction {head : Head} {opened : Position} {inner : List Stmt} {outer : List Scope}
    (h : t.symbol = .punct .closeBrace) (hs : scopes = .function head opened inner :: outer) :
    Takes o done scopes t .statement
      (addStatement (.function head [] inner.reverse (.startingAt opened)) done outer)
  /-- `if` -/
  | cond (h : t.symbol = .keyword .cond) :
    Takes o done scopes t .statement ⟨done, scopes, .conditionStart t.pos⟩
  /-- `in` -/
  | input (h : t.symbol = .keyword .input) :
    Takes o done scopes t .statement ⟨done, scopes, .modified t.pos⟩
  /-- `struct` -/
  | struct (h : t.symbol = .keyword .struct) :
    Takes o done scopes t .statement ⟨done, scopes, .structName t.pos⟩
  /-- The type of a declaration without a modifier. -/
  | type {k : Keyword} (h : t.symbol = .keyword k) (hk : k.isType = true) :
    Takes o done scopes t .statement ⟨done, scopes, .typed [] k t.pos⟩
  /-- The start of an expression that is a statement. -/
  | start {m : Mode} (hn : ∀ k, t.symbol ≠ .keyword k)
    (hm : StartsOperand (.statement t.pos) [] t m) :
    Takes o done scopes t .statement ⟨done, scopes, m⟩
  /-- The parenthesis after `if`. -/
  | openCondition {start : Position} (h : t.symbol = .punct .openParen) :
    Takes o done scopes t (.conditionStart start)
      ⟨done, scopes, .expression (.condition start) [] .operand⟩
  /-- The type of a declaration with a modifier. -/
  | modifiedType {start : Position} {k : Keyword} (h : t.symbol = .keyword k)
    (hk : k.isType = true) :
    Takes o done scopes t (.modified start) ⟨done, scopes, .typed [.input] k start⟩
  /-- The name of a declaration. -/
  | declare {modifiers : List Modifier} {k : Keyword} {start : Position} {name : Bytes}
    (h : t.symbol = .ident name) :
    Takes o done scopes t (.typed modifiers k start)
      ⟨done, scopes, .declared ⟨modifiers, utf8 k.spelling, name, .startingAt start⟩⟩
  /-- The sign before an initial value. -/
  | initial {head : Head} (h : t.symbol = .operator .assign) :
    Takes o done scopes t (.declared head)
      ⟨done, scopes, .expression (.initial head) [] .operand⟩
  /-- The end of a declaration without an initial value. -/
  | declared {head : Head} (h : t.symbol = .punct .semicolon) :
    Takes o done scopes t (.declared head) (addStatement (.decl head none) done scopes)
  /-- The first parenthesis of a function. -/
  | openParameters {head : Head} (h : t.symbol = .punct .openParen) :
    Takes o done scopes t (.declared head) ⟨done, scopes, .parameters head⟩
  /-- The second parenthesis of a function. -/
  | closeParameters {head : Head} (h : t.symbol = .punct .closeParen) :
    Takes o done scopes t (.parameters head) ⟨done, scopes, .functionBody head⟩
  /-- The start of the block of a function. -/
  | openFunction {head : Head} (h : t.symbol = .punct .openBrace) :
    Takes o done scopes t (.functionBody head)
      ⟨done, .function head t.pos [] :: scopes, .statement⟩
  /-- The name of a struct. -/
  | structName {start : Position} {name : Bytes} (h : t.symbol = .ident name) :
    Takes o done scopes t (.structName start) ⟨done, scopes, .structStart name start⟩
  /-- The start of the members of a struct. -/
  | openStruct {name : Bytes} {start : Position} (h : t.symbol = .punct .openBrace) :
    Takes o done scopes t (.structStart name start) ⟨done, scopes, .members ⟨name, start, []⟩⟩
  /-- The end of a struct. -/
  | closeStruct {s : OpenStruct} (h : t.symbol = .punct .closeBrace)
    (hs : s.members ≠ [] ∨ o.allMembers = true) :
    Takes o done scopes t (.members s) (addStatement s.close done scopes)
  /-- The name of a member. -/
  | memberName {s : OpenStruct} {name : Bytes} (h : t.symbol = .ident name) :
    Takes o done scopes t (.members s) ⟨done, scopes, .memberColon s name t.pos⟩
  /-- The colon of a member. -/
  | memberColon {s : OpenStruct} {name : Bytes} {start : Position}
    (h : t.symbol = .punct .colon) :
    Takes o done scopes t (.memberColon s name start) ⟨done, scopes, .memberType s name start⟩
  /-- The type of a member. -/
  | memberType {s : OpenStruct} {name type : Bytes} {start : Position}
    (h : memberTypeName? t.symbol = some type) :
    Takes o done scopes t (.memberType s name start)
      ⟨done, scopes, .memberEnd s ⟨name, type, .startingAt start⟩⟩
  /-- The end of a member. -/
  | memberEnd {s : OpenStruct} {m : Member} (h : t.symbol = .punct .semicolon) :
    Takes o done scopes t (.memberEnd s m) ⟨done, scopes, .members (s.add o m)⟩
  /-- The start of an operand. -/
  | operand {host : Host} {frames : List Frame} {p : Point} {m : Mode}
    (hp : p = .operand ∨ p = .firstArgument) (hm : StartsOperand host frames t m) :
    Takes o done scopes t (.expression host frames p) ⟨done, scopes, m⟩
  /-- The end of a call without arguments. -/
  | emptyCall {host : Host} {frames : List Frame} {callee : Expr} {opened : Position}
    {args : List Expr} (h : t.symbol = .punct .closeParen) :
    Takes o done scopes t (.expression host (.call callee opened args :: frames) .firstArgument)
      ⟨done, scopes, .expression host frames
        (.complete (.call callee args.reverse callee.span))⟩
  /-- The end of a vector without components. -/
  | emptyConstruct {host : Host} {frames : List Frame} {type : Keyword} {start : Position}
    {args : List Expr} (h : t.symbol = .punct .closeParen) :
    Takes o done scopes t (.expression host (.construct type start args :: frames) .firstArgument)
      ⟨done, scopes, .expression host frames
        (.complete (.construct (utf8 type.spelling) args.reverse (.startingAt start)))⟩
  /-- The colon after a container. -/
  | colon {host : Host} {frames : List Frame} {name : Bytes} {start : Position}
    (h : t.symbol = .punct .colon) :
    Takes o done scopes t (.expression host frames (.name name start))
      ⟨done, scopes, .expression host frames (.field name start)⟩
  /-- The field of a container. -/
  | field {host : Host} {frames : List Frame} {container name : Bytes} {start : Position}
    (h : t.symbol = .ident name) :
    Takes o done scopes t (.expression host frames (.field container start))
      ⟨done, scopes, .expression host frames (.member container name start)⟩
  /-- The start of the arguments of a call. -/
  | openCall {host : Host} {frames : List Frame} {p : Point} {callee : Expr}
    (h : t.symbol = .punct .openParen) (hp : Callee p callee) :
    Takes o done scopes t (.expression host frames p)
      ⟨done, scopes, .expression host (.call callee t.pos [] :: frames) .firstArgument⟩
  /-- The start of the components of a vector. -/
  | openConstruct {host : Host} {frames : List Frame} {type : Keyword} {start : Position}
    (h : t.symbol = .punct .openParen) :
    Takes o done scopes t (.expression host frames (.vector type start))
      ⟨done, scopes, .expression host (.construct type start [] :: frames) .firstArgument⟩
  /-- What follows an operand. -/
  | after {host : Host} {frames : List Frame} {p : Point} {e : Expr} {next : State}
    (hp : p.value? = some e)
    (hn : TakesAfter o ⟨done, scopes, .expression host frames p⟩ host frames e t next) :
    Takes o done scopes t (.expression host frames p) next

/-! ## The rules and the functions -/

/-- Operands start as the rules say. -/
theorem takeOperand?_iff {host : Host} {frames : List Frame} {t : Token} {m : Mode} :
    takeOperand? host frames t = some m ↔ StartsOperand host frames t m := by
  constructor
  · intro h
    unfold takeOperand? at h
    split at h
    · next op hs =>
      split at h
      · next hu =>
        cases h
        exact .unary hs hu
      · cases h
    · next value hs =>
      cases h
      exact .bool hs
    · next value hs =>
      cases h
      exact .number hs
    · next value hs =>
      cases h
      exact .string hs
    · next name hs =>
      cases h
      exact .name hs
    · next hs =>
      cases h
      exact .paren hs
    · next k hs =>
      split at h
      · next hk =>
        cases h
        exact .vector hs hk
      · cases h
    · cases h
  · intro h
    cases h with
    | unary h hu => simp [takeOperand?, h, hu]
    | bool h => simp [takeOperand?, h]
    | number h => simp [takeOperand?, h]
    | string h => simp [takeOperand?, h]
    | name h => simp [takeOperand?, h]
    | paren h => simp [takeOperand?, h]
    | vector h hk => simp [takeOperand?, h, hk]

/-- An expression that no bracket encloses ends as the rules say. -/
theorem takesAfter_of_endExpression? {o : Options} {state next : State} {host : Host}
    {frames : List Frame} {e v : Expr} {t : Token} (hg : groupAll e frames = (v, []))
    (h : endExpression? state host v t.symbol = some next) :
    TakesAfter o state host frames e t next := by
  unfold endExpression? at h
  split at h
  · next start hs =>
    cases h
    exact .statementEnd hs rfl hg
  · next head hs =>
    cases h
    exact .declarationEnd hs rfl hg
  · next start hs =>
    cases h
    exact .conditionEnd hs rfl hg
  · cases h

/-- A bracket closes as the rules say. -/
theorem takesAfter_of_closeBracket? {o : Options} {state next : State} {host : Host}
    {frames inner : List Frame} {e v : Expr} {t : Token} (hs : t.symbol = .punct .closeParen)
    (hg : groupAll e frames = (v, inner))
    (h : (closeBracket? host (some v) inner).map state.withMode = some next) :
    TakesAfter o state host frames e t next := by
  unfold closeBracket? at h
  split at h
  · cases h
    exact .parenEnd hs hg
  · cases h
    exact .callEnd hs hg
  · cases h
    exact .constructEnd hs hg
  · cases h

/-- A bracket goes on as the rules say. -/
theorem takesAfter_of_nextArgument? {o : Options} {state next : State} {host : Host}
    {frames inner : List Frame} {e v : Expr} {t : Token} (hs : t.symbol = .punct .comma)
    (hg : groupAll e frames = (v, inner))
    (h : (nextArgument? o host v inner).map state.withMode = some next) :
    TakesAfter o state host frames e t next := by
  unfold nextArgument? at h
  split at h
  · split at h
    · next ho =>
      cases h
      exact .nextArgument hs ho hg
    · cases h
  · cases h
    exact .nextComponent hs hg
  · cases h

/-- Expressions go on as the rules say. -/
theorem takeAfter?_iff {o : Options} {state next : State} {host : Host} {frames : List Frame}
    {e : Expr} {t : Token} :
    takeAfter? o state host frames e t = some next ↔ TakesAfter o state host frames e t next := by
  constructor
  · intro h
    unfold takeAfter? at h
    split at h
    · next op hs =>
      split at h
      · next hl =>
        cases h
        exact .operator hs hl rfl
      · cases h
    · split at h
      · next v hg => exact takesAfter_of_endExpression? hg h
      · next v inner hne hg =>
        split at h
        · next hs => exact takesAfter_of_closeBracket? hs hg h
        · next hs => exact takesAfter_of_nextArgument? hs hg h
        · cases h
  · intro h
    cases h with
    | operator h hl hg => simp [takeAfter?, h, hl, hg]
    | statementEnd h hh hg => simp [takeAfter?, h, hh, hg, endExpression?]
    | declarationEnd h hh hg => simp [takeAfter?, h, hh, hg, endExpression?]
    | conditionEnd h hh hg => simp [takeAfter?, h, hh, hg, endExpression?]
    | parenEnd h hg => simp [takeAfter?, h, hg, closeBracket?]
    | callEnd h hg => simp [takeAfter?, h, hg, closeBracket?]
    | constructEnd h hg => simp [takeAfter?, h, hg, closeBracket?]
    | nextArgument h ho hg => simp [takeAfter?, h, hg, nextArgument?, ho]
    | nextComponent h hg => simp [takeAfter?, h, hg, nextArgument?]

/-- The innermost block closes as the rules say. -/
theorem takes_of_closeBlock? {o : Options} {done : List Stmt} {scopes : List Scope} {t : Token}
    {next : State} (hs : t.symbol = .punct .closeBrace)
    (h : closeBlock? ⟨done, scopes, .statement⟩ = some next) :
    Takes o done scopes t .statement next := by
  unfold closeBlock? at h
  split at h
  · next opened inner outer hsc =>
    cases h
    exact .closeBlock hs hsc
  · next head opened inner outer hsc =>
    cases h
    exact .closeFunction hs hsc
  · cases h

/-- Statements start as the rules say. -/
theorem takes_of_takeStatement? {o : Options} {done : List Stmt} {scopes : List Scope} {t : Token}
    {next : State} (h : takeStatement? ⟨done, scopes, .statement⟩ t = some next) :
    Takes o done scopes t .statement next := by
  unfold takeStatement? at h
  split at h
  · next name hs =>
    cases h
    exact .directive hs
  · next hs =>
    cases h
    exact .openBlock hs
  · next hs => exact takes_of_closeBlock? hs h
  · next hs =>
    cases h
    exact .cond hs
  · next hs =>
    cases h
    exact .input hs
  · next hs =>
    cases h
    exact .struct hs
  · next k _ _ _ hs =>
    split at h
    · next hk =>
      cases h
      exact .type hs hk
    · cases h
  · next hk =>
    obtain ⟨m, hm, rfl⟩ := Option.map_eq_some_iff.mp h
    exact .start hk (takeOperand?_iff.mp hm)

/-- A symbol with a name is that name. -/
theorem Symbol.name?_eq_some {s : Symbol} {n : Bytes} : s.name? = some n ↔ s = .ident n := by
  cases s <;> simp [Symbol.name?]

/-- A symbol with a type word is that word. -/
theorem Symbol.typeWord?_eq_some {s : Symbol} {k : Keyword} :
    s.typeWord? = some k ↔ s = .keyword k ∧ k.isType = true := by
  cases s with
  | keyword w =>
    by_cases hw : w.isType = true
    · simp only [typeWord?, hw, if_true, Option.some.injEq, Symbol.keyword.injEq]
      constructor
      · rintro rfl
        exact ⟨rfl, hw⟩
      · rintro ⟨rfl, -⟩
        rfl
    · simp only [typeWord?, hw, Symbol.keyword.injEq]
      constructor
      · intro h
        cases h
      · rintro ⟨rfl, hk⟩
        exact absurd hk hw
  | _ => simp [typeWord?]

/-- Expressions take tokens as the rules say. -/
theorem takes_of_takeInExpression? {o : Options} {done : List Stmt} {scopes : List Scope}
    {t : Token} {next : State} {host : Host} {frames : List Frame} {p : Point}
    (h : takeInExpression? o ⟨done, scopes, .expression host frames p⟩ host frames p t =
      some next) :
    Takes o done scopes t (.expression host frames p) next := by
  cases p with
  | operand =>
    obtain ⟨m, hm, rfl⟩ := Option.map_eq_some_iff.mp h
    exact .operand (.inl rfl) (takeOperand?_iff.mp hm)
  | firstArgument =>
    simp only [takeInExpression?] at h
    split at h
    · next hs =>
      unfold closeBracket? at h
      split at h
      · cases h
      · cases h
        exact .emptyCall hs
      · cases h
        exact .emptyConstruct hs
      · cases h
    · obtain ⟨m, hm, rfl⟩ := Option.map_eq_some_iff.mp h
      exact .operand (.inr rfl) (takeOperand?_iff.mp hm)
  | name n start =>
    simp only [takeInExpression?, takeAfterCallee?] at h
    split at h
    · next hs =>
      cases h
      exact .colon hs
    · split at h
      · next hs =>
        cases h
        exact .openCall hs (.name n start)
      · exact .after rfl (takeAfter?_iff.mp h)
  | field container start =>
    obtain ⟨n, hn, rfl⟩ := Option.map_eq_some_iff.mp h
    exact .field (Symbol.name?_eq_some.mp hn)
  | member container f start =>
    simp only [takeInExpression?, takeAfterCallee?] at h
    split at h
    · next hs =>
      cases h
      exact .openCall hs (.member container f start)
    · exact .after rfl (takeAfter?_iff.mp h)
  | vector type start =>
    simp only [takeInExpression?, State.onMark?] at h
    split at h
    · next hs =>
      cases h
      exact .openConstruct hs
    · cases h
  | complete e => exact .after rfl (takeAfter?_iff.mp h)

/-- Taking a certain mark. -/
theorem State.onMark?_eq_some {state next : State} {t : Token} {mark : Punct} {m : Mode} :
    state.onMark? t mark m = some next ↔
      t.symbol = .punct mark ∧ next = ⟨state.finished, state.scopes, m⟩ := by
  unfold State.onMark?
  split
  · next hs => simp [hs, State.withMode, eq_comm]
  · next hs => simp [hs]

/-- Every token is taken by one of the rules. -/
theorem State.takes_of_take? {o : Options} {s next : State} {t : Token}
    (h : s.take? o t = some next) : Takes o s.finished s.scopes t s.mode next := by
  obtain ⟨done, scopes, mode⟩ := s
  cases mode with
  | statement => exact takes_of_takeStatement? h
  | conditionStart start =>
    obtain ⟨hs, rfl⟩ := State.onMark?_eq_some.mp h
    exact .openCondition hs
  | modified start =>
    obtain ⟨k, hk, rfl⟩ := Option.map_eq_some_iff.mp h
    obtain ⟨hs, hk⟩ := Symbol.typeWord?_eq_some.mp hk
    exact .modifiedType hs hk
  | typed modifiers type start =>
    obtain ⟨n, hn, rfl⟩ := Option.map_eq_some_iff.mp h
    exact .declare (Symbol.name?_eq_some.mp hn)
  | declared head =>
    simp only [State.take?, takeAfterName?] at h
    split at h
    · next op hs =>
      split at h
      · next ho =>
        cases h
        exact .initial (ho ▸ hs)
      · cases h
    · next hs =>
      cases h
      exact .declared hs
    · next hs =>
      cases h
      exact .openParameters hs
    · cases h
  | parameters head =>
    obtain ⟨hs, rfl⟩ := State.onMark?_eq_some.mp h
    exact .closeParameters hs
  | functionBody head =>
    simp only [State.take?] at h
    split at h
    · next hs =>
      cases h
      exact .openFunction hs
    · cases h
  | structName start =>
    obtain ⟨n, hn, rfl⟩ := Option.map_eq_some_iff.mp h
    exact .structName (Symbol.name?_eq_some.mp hn)
  | structStart name start =>
    obtain ⟨hs, rfl⟩ := State.onMark?_eq_some.mp h
    exact .openStruct hs
  | members s =>
    simp only [State.take?, takeMember?] at h
    split at h
    · next hs =>
      split at h
      · cases h
      · next hm =>
        cases h
        refine .closeStruct hs ?_
        by_cases he : s.members = []
        · right
          simpa [he] using hm
        · exact .inl he
    · obtain ⟨n, hn, rfl⟩ := Option.map_eq_some_iff.mp h
      exact .memberName (Symbol.name?_eq_some.mp hn)
  | memberColon s name start =>
    obtain ⟨hs, rfl⟩ := State.onMark?_eq_some.mp h
    exact .memberColon hs
  | memberType s name start =>
    obtain ⟨n, hn, rfl⟩ := Option.map_eq_some_iff.mp h
    exact .memberType hn
  | memberEnd s m =>
    obtain ⟨hs, rfl⟩ := State.onMark?_eq_some.mp h
    exact .memberEnd hs
  | expression host frames point => exact takes_of_takeInExpression? h

/-- What starts an operand is no closing parenthesis. -/
theorem StartsOperand.ne_closeParen {host : Host} {frames : List Frame} {t : Token} {m : Mode}
    (h : StartsOperand host frames t m) : t.symbol ≠ .punct .closeParen := by
  cases h with
  | unary h _ | bool h | number h | string h | name h | paren h | vector h _ => simp [h]

/-- What starts an expression is taken where a statement may start, unless it is a word. -/
theorem StartsOperand.takeStatement? {state : State} {t : Token} {m : Mode}
    (h : StartsOperand (.statement t.pos) [] t m) (hn : ∀ k, t.symbol ≠ .keyword k) :
    takeStatement? state t = some (state.withMode m) := by
  have hm := takeOperand?_iff.mpr h
  cases h with
  | vector hs _ => exact absurd hs (hn _)
  | unary hs _ | bool hs | number hs | string hs | name hs | paren hs =>
    simp [ShaderFront.takeStatement?, hs, hm]

/-- What follows an operand does not belong to a name before it. -/
theorem TakesAfter.ne_marks {o : Options} {state next : State} {host : Host}
    {frames : List Frame} {e : Expr} {t : Token} (h : TakesAfter o state host frames e t next) :
    t.symbol ≠ .punct .colon ∧ t.symbol ≠ .punct .openParen := by
  cases h with
  | operator h _ _ | statementEnd h _ _ | declarationEnd h _ _ | conditionEnd h _ _ | parenEnd h _
  | callEnd h _ | constructEnd h _ | nextArgument h _ _ | nextComponent h _ => simp [h]

/-- Every rule says how a token is taken. -/
theorem State.take?_of_takes {o : Options} {done : List Stmt} {scopes : List Scope} {mode : Mode}
    {next : State} {t : Token} (h : Takes o done scopes t mode next) :
    (⟨done, scopes, mode⟩ : State).take? o t = some next := by
  cases h with
  | directive h => simp [take?, takeStatement?, h, State.complete]
  | openBlock h => simp [take?, takeStatement?, h, State.enter]
  | closeBlock h hs => simp [take?, takeStatement?, h, closeBlock?, hs]
  | closeFunction h hs => simp [take?, takeStatement?, h, closeBlock?, hs]
  | cond h => simp [take?, takeStatement?, h, State.withMode]
  | input h => simp [take?, takeStatement?, h, State.withMode]
  | struct h => simp [take?, takeStatement?, h, State.withMode]
  | @type k h hk =>
    cases k <;> simp [take?, takeStatement?, h, State.withMode, Keyword.isType] at hk ⊢
  | start hn hm => exact hm.takeStatement? hn
  | openCondition h => simp [take?, onMark?, h, State.withMode]
  | modifiedType h hk => simp [take?, Symbol.typeWord?, h, hk, State.withMode]
  | declare h => simp [take?, Symbol.name?, h, State.withMode]
  | initial h => simp [take?, takeAfterName?, h, State.withMode]
  | declared h => simp [take?, takeAfterName?, h, State.complete]
  | openParameters h => simp [take?, takeAfterName?, h, State.withMode]
  | closeParameters h => simp [take?, onMark?, h, State.withMode]
  | openFunction h => simp [take?, h, State.enter]
  | structName h => simp [take?, Symbol.name?, h, State.withMode]
  | openStruct h => simp [take?, onMark?, h, State.withMode]
  | closeStruct h hs =>
    rcases hs with hs | hs <;> simp [take?, takeMember?, h, hs, State.complete]
  | memberName h => simp [take?, takeMember?, Symbol.name?, h, State.withMode]
  | memberColon h => simp [take?, onMark?, h, State.withMode]
  | memberType h => simp [take?, h, State.withMode]
  | memberEnd h => simp [take?, onMark?, h, State.withMode]
  | operand hp hm =>
    have hs := hm.ne_closeParen
    have hm := takeOperand?_iff.mpr hm
    rcases hp with rfl | rfl <;> simp [take?, takeInExpression?, hs, hm, State.withMode]
  | emptyCall h => simp [take?, takeInExpression?, h, closeBracket?, State.withMode]
  | emptyConstruct h => simp [take?, takeInExpression?, h, closeBracket?, State.withMode]
  | colon h => simp [take?, takeInExpression?, h, State.withMode]
  | field h => simp [take?, takeInExpression?, Symbol.name?, h, State.withMode]
  | openCall h hp =>
    cases hp <;> simp [take?, takeInExpression?, takeAfterCallee?, h, State.withMode]
  | openConstruct h => simp [take?, takeInExpression?, onMark?, h, State.withMode]
  | @after host frames p e next hp hn =>
    have hs := hn.ne_marks
    have ht := takeAfter?_iff.mpr hn
    cases p <;> cases hp <;> simp [take?, takeInExpression?, takeAfterCallee?, hs, ht]

/-- The rules say how tokens are taken. -/
theorem State.take?_iff {o : Options} {s next : State} {t : Token} :
    s.take? o t = some next ↔ Takes o s.finished s.scopes t s.mode next :=
  ⟨takes_of_take?, take?_of_takes⟩

/-! ## Complete statements -/

/-- After a complete statement the next one may start. -/
theorem mode_addStatement (s : Stmt) (done : List Stmt) (scopes : List Scope) :
    (addStatement s done scopes).mode = .statement := by
  induction scopes generalizing s with
  | nil => rfl
  | cons scope scopes ih =>
    cases scope with
    | guard start condition => exact ih _
    | block opened inner => rfl
    | function head opened inner => rfl

end ShaderFront
