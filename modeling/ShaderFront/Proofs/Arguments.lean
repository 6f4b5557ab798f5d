import ShaderFront.Proofs.Members
import ShaderFront.Proofs.Parentheses
import ShaderFront.Proofs.WellFormed

/-!
# Calls with several arguments

A grammar in which calls have several arguments extends the one in which they have at
most one. The two part at the comma after the first argument of a call. A comma between
the components of a vector is taken by both, so it matters which of the open parentheses
is the innermost one: it is the one after which all that was read is balanced.
-/

namespace ShaderFront

/-! ## Calls with at most one argument -/

mutual

/-- Has every call in the expression at most one argument? -/
def Expr.hasFewArguments : Expr → Bool
  | .hole | .bool _ _ | .number _ _ | .string _ _ | .ident _ _ | .member _ _ _ => true
  | .binary _ left right _ => left.hasFewArguments && right.hasFewArguments
  | .unary _ operand _ => operand.hasFewArguments
  | .paren inner _ => inner.hasFewArguments
  | .call callee args _ =>
    callee.hasFewArguments && args.length ≤ 1 && Expr.haveFewArguments args
  | .construct _ args _ => Expr.haveFewArguments args

/-- Has every call in the expressions at most one argument? -/
def Expr.haveFewArguments : List Expr → Bool
  | [] => true
  | e :: es => e.hasFewArguments && Expr.haveFewArguments es

end

mutual

/-- Has every call in the statement at most one argument? -/
def Stmt.hasFewArguments : Stmt → Bool
  | .hole | .struct _ _ _ _ => true
  | .expr value _ => value.hasFewArguments
  | .cond condition body _ => condition.hasFewArguments && body.hasFewArguments
  | .block body _ | .function _ _ body _ => haveFewArguments body
  | .decl _ init => init.all Expr.hasFewArguments
  | .directive _ params _ => Expr.haveFewArguments params

/-- Has every call in the statements at most one argument? -/
def haveFewArguments : List Stmt → Bool
  | [] => true
  | s :: ss => s.hasFewArguments && haveFewArguments ss

end

theorem Expr.haveFewArguments_eq_all (es : List Expr) :
    haveFewArguments es = es.all hasFewArguments := by
  induction es with
  | nil => rfl
  | cons e es ih => rw [haveFewArguments, ih, List.all_cons]

theorem haveFewArguments_eq_all (ss : List Stmt) :
    haveFewArguments ss = ss.all Stmt.hasFewArguments := by
  induction ss with
  | nil => rfl
  | cons s ss ih => rw [haveFewArguments, ih, List.all_cons]

/-! ## Unfinished programs -/

/-- Has every call in the part that waits at most one argument, with the one that is being read? -/
def Frame.hasFewArguments : Frame → Bool
  | .unary _ _ | .paren _ => true
  | .binary left _ => left.hasFewArguments
  | .call callee _ args => callee.hasFewArguments && args.isEmpty
  | .construct _ _ args => args.all Expr.hasFewArguments

/-- Has every call in the operand at most one argument? -/
def Point.hasFewArguments : Point → Bool
  | .complete value => value.hasFewArguments
  | _ => true

/-- Has every call in the current statement at most one argument? -/
def Mode.hasFewArguments : Mode → Bool
  | .expression _ frames p => p.hasFewArguments && frames.all Frame.hasFewArguments
  | _ => true

/-- The test whether every call has at most one argument. -/
def argumentsTest : Test where
  passes := Stmt.hasFewArguments
  condition := Expr.hasFewArguments
  passes_cond _ _ _ := rfl
  passes_block ss _ := haveFewArguments_eq_all ss
  passes_function _ _ ss _ := haveFewArguments_eq_all ss

/-- Has every call in the unfinished program at most one argument? -/
def State.hasFewArguments (s : State) : Bool :=
  argumentsTest.passesState s && s.mode.hasFewArguments

/-- The value of an operand has the calls that were read. -/
theorem Point.hasFewArguments_value {p : Point} {e : Expr} (h : p.value? = some e) :
    p.hasFewArguments = e.hasFewArguments := by
  cases p with
  | operand | firstArgument | field _ _ | vector _ _ => cases h
  | name _ _ | member _ _ _ | complete _ =>
    cases h
    rfl

/-- Grouping moves calls between the frames and the operand. -/
theorem hasFewArguments_group (waits : Operator → Bool) (e : Expr) (frames : List Frame) :
    ((group waits e frames).1.hasFewArguments &&
        (group waits e frames).2.all Frame.hasFewArguments) =
      (e.hasFewArguments && frames.all Frame.hasFewArguments) := by
  induction frames generalizing e with
  | nil => rfl
  | cons f frames ih =>
    cases f with
    | unary op start =>
      rw [group, ih]
      rfl
    | binary left op =>
      rw [group]
      split
      · rfl
      · rw [ih, Expr.hasFewArguments, List.all_cons, Frame.hasFewArguments]
        ac_rfl
    | paren start => rfl
    | call callee opened args => rfl
    | construct type start args => rfl

theorem hasFewArguments_of_group {waits : Operator → Bool} {e v : Expr} {frames inner : List Frame}
    (h : group waits e frames = (v, inner)) :
    (e.hasFewArguments && frames.all Frame.hasFewArguments) =
      (v.hasFewArguments && inner.all Frame.hasFewArguments) := by
  have hg := hasFewArguments_group waits e frames
  rw [h] at hg
  exact hg.symm

/-- Calls in a statement that gets to another point. -/
theorem State.hasFewArguments_mk (done : List Stmt) (scopes : List Scope) (mode : Mode) :
    (⟨done, scopes, mode⟩ : State).hasFewArguments =
      (argumentsTest.passesState ⟨done, scopes, .statement⟩ && mode.hasFewArguments) := rfl

/-- Calls in a statement that is complete. -/
theorem hasFewArguments_addStatement (s : Stmt) (done : List Stmt) (scopes : List Scope) :
    (addStatement s done scopes).hasFewArguments =
      (argumentsTest.passesState ⟨done, scopes, .statement⟩ && s.hasFewArguments) := by
  rw [State.hasFewArguments, mode_addStatement, argumentsTest.passesState_addStatement]
  exact (Bool.and_true _).trans (Bool.and_comm _ _)

/-! ## One token in both grammars -/

/-- The grammar with several arguments in a call, or at most one. -/
def Options.calling (o : Options) (many : Bool) : Options := { o with manyArguments := many }

/-- The innermost open parenthesis is that of a call, and an argument may end here. -/
inductive AfterArgument : Mode → Prop
  /-- The operators before the end of the argument are complete with it. -/
  | value {host : Host} {frames outer : List Frame} {p : Point} {e v callee : Expr}
    {opened : Position} {args : List Expr} (hp : p.value? = some e)
    (hg : groupAll e frames = (v, .call callee opened args :: outer)) :
    AfterArgument (.expression host frames p)

/-- After a complete operand it is the frames that matter. -/
theorem afterArgument_iff {host : Host} {frames : List Frame} {p : Point} {e : Expr}
    (hp : p.value? = some e) :
    AfterArgument (.expression host frames p) ↔ ∃ v callee opened args outer,
      groupAll e frames = (v, .call callee opened args :: outer) := by
  constructor
  · rintro ⟨hvalue, hg⟩
    cases hp.symm.trans hvalue
    exact ⟨_, _, _, _, _, hg⟩
  · rintro ⟨v, callee, opened, args, outer, hg⟩
    exact .value hp hg

/-- Does the token announce a further argument of a call? -/
def State.AddsArgument (s : State) (t : Token) : Prop :=
  t.symbol = .punct .comma ∧ AfterArgument s.mode

/-- Only a comma in a call depends on how many arguments it may have. -/
theorem nextArgument?_calling (o : Options) (many many' : Bool) (host : Host) (e : Expr)
    {frames : List Frame}
    (h : ∀ callee opened args outer, frames ≠ .call callee opened args :: outer) :
    nextArgument? (o.calling many) host e frames =
      nextArgument? (o.calling many') host e frames := by
  unfold nextArgument?
  split
  · exact absurd rfl (h _ _ _ _)
  · rfl
  · rfl

/-- Only a comma after an argument of a call depends on how many arguments it may have. -/
theorem takeAfter?_calling (o : Options) (many many' : Bool) (state : State) (host : Host)
    {frames : List Frame} {e : Expr} {t : Token}
    (h : t.symbol = .punct .comma → ∀ v callee opened args outer,
      groupAll e frames ≠ (v, .call callee opened args :: outer)) :
    takeAfter? (o.calling many) state host frames e t =
      takeAfter? (o.calling many') state host frames e t := by
  unfold takeAfter?
  split
  · rfl
  · split
    · rfl
    · next v inner _ hg =>
      split
      · rfl
      · next hcomma =>
        rw [nextArgument?_calling o many many' host]
        rintro callee opened args outer rfl
        exact h hcomma _ _ _ _ _ hg
      · rfl

/-- Every token that announces no further argument of a call is taken or refused by both
grammars alike. -/
theorem State.take?_calling (o : Options) (many many' : Bool) {s : State} {t : Token}
    (h : ¬s.AddsArgument t) : s.take? (o.calling many) t = s.take? (o.calling many') t := by
  obtain ⟨done, scopes, mode⟩ := s
  cases mode with
  | expression host frames p =>
    have hafter {e : Expr} (hp : p.value? = some e) :
        takeAfter? (o.calling many) ⟨done, scopes, .expression host frames p⟩ host frames e t =
          takeAfter? (o.calling many') ⟨done, scopes, .expression host frames p⟩ host frames e t :=
      takeAfter?_calling o many many' _ host fun hcomma v callee opened args outer hg =>
        h ⟨hcomma, .value hp hg⟩
    cases p with
    | operand | firstArgument | field _ _ | vector _ _ => rfl
    | name n start =>
      simp only [take?, takeInExpression?, takeAfterCallee?, hafter rfl]
    | member container field start =>
      simp only [take?, takeInExpression?, takeAfterCallee?, hafter rfl]
    | complete e => exact hafter rfl
  | _ => rfl

/-- A further argument is taken where a call may have several. -/
theorem State.take?_of_addsArgument (o : Options) {s : State} {t : Token} (h : s.AddsArgument t) :
    ∃ next, s.take? (o.calling true) t = some next ∧ next.hasFewArguments = false := by
  obtain ⟨done, scopes, mode⟩ := s
  obtain ⟨hcomma, hmode⟩ := h
  dsimp only at hmode
  cases hmode with
  | value hp hg =>
    refine ⟨_, take?_of_takes (.after hp (.nextArgument hcomma rfl hg)), ?_⟩
    simp [State.withMode, State.hasFewArguments, Mode.hasFewArguments, Frame.hasFewArguments]

/-- A further argument is refused where a call may have only one. -/
theorem State.take?_eq_none_of_addsArgument (o : Options) {s : State} {t : Token}
    (h : s.AddsArgument t) : s.take? (o.calling false) t = none := by
  obtain ⟨done, scopes, mode⟩ := s
  obtain ⟨hcomma, hmode⟩ := h
  dsimp only at hmode
  cases hmode with
  | @value host frames _ p e _ _ _ _ hp hg =>
    have hafter (state : State) : takeAfter? (o.calling false) state host frames e t = none := by
      simp [takeAfter?, hcomma, hg, nextArgument?, Options.calling]
    cases p with
    | operand | firstArgument | field _ _ | vector _ _ => cases hp
    | name _ _ | member _ _ _ =>
      cases hp
      simp [take?, takeInExpression?, takeAfterCallee?, hcomma, hafter]
    | complete _ =>
      cases hp
      exact hafter _

/-! ## Calls that a token makes -/

/-- A call has few arguments if it has no other than its last one. -/
theorem hasFewArguments_call (callee v : Expr) (args : List Expr) (span : Span) :
    (Expr.call callee (v :: args).reverse span).hasFewArguments =
      (v.hasFewArguments && (callee.hasFewArguments && args.isEmpty)) := by
  cases args with
  | nil => simp [Expr.hasFewArguments, Expr.haveFewArguments, Bool.and_comm]
  | cons e args => simp [Expr.hasFewArguments]

theorem hasFewArguments_construct (type : Bytes) (args : List Expr) (span : Span) :
    (Expr.construct type args.reverse span).hasFewArguments =
      args.all Expr.hasFewArguments := by
  rw [Expr.hasFewArguments, Expr.haveFewArguments_eq_all, List.all_reverse]

/-- A token after an operand makes no call with several arguments, unless it announces a
further one. -/
theorem TakesAfter.hasFewArguments {o : Options} {done : List Stmt} {scopes : List Scope}
    {mode : Mode} {host : Host} {frames : List Frame} {e : Expr} {t : Token} {next : State}
    (h : TakesAfter o ⟨done, scopes, mode⟩ host frames e t next)
    (hn : t.symbol = .punct .comma → ∀ v callee opened args outer,
      groupAll e frames ≠ (v, .call callee opened args :: outer)) :
    next.hasFewArguments = (argumentsTest.passesState ⟨done, scopes, .statement⟩ &&
      (e.hasFewArguments && frames.all Frame.hasFewArguments)) := by
  cases h with
  | operator _ _ hg =>
    rw [hasFewArguments_of_group hg]
    rfl
  | statementEnd _ _ hg | declarationEnd _ _ hg =>
    rw [hasFewArguments_of_group hg, State.complete, hasFewArguments_addStatement]
    simp [Stmt.hasFewArguments]
  | conditionEnd _ _ hg =>
    have hcondition (c : Expr) : argumentsTest.condition c = c.hasFewArguments := rfl
    rw [hasFewArguments_of_group hg]
    simp only [State.enter, State.hasFewArguments, Mode.hasFewArguments, Test.passesState,
      List.all_cons, Test.passesScope, List.all_nil, Bool.and_true, hcondition]
    ac_rfl
  | parenEnd _ hg =>
    rw [hasFewArguments_of_group hg]
    rfl
  | callEnd _ hg =>
    rw [hasFewArguments_of_group hg, State.withMode, State.hasFewArguments_mk]
    simp only [Mode.hasFewArguments, Point.hasFewArguments, hasFewArguments_call, List.all_cons,
      Frame.hasFewArguments]
    ac_rfl
  | constructEnd _ hg =>
    rw [hasFewArguments_of_group hg, State.withMode, State.hasFewArguments_mk]
    simp only [Mode.hasFewArguments, Point.hasFewArguments, hasFewArguments_construct,
      List.all_cons, Frame.hasFewArguments]
    ac_rfl
  | nextArgument hcomma _ hg => exact absurd hg (hn hcomma _ _ _ _ _)
  | nextComponent _ hg =>
    rw [hasFewArguments_of_group hg, State.withMode, State.hasFewArguments_mk]
    simp only [Mode.hasFewArguments, Point.hasFewArguments, List.all_cons, Frame.hasFewArguments]
    ac_rfl

/-- The first token of an operand makes no call. -/
theorem StartsOperand.hasFewArguments {host : Host} {frames : List Frame} {t : Token} {m : Mode}
    (h : StartsOperand host frames t m) :
    m.hasFewArguments = frames.all Frame.hasFewArguments := by
  cases h <;> simp [Mode.hasFewArguments, Point.hasFewArguments, Frame.hasFewArguments,
    Expr.hasFewArguments]

/-- A token makes no call with several arguments, unless it announces a further one. -/
theorem Takes.hasFewArguments {o : Options} {done : List Stmt} {scopes : List Scope} {t : Token}
    {mode : Mode} {next : State} (h : Takes o done scopes t mode next)
    (hm : mode.IsWellFormed o) (hn : ¬State.AddsArgument ⟨done, scopes, mode⟩ t) :
    next.hasFewArguments = (⟨done, scopes, mode⟩ : State).hasFewArguments := by
  rw [State.hasFewArguments_mk done scopes mode]
  cases h with
  | directive _ | declared _ | closeStruct _ _ =>
    rw [hasFewArguments_addStatement]
    rfl
  | closeBlock _ hs | closeFunction _ hs =>
    subst hs
    rw [State.hasFewArguments, mode_addStatement]
    exact congrArg (· && _) (argumentsTest.passesState_closeBlock? (s := ⟨done, _, .statement⟩) rfl)
  | start _ hstart =>
    rw [State.hasFewArguments_mk, hstart.hasFewArguments]
    rfl
  | operand hp hstart =>
    rw [State.hasFewArguments_mk, hstart.hasFewArguments]
    rcases hp with rfl | rfl <;> rfl
  | @emptyCall _ _ callee _ args _ =>
    cases show args = [] from hm.2.2 rfl
    simp [State.hasFewArguments_mk, Mode.hasFewArguments, Point.hasFewArguments,
      Frame.hasFewArguments, Expr.hasFewArguments, Expr.haveFewArguments]
  | emptyConstruct _ =>
    simp [State.hasFewArguments_mk, Mode.hasFewArguments, Point.hasFewArguments,
      Frame.hasFewArguments, hasFewArguments_construct]
  | openCall _ hp => cases hp <;> rfl
  | after hp hafter =>
    rw [hafter.hasFewArguments, Mode.hasFewArguments, Point.hasFewArguments_value hp]
    intro hcomma v callee opened args outer hg
    exact hn ⟨hcomma, .value hp hg⟩
  | _ => rfl

namespace State

/-- A call with several arguments is among those that were read once its first argument is
followed by a comma. -/
theorem hasFewArguments_of_take? (o : Options) {s next : State} {t : Token}
    (hs : s.mode.IsWellFormed (o.calling true)) (h : s.take? (o.calling true) t = some next) :
    next.hasFewArguments = true ↔ s.hasFewArguments = true ∧ ¬s.AddsArgument t := by
  by_cases hadds : s.AddsArgument t
  · obtain ⟨next', hnext', hfew⟩ := take?_of_addsArgument o hadds
    rw [h] at hnext'
    cases hnext'
    simp [hfew, hadds]
  · rw [(takes_of_take? h).hasFewArguments hs hadds]
    exact ⟨fun hfew => ⟨hfew, hadds⟩, And.left⟩

end State

/-! ## Refusals -/

/-- The report about several arguments stands at a comma, where the innermost open
parenthesis is that of a call. -/
theorem kind_refusalAfter_eq_unsupportedArguments (host : Host) (got : Symbol) (e : Expr)
    (frames : List Frame) :
    (refusalAfter host got frames).kind = .unsupportedArguments ↔
      got = .punct .comma ∧ ∃ v callee opened args outer,
        groupAll e frames = (v, .call callee opened args :: outer) := by
  induction frames generalizing e with
  | nil => cases host <;> simp [refusalAfter, Cause.kind, groupAll, group]
  | cons f frames ih =>
    cases f with
    | unary op start => exact ih _
    | binary left op => exact ih _
    | paren start => simp [refusalAfter, Cause.kind, groupAll, group]
    | call callee opened args =>
      unfold refusalAfter
      split
      · next hcomma => simp [Cause.kind, groupAll, group, hcomma]
      · next hcomma => simp [Cause.kind, hcomma]
    | construct type start args => simp [refusalAfter, Cause.kind, groupAll, group]

namespace State

theorem kind_refusal_eq_unsupportedArguments {s : State} {got : Symbol} :
    (s.refusal got).kind = .unsupportedArguments ↔ got = .punct .comma ∧ AfterArgument s.mode := by
  obtain ⟨done, scopes, mode⟩ := s
  cases mode with
  | expression host frames p =>
    cases hp : p.value? with
    | none =>
      have hmode : ¬AfterArgument (.expression host frames p) := by
        rintro ⟨hvalue, -⟩
        rw [hp] at hvalue
        cases hvalue
      cases p with
      | operand | firstArgument | field _ _ | vector _ _ =>
        simp [refusal, refusalInExpression, Cause.kind, hmode]
      | name _ _ | member _ _ _ | complete _ => cases hp
    | some e =>
      rw [afterArgument_iff hp, ← kind_refusalAfter_eq_unsupportedArguments host got e frames]
      cases p with
      | operand | firstArgument | field _ _ | vector _ _ => cases hp
      | name _ _ | member _ _ _ | complete _ => rfl
  | statement =>
    have hmode : ¬AfterArgument .statement := fun h => by cases h
    rcases kind_refusalAtStatement got scopes with h | h <;> simp [refusal, h, hmode]
  | members r =>
    have hmode : ¬AfterArgument (.members r) := fun h => by cases h
    unfold refusal refusalAtMember
    dsimp only
    split <;> simp [Cause.kind, hmode]
  | _ =>
    constructor
    · intro h
      cases h
    · rintro ⟨-, hmode⟩
      cases hmode

/-- Where calls have several arguments, every comma after an argument is taken. -/
theorem kind_refusal_ne_unsupportedArguments (o : Options) {s : State} {t : Token}
    (h : s.take? (o.calling true) t = none) :
    (s.refusal t.symbol).kind ≠ .unsupportedArguments := by
  intro hkind
  obtain ⟨next, hnext, -⟩ :=
    take?_of_addsArgument o (kind_refusal_eq_unsupportedArguments.mp hkind)
  rw [h] at hnext
  cases hnext

theorem hasFewArguments_of_isComplete {s : State} (h : s.isComplete = true) :
    s.hasFewArguments = true ↔ ∀ r ∈ s.finished, r.hasFewArguments = true := by
  have hmode : s.mode.hasFewArguments = true := by
    obtain ⟨done, scopes, mode⟩ := s
    cases mode with
    | expression _ _ _ => simp [isComplete] at h
    | _ => rfl
  rw [hasFewArguments, hmode, Bool.and_true, argumentsTest.passesState_of_isComplete h,
    List.all_eq_true]
  rfl

end State

/-! ## The extension -/

/-- Calls with several arguments extend those with at most one. -/
def argumentsExtension (o : Options) :
    Extension (o.calling false) (o.calling true) .unsupportedArguments where
  cut := id
  isPlain := Stmt.hasFewArguments
  view := id
  Plain s := s.hasFewArguments = true
  Sound s := s.mode.IsWellFormed (o.calling true)
  Parts := State.AddsArgument
  view_start := rfl
  plain_start := rfl
  sound_start := trivial
  sound_take? h hs := (State.takes_of_take? h).isWellFormed hs
  take?_view h := by rw [id, State.take?_calling o false true h, Option.map_id, id]
  refused := State.take?_eq_none_of_addsArgument o
  plain_iff := State.hasFewArguments_of_take? o
  refusal_view _ _ := rfl
  kind_of_parts := State.kind_refusal_eq_unsupportedArguments.mpr
  kind_ne := State.kind_refusal_ne_unsupportedArguments o
  isComplete_view _ := rfl
  finished_view s := s.finished.map_id.symm
  plain_of_isComplete := State.hasFewArguments_of_isComplete

/-! ## The first argument of a call -/

/-- A call in a row of tokens, up to the comma after its first argument. -/
structure FirstArgument (o : Options) (tokens : List Token) where
  /-- What stands before the call. -/
  before : List Token
  /-- The tokens of the callee. -/
  callee : List Token
  /-- The token that opens the list of arguments. -/
  opening : Token
  /-- The tokens of the first argument. -/
  argument : List Token
  /-- The token after the first argument. -/
  comma : Token
  /-- What stands after it. -/
  after : List Token
  /-- What is called. -/
  called : Expr
  /-- The first argument. -/
  value : Expr
  /-- All of it makes up the row. -/
  tokens_eq : tokens = before ++ callee ++ opening :: argument ++ comma :: after
  /-- A name or a member is called. -/
  isCallee_called : called.isCallee = true
  /-- It is written with the tokens of the callee. -/
  spells_called : Spells called.surface callee
  /-- A parenthesis opens the list. -/
  symbol_opening : opening.symbol = .punct .openParen
  /-- The first argument is a whole expression. -/
  isWellFormed_value : value.isWellFormed o = true
  /-- It is written with the tokens of the first argument. -/
  spells_value : Spells value.surface argument
  /-- A comma follows. -/
  symbol_comma : comma.symbol = .punct .comma

namespace FirstArgument

variable {o : Options} {tokens : List Token} (a : FirstArgument o tokens)

/-- Where the comma stands. -/
def place : Nat := (a.before ++ a.callee ++ a.opening :: a.argument).length

/-- What is called ends with a name. -/
theorem exists_name : ∃ earlier word name, a.callee = earlier ++ [word] ∧
    word.symbol = .ident name := by
  have hspells := a.spells_called
  have hcallee := a.isCallee_called
  generalize a.called = called at hspells hcallee
  cases called with
  | ident name span =>
    obtain ⟨t, ht, hfits⟩ := spells_singleton.mp hspells
    exact ⟨[], t, name, ht, by simpa using hfits⟩
  | member container field span =>
    obtain ⟨t, us, hus, -, hspells⟩ := spells_cons.mp hspells
    obtain ⟨u, vs, rfl, -, hspells⟩ := spells_cons.mp hspells
    obtain ⟨v, rfl, hfits⟩ := spells_singleton.mp hspells
    exact ⟨[t, u], v, field, hus, by simpa using hfits⟩
  | _ => cases hcallee

/-- The innermost parenthesis that is open at the comma stands after a name, so the comma is
in no list of the components of a vector. -/
theorem symbol_before_innermost {earlier inner : List Token} {word bracket : Token}
    (h : tokens.take a.place = earlier ++ word :: bracket :: inner)
    (hb : bracket.symbol = .punct .openParen) (hi : isBalanced inner = true) :
    ∃ name, word.symbol = .ident name := by
  obtain ⟨front, last, name, hcallee, hname⟩ := a.exists_name
  have htake : tokens.take a.place = a.before ++ a.callee ++ a.opening :: a.argument :=
    (congrArg (List.take a.place) a.tokens_eq).trans List.take_left
  have hbalanced := a.value.areBalanced_surface a.argument a.spells_value
  have hsplit : (earlier ++ [word]) ++ bracket :: inner =
      a.before ++ a.callee ++ a.opening :: a.argument := by
    rw [← htake, h]
    simp
  have hfront := eq_of_open_eq hb a.symbol_opening hi hbalanced hsplit
  rw [hcallee, ← List.append_assoc] at hfront
  obtain ⟨-, hword⟩ := List.append_inj' hfront rfl
  cases hword
  exact ⟨name, hname⟩

end FirstArgument

theorem AfterArgument.not_inStruct {m : Mode} (h : AfterArgument m) : m.inStruct = false := by
  cases h
  rfl

/-- Where a call may have only one argument, what was read up to the end of an argument ends
with a callee, a parenthesis and that argument. -/
theorem AfterArgument.exists_first {o : Options} (ho : o.manyArguments = false) {m : Mode}
    (h : AfterArgument m) (hw : m.IsWellFormed o) :
    ∃ (pieces : List Piece) (called value : Expr),
      m.written =
        pieces ++ called.surface ++ (Piece.mark .openParen :: value.surface) ∧
      called.isCallee = true ∧ value.isWellFormed o = true := by
  cases h with
  | @value host frames outer p e v callee opened args hp hg =>
    obtain ⟨hframes, hpoint, -⟩ := hw
    obtain ⟨he, hb⟩ := Point.isWellFormed_value hpoint hp
    obtain ⟨hv, hinner⟩ := hframes.group he (Expr.fitsIn_of_not_isBinary hb) hg
    cases hinner with
    | call hc hm ha houter =>
      cases show args = [] by simpa [ho] using hm
      refine ⟨host.written ++ writtenFrames outer, callee, v, ?_, hc, hv⟩
      rw [Mode.written, Point.written_eq_surface hp, written_of_group hg]
      simp

/-- Where a call may have only one argument, a report about several stands at the comma after a
first one. -/
theorem exists_firstArgument {o : Options} {tokens : List Token} {cursor : Nat} {d : Diagnostic}
    (h : (Parser.mk tokens (o.calling false) cursor).parse.1 = .error d)
    (hk : d.kind = .unsupportedArguments) :
    ∃ a : FirstArgument (o.calling false) tokens,
      a.place = (Parser.mk tokens (o.calling false) cursor).parse.2.cursor := by
  obtain ⟨skipped, taken, after, comma, s, htokens, hcursor, hs, -, hcomma, hmode⟩ :=
    (argumentsExtension o).exists_parts h hk
  have hs : State.start.takeAll? (o.calling false) taken = some s := hs
  have hw : s.mode.IsWellFormed (o.calling false) := State.isWellFormed_of_takeAll? hs trivial
  obtain ⟨pieces, called, value, hwritten, hcalled, hvalue⟩ := hmode.exists_first rfl hw
  obtain ⟨before, current, rfl, hspells⟩ := exists_spells_mode hs hmode.not_inStruct
  rw [hwritten] at hspells
  obtain ⟨_, rest, rfl, hspells, hlist⟩ := spells_append.mp hspells
  obtain ⟨more, callee, rfl, -, hcallee⟩ := spells_append.mp hspells
  obtain ⟨opening, argument, rfl, hopening, hargument⟩ := spells_cons.mp hlist
  refine ⟨{
    before := skipped ++ before ++ more
    callee, opening, argument, comma, after, called, value
    tokens_eq := ?_
    isCallee_called := hcalled
    spells_called := hcallee
    symbol_opening := by simpa using hopening
    isWellFormed_value := hvalue
    spells_value := hargument
    symbol_comma := hcomma }, ?_⟩
  · rw [htokens]
    simp only [List.append_assoc]
  · rw [hcursor, FirstArgument.place]
    simp only [List.length_append, Nat.add_assoc]

/-- Whether calls may have several arguments or only one decides what becomes of calls with
several arguments and nothing else.
What is read where they have at most one is read in the same way where they may have several.
What is refused is refused alike, unless it is the comma after the first argument of a call,
whose parenthesis is then the innermost open one and no vector's. -/
theorem parse_calling_arguments (tokens : List Token) (o : Options) (cursor : Nat) :
    let one := (Parser.mk tokens (o.calling false) cursor).parse
    let many := (Parser.mk tokens (o.calling true) cursor).parse
    (∀ program, one.1 = .ok program →
        many.1 = .ok program ∧ many.2.cursor = one.2.cursor) ∧
      (∀ d, one.1 = .error d → d.kind ≠ .unsupportedArguments →
        many.1 = .error d ∧ many.2.cursor = one.2.cursor) ∧
      (∀ program, many.1 = .ok program → haveFewArguments program = true →
        one.1 = .ok program) ∧
      (∀ d, many.1 = .error d → d.kind ≠ .unsupportedArguments) ∧
      ∀ d, one.1 = .error d → d.kind = .unsupportedArguments →
        ∃ a : FirstArgument (o.calling false) tokens, a.place = one.2.cursor ∧
          ∀ (earlier inner : List Token) (word bracket : Token),
            tokens.take one.2.cursor = earlier ++ word :: bracket :: inner →
            bracket.symbol = .punct .openParen → isBalanced inner = true →
            ∀ k, word.symbol ≠ .keyword k := by
  obtain ⟨hok, herror, hplain, hkind⟩ := (argumentsExtension o).parse_conservative tokens cursor
  have hcut (program : List Stmt) : program.map (argumentsExtension o).cut = program :=
    program.map_id
  refine ⟨?_, herror, ?_, hkind, ?_⟩
  · intro program hone
    obtain ⟨program', hmany, hcursor, -, rfl⟩ := hok program hone
    rw [hcut]
    exact ⟨hmany, hcursor⟩
  · intro program hmany hfew
    rw [haveFewArguments_eq_all, List.all_eq_true] at hfew
    rw [hplain program hmany hfew, hcut]
  · intro d hd hk
    obtain ⟨a, ha⟩ := exists_firstArgument hd hk
    refine ⟨a, ha, ?_⟩
    intro earlier inner word bracket htake hb hi k hword
    obtain ⟨name, hname⟩ := a.symbol_before_innermost (ha ▸ htake) hb hi
    rw [hname] at hword
    cases hword

/-- The tokens of a call whose argument is a vector with two components. -/
def vectorCallTokens : List Token :=
  [.ident [102], .punct .openParen, .keyword .vec3, .punct .openParen, .ident [97], .punct .comma,
    .ident [98], .punct .closeParen, .punct .closeParen, .punct .semicolon].map Symbol.token

/-- The tokens of a call with a second argument after such a vector. -/
def secondArgumentTokens : List Token :=
  vectorCallTokens.take 8 ++ [.punct .comma, .ident [99], .punct .closeParen,
    .punct .semicolon].map Symbol.token

theorem parse_calling_arguments_vector :
    (∃ program, (Parser.mk vectorCallTokens ⟨false, false, false⟩ 0).parse.1 = .ok program ∧
        (Parser.mk vectorCallTokens ⟨false, true, false⟩ 0).parse.1 = .ok program) ∧
      ∃ d, (Parser.mk secondArgumentTokens ⟨false, false, false⟩ 0).parse.1 = .error d ∧
        d.kind = .unsupportedArguments ∧
        ∃ a : FirstArgument ⟨false, false, false⟩ secondArgumentTokens, a.place = 8 := by
  obtain ⟨hok, -, -, -, -⟩ := parse_calling_arguments vectorCallTokens {} 0
  obtain ⟨-, -, -, -, hfirst⟩ := parse_calling_arguments secondArgumentTokens {} 0
  constructor
  · exact ⟨_, rfl, (hok _ rfl).1⟩
  · obtain ⟨a, ha, -⟩ := hfirst _ rfl rfl
    exact ⟨_, rfl, rfl, a, ha⟩

end ShaderFront
