import ShaderFront.Proofs.Run
import ShaderFront.Proofs.Step
import ShaderFront.Proofs.Surface

/-!
# Nothing read is lost

Every token that is taken is somewhere in the unfinished program, and in the order in
which it was taken: an unfinished program has a written form like a finished one, and
each token adds one place to its end. So a program that keeps all struct members is
written with the very tokens that it was read from.
-/

namespace ShaderFront

/-! ## The written form of what is unfinished -/

/-- Arguments that were read, newest first, each with the comma after it. -/
@[simp] def writtenArgs : List Expr → List Piece
  | [] => []
  | e :: es => writtenArgs es ++ (e.surface ++ [Piece.mark .comma])

/-- What was read of a part that waits. -/
@[simp] def Frame.written : Frame → List Piece
  | .unary op _ => [Piece.op op]
  | .binary left op => left.surface ++ [Piece.op op]
  | .paren _ => [Piece.mark .openParen]
  | .call callee _ args => callee.surface ++ Piece.mark .openParen :: writtenArgs args
  | .construct type _ args => Piece.word type :: Piece.mark .openParen :: writtenArgs args

/-- What was read of the parts that wait, innermost first. -/
@[simp] def writtenFrames : List Frame → List Piece
  | [] => []
  | f :: fs => writtenFrames fs ++ f.written

/-- What was read of an operand. -/
@[simp] def Point.written : Point → List Piece
  | .operand | .firstArgument => []
  | .name n _ => [Piece.ident n]
  | .field container _ => [Piece.ident container, Piece.mark .colon]
  | .member container f _ => [Piece.ident container, Piece.mark .colon, Piece.ident f]
  | .vector type _ => [Piece.word type]
  | .complete value => value.surface

/-- What was read before an expression, of the statement that it belongs to. -/
@[simp] def Host.written : Host → List Piece
  | .statement _ => []
  | .condition _ => [Piece.word .cond, Piece.mark .openParen]
  | .initial head => head.surface ++ [Piece.op .assign]

/-- What was read of an enclosing statement. -/
@[simp] def Scope.written : Scope → List Piece
  | .block _ inner => Piece.mark .openBrace :: surface inner.reverse
  | .function head _ inner =>
    head.surface ++ Piece.mark .openParen :: Piece.mark .closeParen :: Piece.mark .openBrace ::
      surface inner.reverse
  | .guard _ condition =>
    Piece.word .cond :: Piece.mark .openParen :: (condition.surface ++ [Piece.mark .closeParen])

/-- What was read of the enclosing statements, innermost first. -/
@[simp] def writtenScopes : List Scope → List Piece
  | [] => []
  | s :: ss => writtenScopes ss ++ s.written

/-- What was read of a struct. -/
def OpenStruct.written (s : OpenStruct) : List Piece :=
  Piece.word .struct :: Piece.ident s.name :: Piece.mark .openBrace ::
    s.members.reverse.flatMap Member.surface

/-- What was read of the innermost statement. -/
@[simp] def Mode.written : Mode → List Piece
  | .statement => []
  | .conditionStart _ => [Piece.word .cond]
  | .modified _ => [Piece.word .input]
  | .typed modifiers type _ => modifiers.flatMap Modifier.surface ++ [Piece.word type]
  | .declared head => head.surface
  | .parameters head => head.surface ++ [Piece.mark .openParen]
  | .functionBody head => head.surface ++ [Piece.mark .openParen, Piece.mark .closeParen]
  | .structName _ => [Piece.word .struct]
  | .structStart name _ => [Piece.word .struct, Piece.ident name]
  | .members s => s.written
  | .memberColon s name _ => s.written ++ [Piece.ident name]
  | .memberType s name _ => s.written ++ [Piece.ident name, Piece.mark .colon]
  | .memberEnd s m =>
    s.written ++ [Piece.ident m.name, Piece.mark .colon, .memberType m.type]
  | .expression host frames point => host.written ++ (writtenFrames frames ++ point.written)

/-- What was read of an unfinished program. -/
def State.written (s : State) : List Piece :=
  surface s.finished.reverse ++ (writtenScopes s.scopes ++ s.mode.written)

@[simp] theorem State.written_mk (done : List Stmt) (scopes : List Scope) (mode : Mode) :
    (⟨done, scopes, mode⟩ : State).written =
      surface done.reverse ++ (writtenScopes scopes ++ mode.written) := rfl

/-! ## Arguments -/

/-- The last argument ends a list without a further comma. -/
@[simp] theorem surfaceArgs_reverse_append (es : List Expr) (e : Expr) :
    Expr.surfaceArgs (es.reverse ++ [e]) = writtenArgs es ++ e.surface := by
  induction es generalizing e with
  | nil => simp [Expr.surfaceArgs, Expr.surfaceMore]
  | cons f es ih =>
    have hl := ih f
    cases hr : es.reverse ++ [f] with
    | nil => simp at hr
    | cons g gs =>
      rw [hr] at hl
      rw [List.reverse_cons, hr, writtenArgs, ← List.append_assoc, ← hl]
      simp [Expr.surfaceArgs, Expr.surfaceMore_append, Expr.surfaceMore]

/-! ## Grouping -/

/-- Grouping moves parts between the frames and the operand, and no piece gets lost. -/
theorem written_group (waits : Operator → Bool) (e : Expr) (frames : List Frame) :
    writtenFrames (group waits e frames).2 ++ (group waits e frames).1.surface =
      writtenFrames frames ++ e.surface := by
  induction frames generalizing e with
  | nil => rfl
  | cons f frames ih =>
    cases f with
    | unary op start =>
      rw [group, ih]
      simp [Expr.surface]
    | binary left op =>
      rw [group]
      split
      · rfl
      · rw [ih]
        simp [Expr.surface]
    | paren start => rfl
    | call callee opened args => rfl
    | construct type start args => rfl

/-- What was read up to an operand, after grouping. -/
theorem written_of_group {waits : Operator → Bool} {e v : Expr} {frames inner : List Frame}
    (h : group waits e frames = (v, inner)) :
    writtenFrames frames ++ e.surface = writtenFrames inner ++ v.surface := by
  have hw := written_group waits e frames
  rw [h] at hw
  exact hw.symm

/-! ## Statements -/

/-- A complete statement is written after all that encloses it. -/
theorem written_addStatement (s : Stmt) (done : List Stmt) (scopes : List Scope) :
    (addStatement s done scopes).written =
      surface done.reverse ++ (writtenScopes scopes ++ s.surface) := by
  induction scopes generalizing s with
  | nil => simp [addStatement]
  | cons scope scopes ih =>
    cases scope with
    | guard start condition =>
      rw [addStatement, ih]
      simp [Stmt.surface]
    | block opened inner =>
      simp [addStatement]
    | function head opened inner =>
      simp [addStatement]

/-! ## One token -/

/-- Is the innermost frame without arguments, if it has a list for them? -/
def noArguments : List Frame → Prop
  | .call _ _ args :: _ | .construct _ _ args :: _ => args = []
  | _ => True

/-- A list of arguments that may end before its first one has none yet. -/
@[simp] def Mode.Regular : Mode → Prop
  | .expression _ frames .firstArgument => noArguments frames
  | _ => True

theorem regular_addStatement (s : Stmt) (done : List Stmt) (scopes : List Scope) :
    (addStatement s done scopes).mode.Regular := by
  rw [mode_addStatement]
  trivial

/-- The point of an operand with a value is written as that value. -/
theorem Point.written_eq_surface {p : Point} {e : Expr} (h : p.value? = some e) :
    p.written = e.surface := by
  cases p with
  | operand | firstArgument | field _ _ | vector _ _ => cases h
  | name n start =>
    cases h
    rfl
  | member container f start =>
    cases h
    rfl
  | complete value =>
    cases h
    rfl

/-- What may be called has the written form of the callee. -/
theorem Callee.written_eq_surface {p : Point} {e : Expr} (h : Callee p e) :
    p.written = e.surface := by
  cases h <;> rfl

/-- The first token of an operand is added to what was read. -/
theorem StartsOperand.written {host : Host} {frames : List Frame} {t : Token} {m : Mode}
    (h : StartsOperand host frames t m) :
    m.Regular ∧ m.written = host.written ++ (writtenFrames frames ++ [.symbol t.symbol]) := by
  cases h with
  | unary h hu => simp [Piece.op, h]
  | bool h => simp [Expr.surface, h]
  | number h => simp [Expr.surface, h]
  | string h => simp [Expr.surface, h]
  | name h => simp [Piece.ident, h]
  | paren h => simp [Piece.mark, h]
  | vector h hk => simp [Piece.word, h]

/-- A token after an operand is added to what was read. -/
theorem TakesAfter.written {o : Options} {done : List Stmt} {scopes : List Scope} {mode : Mode}
    {host : Host} {frames : List Frame} {e : Expr} {t : Token} {next : State}
    (h : TakesAfter o ⟨done, scopes, mode⟩ host frames e t next) :
    next.mode.Regular ∧ next.written = surface done.reverse ++ (writtenScopes scopes ++
      (host.written ++ (writtenFrames frames ++ (e.surface ++ [.symbol t.symbol])))) := by
  rw [← List.append_assoc (writtenFrames frames)]
  cases h with
  | operator h hl hg =>
    rw [written_of_group hg, h]
    simp [State.withMode, Piece.op]
  | statementEnd h hh hg =>
    rw [written_of_group hg, h, hh, State.complete]
    refine ⟨regular_addStatement _ _ _, ?_⟩
    simp [written_addStatement, Stmt.surface, Piece.mark]
  | declarationEnd h hh hg =>
    rw [written_of_group hg, h, hh, State.complete]
    refine ⟨regular_addStatement _ _ _, ?_⟩
    simp [written_addStatement, Stmt.surface, surfaceInit, Piece.mark]
  | conditionEnd h hh hg =>
    rw [written_of_group hg, h, hh]
    simp [State.enter, Piece.mark]
  | parenEnd h hg =>
    rw [written_of_group hg, h]
    simp [State.withMode, Expr.surface, Piece.mark]
  | callEnd h hg =>
    rw [written_of_group hg, h]
    simp [State.withMode, Expr.surface, Piece.mark]
  | constructEnd h hg =>
    rw [written_of_group hg, h]
    simp [State.withMode, Expr.surface, Piece.mark]
  | nextArgument h ho hg =>
    rw [written_of_group hg, h]
    simp [State.withMode, Piece.mark]
  | nextComponent h hg =>
    rw [written_of_group hg, h]
    simp [State.withMode, Piece.mark]

/-- The struct with a further member, if all members are kept. -/
theorem OpenStruct.written_add {o : Options} (ho : o.allMembers = true) (s : OpenStruct)
    (m : Member) : (s.add o m).written = s.written ++ m.surface := by
  simp [OpenStruct.add, ho, OpenStruct.written]

/-- The complete struct is written like the open one with a brace after it. -/
theorem OpenStruct.surface_close (s : OpenStruct) :
    s.close.surface = s.written ++ [Piece.mark .closeBrace] := by
  simp [OpenStruct.close, OpenStruct.written, Stmt.surface]

/-- Every token that is taken adds one place to what was read, and fits there. -/
theorem Takes.written {o : Options} {done : List Stmt} {scopes : List Scope} {t : Token}
    {mode : Mode} {next : State} (ho : o.allMembers = true) (hr : mode.Regular)
    (h : Takes o done scopes t mode next) :
    next.mode.Regular ∧ ∃ p : Piece, p.fits t.symbol = true ∧
      next.written = (⟨done, scopes, mode⟩ : State).written ++ [p] := by
  -- Only the type of a member is known by less than its symbol.
  have exact_place (hreg : next.mode.Regular)
      (hw : next.written = (⟨done, scopes, mode⟩ : State).written ++ [.symbol t.symbol]) :
      next.mode.Regular ∧ ∃ p : Piece, p.fits t.symbol = true ∧
        next.written = (⟨done, scopes, mode⟩ : State).written ++ [p] :=
    ⟨hreg, .symbol t.symbol, by simp, hw⟩
  cases h with
  | directive h =>
    refine exact_place (regular_addStatement _ _ _) ?_
    simp [written_addStatement, Stmt.surface, h]
  | openBlock h => exact exact_place trivial (by simp [h, Piece.mark, ShaderFront.surface])
  | closeBlock h hs =>
    refine exact_place (regular_addStatement _ _ _) ?_
    simp [written_addStatement, Stmt.surface, h, hs, Piece.mark]
  | closeFunction h hs =>
    refine exact_place (regular_addStatement _ _ _) ?_
    simp [written_addStatement, Stmt.surface, h, hs, Piece.mark]
  | cond h => exact exact_place trivial (by simp [h, Piece.word])
  | input h => exact exact_place trivial (by simp [h, Piece.word])
  | struct h => exact exact_place trivial (by simp [h, Piece.word])
  | type h hk => exact exact_place trivial (by simp [h, Piece.word])
  | start hn hm =>
    obtain ⟨hreg, hw⟩ := hm.written
    refine exact_place hreg ?_
    rw [State.written_mk, hw]
    simp
  | openCondition h => exact exact_place trivial (by simp [h, Piece.mark])
  | modifiedType h hk =>
    exact exact_place trivial (by simp [h, Piece.word, Modifier.surface])
  | declare h => exact exact_place trivial (by simp [h, Head.surface, Piece.ident])
  | initial h => exact exact_place trivial (by simp [h, Piece.op])
  | declared h =>
    refine exact_place (regular_addStatement _ _ _) ?_
    simp [written_addStatement, Stmt.surface, surfaceInit, h, Piece.mark]
  | openParameters h => exact exact_place trivial (by simp [h, Piece.mark])
  | closeParameters h => exact exact_place trivial (by simp [h, Piece.mark])
  | openFunction h => exact exact_place trivial (by simp [h, Piece.mark, ShaderFront.surface])
  | structName h => exact exact_place trivial (by simp [h, Piece.ident])
  | openStruct h => exact exact_place trivial (by simp [h, Piece.mark, OpenStruct.written])
  | closeStruct h hs =>
    refine exact_place (regular_addStatement _ _ _) ?_
    simp [written_addStatement, OpenStruct.surface_close, h, Piece.mark]
  | memberName h => exact exact_place trivial (by simp [h, Piece.ident])
  | memberColon h => exact exact_place trivial (by simp [h, Piece.mark])
  | @memberType s name type start h => exact ⟨trivial, .memberType type, by simp [h], by simp⟩
  | memberEnd h =>
    refine exact_place trivial ?_
    simp [OpenStruct.written_add ho, Member.surface, h, Piece.mark]
  | operand hp hm =>
    obtain ⟨hreg, hw⟩ := hm.written
    refine exact_place hreg ?_
    rw [State.written_mk, hw]
    rcases hp with rfl | rfl <;> simp
  | emptyCall h =>
    cases hr
    exact exact_place trivial (by simp [Expr.surface, Expr.surfaceArgs, h, Piece.mark])
  | emptyConstruct h =>
    cases hr
    exact exact_place trivial (by simp [Expr.surface, Expr.surfaceArgs, h, Piece.mark])
  | colon h => exact exact_place trivial (by simp [h, Piece.mark])
  | field h => exact exact_place trivial (by simp [h, Piece.ident])
  | openCall h hp =>
    refine exact_place rfl ?_
    rw [State.written_mk, State.written_mk, Mode.written, Mode.written, hp.written_eq_surface, h]
    simp [Piece.mark]
  | openConstruct h => exact exact_place rfl (by simp [h, Piece.mark])
  | after hp hn =>
    obtain ⟨hreg, hw⟩ := hn.written
    refine exact_place hreg ?_
    rw [hw, State.written_mk, Mode.written, Point.written_eq_surface hp]
    simp only [List.append_assoc]

/-! ## Whole programs -/

/-- A row of tokens that is taken spells what was read, from the start on. -/
theorem spells_written {o : Options} (ho : o.allMembers = true) {s next : State}
    {before ts : List Token} (hr : s.mode.Regular) (hs : Spells s.written before)
    (h : s.takeAll? o ts = some next) : Spells next.written (before ++ ts) := by
  induction ts generalizing s before with
  | nil =>
    cases h
    simpa using hs
  | cons t ts ih =>
    obtain ⟨mid, ht, hts⟩ := Option.bind_eq_some_iff.mp h
    obtain ⟨hreg, p, hp, hw⟩ := (State.takes_of_take? ht).written ho hr
    have hm : Spells mid.written (before ++ [t]) := by
      rw [hw]
      exact spells_append.mpr ⟨before, [t], rfl, hs, spells_singleton.mpr ⟨t, rfl, hp⟩⟩
    simpa using ih hreg hm hts

/-- The last tokens that were taken spell what was read of the current statement. -/
theorem exists_spells_current {o : Options} (ho : o.allMembers = true) {next : State}
    {ts : List Token} (h : State.start.takeAll? o ts = some next) :
    ∃ before current, ts = before ++ current ∧ Spells next.mode.written current := by
  have hr : State.start.mode.Regular := trivial
  have hn : Spells State.start.written [] := spells_nil.mpr rfl
  have hspells := spells_written ho hr hn h
  rw [State.written, ← List.append_assoc] at hspells
  obtain ⟨before, current, hts, -, hcurrent⟩ := spells_append.mp hspells
  exact ⟨before, current, hts, hcurrent⟩

/-- Between statements that nothing encloses, all that was read is complete. -/
theorem State.written_of_isComplete {s : State} (h : s.isComplete = true) :
    s.written = surface s.finished.reverse := by
  obtain ⟨done, scopes, mode⟩ := s
  simp only [isComplete, Bool.and_eq_true, List.isEmpty_iff] at h
  obtain ⟨rfl, hm⟩ := h
  cases mode with
  | statement => simp
  | _ => cases hm

/-- A program that keeps all struct members is written with the tokens that it was read
from: those before the first end token, each once and in order. -/
theorem parse_lossless (o : Options) (ho : o.allMembers = true) (ts : List Token)
    (program : List Stmt) (h : (Parser.fresh o ts).parse.1 = .ok program) :
    Spells (surface program) (beforeEnd ts) ∧
      (Parser.fresh o ts).parse.2.cursor = (beforeEnd ts).length := by
  obtain ⟨next, ht, hc, rfl⟩ := takeAll?_of_parse h
  constructor
  · have hr : State.start.mode.Regular := trivial
    have hn : Spells State.start.written [] := spells_nil.mpr rfl
    rw [← State.written_of_isComplete hc]
    exact spells_written ho hr hn ht
  · rw [parse_of_takeAll? ht hc]

/-- A struct with two members, of which one has a type word and one a name for its type. -/
def pairStruct : Stmt :=
  .struct [] [83] [⟨[97], utf8 "float", .nowhere⟩, ⟨[98], [83], .nowhere⟩] .nowhere

/-- The tokens of that struct, with a brace after the end. -/
def pairTokens : List Token :=
  [.keyword .struct, .ident [83], .punct .openBrace, .ident [97], .punct .colon,
    .keyword .float, .punct .semicolon, .ident [98], .punct .colon, .ident [83],
    .punct .semicolon, .punct .closeBrace, .eof, .punct .closeBrace].map Symbol.token

theorem parse_lossless_pairStruct :
    (Parser.fresh ⟨true, false, false⟩ pairTokens).parse.1 = .ok [pairStruct] ∧
      Spells (surface [pairStruct]) (beforeEnd pairTokens) ∧
      (Parser.fresh ⟨true, false, false⟩ pairTokens).parse.2.cursor = 12 := by
  have h : (Parser.fresh ⟨true, false, false⟩ pairTokens).parse.1 = .ok [pairStruct] := rfl
  exact ⟨h, parse_lossless ⟨true, false, false⟩ rfl pairTokens [pairStruct] h⟩

end ShaderFront
