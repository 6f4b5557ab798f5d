import ShaderFront.Proofs.Run
import ShaderFront.Proofs.Shape
import Mathlib.Data.List.Forall2

/-!
# Moving tokens

The grammar looks at the symbols of tokens and never at where they stand: it only copies
positions into the tree, and one of them into a message. If all tokens of a row are moved
and their symbols are kept, then the tree, the refused token and the message are moved
with them, and nothing else changes.
-/

namespace ShaderFront

/-- A way to move positions, which leaves the one that stands for none. -/
structure Relocation where
  /-- Where a position is moved to. -/
  move : Position → Position
  /-- No position stays none. -/
  move_none : move .none = .none

attribute [simp] Relocation.move_none

/-! ## Moving trees -/

/-- The stretch of text with both ends moved. -/
def Span.moved (r : Relocation) (s : Span) : Span := ⟨r.move s.start, r.move s.stop⟩

@[simp] theorem Span.moved_startingAt (r : Relocation) (p : Position) :
    (Span.startingAt p).moved r = .startingAt (r.move p) := by
  simp [Span.moved, Span.startingAt]

@[simp] theorem Span.moved_nowhere (r : Relocation) : Span.nowhere.moved r = .nowhere := by
  simp [Span.moved, Span.nowhere]

mutual

/-- The expression with all its nodes moved. -/
def Expr.moved (r : Relocation) : Expr → Expr
  | .hole => .hole
  | .binary op left right span => .binary op (left.moved r) (right.moved r) (span.moved r)
  | .unary op operand span => .unary op (operand.moved r) (span.moved r)
  | .bool value span => .bool value (span.moved r)
  | .number value span => .number value (span.moved r)
  | .string value span => .string value (span.moved r)
  | .ident name span => .ident name (span.moved r)
  | .paren inner span => .paren (inner.moved r) (span.moved r)
  | .member container field span => .member container field (span.moved r)
  | .call callee args span => .call (callee.moved r) (Expr.movedAll r args) (span.moved r)
  | .construct type args span => .construct type (Expr.movedAll r args) (span.moved r)

/-- The expressions with all their nodes moved. -/
def Expr.movedAll (r : Relocation) : List Expr → List Expr
  | [] => []
  | e :: es => e.moved r :: Expr.movedAll r es

end

/-- The head of a declaration, moved. -/
def Head.moved (r : Relocation) (h : Head) : Head := { h with span := h.span.moved r }

/-- The member, moved. -/
def Member.moved (r : Relocation) (m : Member) : Member := { m with span := m.span.moved r }

mutual

/-- The statement with all its nodes moved. -/
def Stmt.moved (r : Relocation) : Stmt → Stmt
  | .hole => .hole
  | .expr value span => .expr (value.moved r) (span.moved r)
  | .cond condition body span => .cond (condition.moved r) (body.moved r) (span.moved r)
  | .block body span => .block (moved r body) (span.moved r)
  | .decl head init => .decl (head.moved r) (init.map (Expr.moved r))
  | .directive name params span => .directive name (Expr.movedAll r params) (span.moved r)
  | .function head params body span =>
    .function (head.moved r) params (moved r body) (span.moved r)
  | .struct attr name members span =>
    .struct attr name (members.map (Member.moved r)) (span.moved r)

/-- The program with all its nodes moved. -/
def moved (r : Relocation) : List Stmt → List Stmt
  | [] => []
  | s :: ss => s.moved r :: moved r ss

end

@[simp] theorem Expr.movedAll_eq_map (r : Relocation) (es : List Expr) :
    movedAll r es = es.map (Expr.moved r) := by
  induction es with
  | nil => rfl
  | cons e es ih => rw [movedAll, ih, List.map_cons]

@[simp] theorem moved_eq_map (r : Relocation) (ss : List Stmt) :
    moved r ss = ss.map (Stmt.moved r) := by
  induction ss with
  | nil => rfl
  | cons s ss ih => rw [moved, ih, List.map_cons]

@[simp] theorem Expr.span_moved (r : Relocation) (e : Expr) :
    (e.moved r).span = e.span.moved r := by
  cases e <;> simp [Expr.moved, Expr.span]

mutual

/-- An expression that is moved keeps its shape. -/
theorem Expr.bare_moved (r : Relocation) : ∀ e : Expr, (e.moved r).bare = e.bare
  | .hole => rfl
  | .binary _ left right _ => by simp only [moved, bare, bare_moved r left, bare_moved r right]
  | .unary _ operand _ => by simp only [moved, bare, bare_moved r operand]
  | .bool _ _ | .number _ _ | .string _ _ | .ident _ _ | .member _ _ _ => rfl
  | .paren inner _ => by simp only [moved, bare, bare_moved r inner]
  | .call callee args _ => by simp only [moved, bare, bare_moved r callee, bareAll_movedAll r args]
  | .construct _ args _ => by simp only [moved, bare, bareAll_movedAll r args]

/-- So do all of a list. -/
theorem Expr.bareAll_movedAll (r : Relocation) :
    ∀ es : List Expr, bareAll (movedAll r es) = bareAll es
  | [] => rfl
  | e :: es => by simp only [movedAll, bareAll, bare_moved r e, bareAll_movedAll r es]

end

mutual

/-- A statement that is moved keeps its shape. -/
theorem Stmt.bare_moved (r : Relocation) : ∀ s : Stmt, (s.moved r).bare = s.bare
  | .hole => rfl
  | .expr value _ => by simp only [Stmt.moved, Stmt.bare, value.bare_moved r]
  | .cond condition body _ => by
    simp only [Stmt.moved, Stmt.bare, condition.bare_moved r, body.bare_moved r]
  | .block body _ => by simp only [Stmt.moved, Stmt.bare, ShaderFront.bare_moved r body]
  | .decl head init => by
    cases init with
    | none => rfl
    | some e =>
      simp only [Stmt.moved, Stmt.bare, Option.map_some, e.bare_moved r]
      rfl
  | .directive _ params _ => by
    simp only [Stmt.moved, Stmt.bare, Expr.bareAll_movedAll r params]
  | .function _ _ body _ => by
    simp only [Stmt.moved, Stmt.bare, ShaderFront.bare_moved r body]
    rfl
  | .struct _ _ members _ => by
    simp only [Stmt.moved, Stmt.bare, List.map_map]
    rfl

/-- A program that is moved keeps its shape. -/
theorem bare_moved (r : Relocation) : ∀ ss : List Stmt, bare (moved r ss) = bare ss
  | [] => rfl
  | s :: ss => by simp only [moved, bare, s.bare_moved r, ShaderFront.bare_moved r ss]

end

/-! ## Moving unfinished programs -/

/-- The enclosing statement, moved. -/
def Scope.moved (r : Relocation) : Scope → Scope
  | .block opened inner => .block (r.move opened) (inner.map (Stmt.moved r))
  | .function head opened inner =>
    .function (head.moved r) (r.move opened) (inner.map (Stmt.moved r))
  | .guard start condition => .guard (r.move start) (condition.moved r)

/-- What the current expression is for, moved. -/
def Host.moved (r : Relocation) : Host → Host
  | .statement start => .statement (r.move start)
  | .condition start => .condition (r.move start)
  | .initial head => .initial (head.moved r)

/-- The part of an expression that waits, moved. -/
def Frame.moved (r : Relocation) : Frame → Frame
  | .unary op start => .unary op (r.move start)
  | .binary left op => .binary (left.moved r) op
  | .paren start => .paren (r.move start)
  | .call callee opened args =>
    .call (callee.moved r) (r.move opened) (args.map (Expr.moved r))
  | .construct type start args => .construct type (r.move start) (args.map (Expr.moved r))

/-- The operand that is being read, moved. -/
def Point.moved (r : Relocation) : Point → Point
  | .operand => .operand
  | .firstArgument => .firstArgument
  | .name n start => .name n (r.move start)
  | .field container start => .field container (r.move start)
  | .member container f start => .member container f (r.move start)
  | .vector type start => .vector type (r.move start)
  | .complete value => .complete (value.moved r)

/-- The open struct, moved. -/
def OpenStruct.moved (r : Relocation) (s : OpenStruct) : OpenStruct :=
  ⟨s.name, r.move s.start, s.members.map (Member.moved r)⟩

/-- The current statement, moved. -/
def Mode.moved (r : Relocation) : Mode → Mode
  | .statement => .statement
  | .conditionStart start => .conditionStart (r.move start)
  | .modified start => .modified (r.move start)
  | .typed modifiers type start => .typed modifiers type (r.move start)
  | .declared head => .declared (head.moved r)
  | .parameters head => .parameters (head.moved r)
  | .functionBody head => .functionBody (head.moved r)
  | .structName start => .structName (r.move start)
  | .structStart name start => .structStart name (r.move start)
  | .members s => .members (s.moved r)
  | .memberColon s name start => .memberColon (s.moved r) name (r.move start)
  | .memberType s name start => .memberType (s.moved r) name (r.move start)
  | .memberEnd s m => .memberEnd (s.moved r) (m.moved r)
  | .expression host frames point =>
    .expression (host.moved r) (frames.map (Frame.moved r)) (point.moved r)

/-- The unfinished program, moved. -/
def State.moved (r : Relocation) (s : State) : State :=
  ⟨s.finished.map (Stmt.moved r), s.scopes.map (Scope.moved r), s.mode.moved r⟩

/-- A token with the same symbol, in the place that the relocation gives. -/
structure Moves (r : Relocation) (t t' : Token) : Prop where
  /-- The symbol is kept. -/
  symbol : t'.symbol = t.symbol
  /-- The position is moved. -/
  pos : t'.pos = r.move t.pos

variable {r : Relocation} {t t' : Token}

theorem Moves.span (h : Moves r t t') : t'.span = t.span.moved r := by
  simp [Token.span, h.pos]

/-! ## Taking moved tokens -/

/-- A complete statement is added where it was. -/
theorem addStatement_moved (s : Stmt) (done : List Stmt) (scopes : List Scope) :
    addStatement (s.moved r) (done.map (Stmt.moved r)) (scopes.map (Scope.moved r)) =
      (addStatement s done scopes).moved r := by
  induction scopes generalizing s with
  | nil => rfl
  | cons scope scopes ih =>
    cases scope with
    | guard start condition =>
      simp only [List.map_cons, Scope.moved, addStatement, ← ih, Stmt.moved,
        Span.moved_startingAt]
    | block opened inner => rfl
    | function head opened inner => rfl

theorem State.complete_moved (state : State) (s : Stmt) :
    (state.moved r).complete (s.moved r) = (state.complete s).moved r :=
  addStatement_moved s state.finished state.scopes

/-- Operators group as they did. -/
theorem group_moved (waits : Operator → Bool) (e : Expr) (frames : List Frame) :
    group waits (e.moved r) (frames.map (Frame.moved r)) =
      ((group waits e frames).1.moved r, (group waits e frames).2.map (Frame.moved r)) := by
  induction frames generalizing e with
  | nil => rfl
  | cons frame frames ih =>
    cases frame with
    | unary op start =>
      simp only [List.map_cons, Frame.moved, group, ← ih, Expr.moved, Span.moved_startingAt]
    | binary left op =>
      simp only [List.map_cons, Frame.moved, group]
      split
      · rfl
      · simp only [← ih, Expr.moved, Expr.span_moved]
    | paren start => rfl
    | call callee opened args => rfl
    | construct type start args => rfl

theorem takeOperand?_moved (h : Moves r t t') (host : Host) (frames : List Frame) :
    takeOperand? (host.moved r) (frames.map (Frame.moved r)) t' =
      (takeOperand? host frames t).map (Mode.moved r) := by
  unfold takeOperand?
  rw [h.symbol, h.span, h.pos]
  split
  · split <;> rfl
  · rfl
  · rfl
  · rfl
  · rfl
  · rfl
  · split <;> rfl
  · rfl

theorem closeBracket?_moved (host : Host) (last : Option Expr) (frames : List Frame) :
    closeBracket? (host.moved r) (last.map (Expr.moved r)) (frames.map (Frame.moved r)) =
      (closeBracket? host last frames).map (Mode.moved r) := by
  cases frames with
  | nil => rfl
  | cons frame frames =>
    cases frame with
    | unary op start => rfl
    | binary left op => rfl
    | paren start =>
      cases last <;> simp [closeBracket?, Frame.moved, Mode.moved, Point.moved, Expr.moved]
    | call callee opened args =>
      cases last <;> simp [closeBracket?, Frame.moved, Mode.moved, Point.moved, Expr.moved]
    | construct type start args =>
      cases last <;> simp [closeBracket?, Frame.moved, Mode.moved, Point.moved, Expr.moved]

theorem nextArgument?_moved (o : Options) (host : Host) (e : Expr) (frames : List Frame) :
    nextArgument? o (host.moved r) (e.moved r) (frames.map (Frame.moved r)) =
      (nextArgument? o host e frames).map (Mode.moved r) := by
  cases frames with
  | nil => rfl
  | cons frame frames =>
    cases frame with
    | call callee opened args =>
      simp only [List.map_cons, Frame.moved, nextArgument?]
      split <;> rfl
    | _ => rfl

theorem endExpression?_moved (state : State) (host : Host) (e : Expr) (s : Symbol) :
    endExpression? (state.moved r) (host.moved r) (e.moved r) s =
      (endExpression? state host e s).map (State.moved r) := by
  cases host with
  | statement start =>
    by_cases hs : s = .punct .semicolon
    · subst hs
      simp [endExpression?, Host.moved, ← State.complete_moved, Stmt.moved]
    · simp [endExpression?, Host.moved, hs]
  | condition start =>
    by_cases hs : s = .punct .closeParen
    · subst hs
      rfl
    · simp [endExpression?, Host.moved, hs]
  | initial head =>
    by_cases hs : s = .punct .semicolon
    · subst hs
      simp [endExpression?, Host.moved, ← State.complete_moved, Stmt.moved]
    · simp [endExpression?, Host.moved, hs]

/-- Modes after which the program goes on are moved with it. -/
theorem map_withMode_moved (state : State) (m : Option Mode) :
    (m.map (Mode.moved r)).map (state.moved r).withMode =
      (m.map state.withMode).map (State.moved r) := by
  cases m <;> rfl

theorem takeAfter?_moved (h : Moves r t t') (o : Options) (state : State) (host : Host)
    (frames : List Frame) (e : Expr) :
    takeAfter? o (state.moved r) (host.moved r) (frames.map (Frame.moved r)) (e.moved r) t' =
      (takeAfter? o state host frames e t).map (State.moved r) := by
  unfold takeAfter? groupAll
  rw [h.symbol]
  simp only [group_moved]
  split
  · split <;> rfl
  · obtain ⟨v, outer⟩ := group (fun _ => false) e frames
    cases outer with
    | nil => exact endExpression?_moved state host v t.symbol
    | cons frame outer =>
      have hclose := closeBracket?_moved (r := r) host (some v) (frame :: outer)
      have hnext := nextArgument?_moved (r := r) o host v (frame :: outer)
      simp only [List.map_cons, Option.map_some] at hclose hnext ⊢
      split
      · rw [hclose, map_withMode_moved]
      · rw [hnext, map_withMode_moved]
      · rfl

theorem State.onMark?_moved (h : Moves r t t') (state : State) (mark : Punct) (m : Mode) :
    (state.moved r).onMark? t' mark (m.moved r) = (state.onMark? t mark m).map (State.moved r) := by
  unfold State.onMark?
  rw [h.symbol]
  split <;> rfl

theorem takeAfterCallee?_moved (h : Moves r t t') (o : Options) (state : State) (host : Host)
    (frames : List Frame) (callee : Expr) :
    takeAfterCallee? o (state.moved r) (host.moved r) (frames.map (Frame.moved r))
        (callee.moved r) t' =
      (takeAfterCallee? o state host frames callee t).map (State.moved r) := by
  unfold takeAfterCallee?
  rw [h.symbol, h.pos, takeAfter?_moved h]
  split <;> rfl

theorem takeInExpression?_moved (h : Moves r t t') (o : Options) (state : State) (host : Host)
    (frames : List Frame) (point : Point) :
    takeInExpression? o (state.moved r) (host.moved r) (frames.map (Frame.moved r))
        (point.moved r) t' =
      (takeInExpression? o state host frames point t).map (State.moved r) := by
  have hoperand : (takeOperand? (host.moved r) (frames.map (Frame.moved r)) t').map
        (state.moved r).withMode =
      ((takeOperand? host frames t).map state.withMode).map (State.moved r) := by
    rw [takeOperand?_moved h, map_withMode_moved]
  cases point with
  | operand => exact hoperand
  | firstArgument =>
    have hclose := closeBracket?_moved (r := r) host none frames
    simp only [takeInExpression?, Point.moved, h.symbol, hoperand]
    split
    · rw [← map_withMode_moved, ← hclose]
      rfl
    · rfl
  | name n start =>
    have hcallee := takeAfterCallee?_moved h o state host frames (.ident n (.startingAt start))
    simp only [Expr.moved, Span.moved_startingAt] at hcallee
    simp only [takeInExpression?, Point.moved, h.symbol, hcallee]
    split <;> rfl
  | field container start =>
    simp only [takeInExpression?, Point.moved, h.symbol, Option.map_map]
    rfl
  | member container f start =>
    have hcallee :=
      takeAfterCallee?_moved h o state host frames (.member container f (.startingAt start))
    simpa only [takeInExpression?, Point.moved, Expr.moved, Span.moved_startingAt] using hcallee
  | vector type start =>
    exact State.onMark?_moved h state .openParen
      (.expression host (.construct type start [] :: frames) .firstArgument)
  | complete e => exact takeAfter?_moved h o state host frames e

theorem closeBlock?_moved (state : State) :
    closeBlock? (state.moved r) = (closeBlock? state).map (State.moved r) := by
  obtain ⟨done, scopes, mode⟩ := state
  cases scopes with
  | nil => rfl
  | cons scope scopes =>
    cases scope with
    | guard start condition => rfl
    | block opened inner =>
      have hadd :=
        addStatement_moved (r := r) (.block inner.reverse (.startingAt opened)) done scopes
      simp only [Stmt.moved, moved_eq_map, List.map_reverse, Span.moved_startingAt] at hadd
      exact congrArg some hadd
    | function head opened inner =>
      have hadd := addStatement_moved (r := r)
        (.function head [] inner.reverse (.startingAt opened)) done scopes
      simp only [Stmt.moved, moved_eq_map, List.map_reverse, Span.moved_startingAt] at hadd
      exact congrArg some hadd

theorem takeStatement?_moved (h : Moves r t t') (state : State) :
    takeStatement? (state.moved r) t' = (takeStatement? state t).map (State.moved r) := by
  have hoperand := takeOperand?_moved h (.statement t.pos) []
  unfold takeStatement?
  rw [h.symbol, h.span, h.pos]
  split
  · simp [← State.complete_moved, Stmt.moved]
  · rfl
  · exact closeBlock?_moved state
  · rfl
  · rfl
  · rfl
  · split <;> rfl
  · rw [← map_withMode_moved, ← hoperand]
    rfl

theorem takeAfterName?_moved (h : Moves r t t') (state : State) (head : Head) :
    takeAfterName? (state.moved r) (head.moved r) t' =
      (takeAfterName? state head t).map (State.moved r) := by
  unfold takeAfterName?
  rw [h.symbol]
  split
  · split <;> rfl
  · simp [← State.complete_moved, Stmt.moved]
  · rfl
  · rfl

theorem OpenStruct.add_moved (o : Options) (s : OpenStruct) (m : Member) :
    (s.moved r).add o (m.moved r) = (s.add o m).moved r := by
  simp only [OpenStruct.add, OpenStruct.moved, List.isEmpty_map]
  split <;> rfl

theorem OpenStruct.close_moved (s : OpenStruct) : (s.moved r).close = s.close.moved r := by
  simp [OpenStruct.close, OpenStruct.moved, Stmt.moved]

theorem takeMember?_moved (h : Moves r t t') (o : Options) (state : State) (s : OpenStruct) :
    takeMember? o (state.moved r) (s.moved r) t' =
      (takeMember? o state s t).map (State.moved r) := by
  unfold takeMember?
  rw [h.symbol, h.pos, OpenStruct.close_moved, State.complete_moved]
  simp only [OpenStruct.moved, List.isEmpty_map]
  split
  · split <;> rfl
  · rw [Option.map_map]
    rfl

/-- A moved token is taken by the moved program if the token is taken by the program, and
the results differ by the same move. -/
theorem State.take?_moved (h : Moves r t t') (o : Options) (s : State) :
    (s.moved r).take? o t' = (s.take? o t).map (State.moved r) := by
  obtain ⟨done, scopes, mode⟩ := s
  cases mode with
  | statement => exact takeStatement?_moved h _
  | conditionStart start =>
    exact State.onMark?_moved h _ .openParen (.expression (.condition start) [] .operand)
  | modified start =>
    simp only [State.take?, State.moved, Mode.moved, h.symbol, Option.map_map]
    rfl
  | typed modifiers type start =>
    simp only [State.take?, State.moved, Mode.moved, h.symbol]
    cases t.symbol.name? with
    | none => rfl
    | some name => simp [State.withMode, State.moved, Mode.moved, Head.moved]
  | declared head => exact takeAfterName?_moved h _ head
  | parameters head => exact State.onMark?_moved h _ .closeParen (.functionBody head)
  | functionBody head =>
    simp only [State.take?, State.moved, Mode.moved, h.symbol, h.pos]
    split <;> rfl
  | structName start =>
    simp only [State.take?, State.moved, Mode.moved, h.symbol, Option.map_map]
    rfl
  | structStart name start =>
    exact State.onMark?_moved h _ .openBrace (.members ⟨name, start, []⟩)
  | members s => exact takeMember?_moved h o _ s
  | memberColon s name start =>
    exact State.onMark?_moved h _ .colon (.memberType s name start)
  | memberType s name start =>
    simp only [State.take?, State.moved, Mode.moved, h.symbol]
    cases memberTypeName? t.symbol with
    | none => rfl
    | some type => simp [State.withMode, State.moved, Mode.moved, Member.moved]
  | memberEnd s m =>
    have hmark := State.onMark?_moved h ⟨done, scopes, .memberEnd s m⟩ .semicolon
      (.members (s.add o m))
    simp only [Mode.moved, ← OpenStruct.add_moved] at hmark
    exact hmark
  | expression host frames point => exact takeInExpression?_moved h o _ host frames point

/-! ## Refusing moved tokens -/

/-- The cause of a refusal, moved. -/
def Cause.moved (r : Relocation) : Cause → Cause
  | .severalArguments opened => .severalArguments (r.move opened)
  | c => c

theorem Cause.kind_moved (c : Cause) : (c.moved r).kind = c.kind := by
  cases c <;> rfl

/-- Only one kind of message shows a position. -/
theorem Cause.moved_eq_self {c : Cause} (h : c.kind ≠ .unsupportedArguments) : c.moved r = c := by
  cases c with
  | severalArguments opened => exact absurd rfl h
  | _ => rfl

theorem refusalAfter_moved (host : Host) (got : Symbol) (frames : List Frame) :
    refusalAfter (host.moved r) got (frames.map (Frame.moved r)) =
      (refusalAfter host got frames).moved r := by
  induction frames with
  | nil => cases host <;> rfl
  | cons frame frames ih =>
    cases frame with
    | unary op start => exact ih
    | binary left op => exact ih
    | paren start => rfl
    | call callee opened args =>
      simp only [List.map_cons, Frame.moved, refusalAfter]
      split <;> rfl
    | construct type start args => rfl

/-- A moved program refuses a symbol for the same reason. -/
theorem State.refusal_moved (s : State) (got : Symbol) :
    (s.moved r).refusal got = (s.refusal got).moved r := by
  obtain ⟨done, scopes, mode⟩ := s
  cases mode with
  | statement =>
    cases scopes with
    | nil => rfl
    | cons scope scopes =>
      simp only [State.refusal, State.moved, Mode.moved, List.map_cons]
      cases scope with
      | guard start condition => rfl
      | _ =>
        simp only [Scope.moved, refusalAtStatement]
        split <;> rfl
  | members s =>
    simp only [State.refusal, State.moved, Mode.moved, refusalAtMember]
    split <;> rfl
  | expression host frames point =>
    cases point with
    | name n start => exact refusalAfter_moved host got frames
    | member container f start => exact refusalAfter_moved host got frames
    | complete e => exact refusalAfter_moved host got frames
    | _ => rfl
  | _ => rfl

/-- A moved program is complete if the program is. -/
theorem State.isComplete_moved (s : State) : (s.moved r).isComplete = s.isComplete := by
  obtain ⟨done, scopes, mode⟩ := s
  cases scopes <;> cases mode <;> rfl

/-! ## Reading moved rows -/

/-- The refused token, moved. -/
def Fault.moved (r : Relocation) (f : Fault) : Fault := ⟨f.cause.moved r, r.move f.pos⟩

/-- The outcome of an attempt to read a program, moved. -/
def Outcome.moved (r : Relocation) (x : Outcome) : Outcome where
  taken := x.taken
  result := match x.result with
    | .ok program => .ok (ShaderFront.moved r program)
    | .error fault => .error (fault.moved r)

theorem State.finish_moved (s : State) (p : Position) :
    (s.moved r).finish (r.move p) = (s.finish p).moved r := by
  unfold State.finish Outcome.moved
  rw [State.isComplete_moved, State.refusal_moved]
  by_cases hc : s.isComplete = true
  · simp [hc, State.moved]
  · simp [hc, Fault.moved]

/-- Reading a moved row into a moved program gives the same outcome, moved. -/
theorem State.run_moved {ts ts' : List Token} (h : List.Forall₂ (Moves r) ts ts') (o : Options)
    (last : Position) (s : State) :
    (s.moved r).run o (r.move last) ts' = (s.run o last ts).moved r := by
  induction h generalizing s with
  | nil => exact s.finish_moved last
  | @cons t t' ts ts' ht hts ih =>
    unfold State.run
    rw [ht.symbol, ht.pos, State.finish_moved, State.take?_moved ht, State.refusal_moved]
    split
    · rfl
    · cases hn : s.take? o t with
      | none => rfl
      | some next =>
        simp only [Option.map_some, ih]
        rfl

theorem lastPosition_moves {ts ts' : List Token} (h : List.Forall₂ (Moves r) ts ts') :
    lastPosition ts' = r.move (lastPosition ts) := by
  induction h with
  | nil => exact r.move_none.symm
  | @cons t t' ts ts' ht hts ih =>
    cases hts with
    | nil => exact ht.pos
    | @cons u u' us us' hu hus =>
      simp only [lastPosition, List.getLast?_cons_cons] at ih ⊢
      exact ih

end ShaderFront
