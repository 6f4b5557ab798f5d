import Mathlib.Data.List.Forall2
import ShaderFront.Grammar.Parser

/-!
# Rows of assignments

Whether assignments group to the left or to the right decides how a row of them nests, and
nothing else. Both ways of reading take the same tokens, refuse the same token for the same
reason, and make programs that differ only in the nesting of such rows.

The two readings are followed side by side. What waits for its right operand in a row of
assignments is a single frame where they group to the left, with the row so far as its left
operand, and a frame for each operand where they group to the right.
-/

namespace ShaderFront

/-! ## Programs that differ in rows of assignments -/

/-- A row of assignments that group to the left. -/
def leftChain (first : Expr) (more : List Expr) : Expr :=
  more.foldl (fun left right => .binary .assign left right left.span) first

/-- A row of assignments that group to the right. -/
def rightChain (first : Expr) : List Expr → Expr
  | [] => first
  | next :: more => .binary .assign first (rightChain next more) first.span

mutual

/-- Two expressions that are the same up to rows of assignments: a row, which may have a
single operand, groups to the left in one and to the right in the other. -/
inductive Regroups : Expr → Expr → Prop
  /-- A row with the same number of operands in both. -/
  | chain {first first' : Expr} {more more' : List Expr} (h : RegroupsOperand first first')
    (hs : List.Forall₂ RegroupsOperand more more') :
    Regroups (leftChain first more) (rightChain first' more')

/-- Two operands that are the same up to rows of assignments within them. None is a row
itself, so the rows that they are operands of cannot be longer. -/
inductive RegroupsOperand : Expr → Expr → Prop
  /-- An operator between two operands, other than an assignment. -/
  | binary {op : Operator} {left left' right right' : Expr} {span : Span} (hop : op ≠ .assign)
    (hl : RegroupsOperand left left') (hr : RegroupsOperand right right') :
    RegroupsOperand (.binary op left right span) (.binary op left' right' span)
  /-- An operator before its operand. -/
  | unary {op : Operator} {e e' : Expr} {span : Span} (h : RegroupsOperand e e') :
    RegroupsOperand (.unary op e span) (.unary op e' span)
  /-- A truth value. -/
  | bool (value : Bool) (span : Span) : RegroupsOperand (.bool value span) (.bool value span)
  /-- A number. -/
  | number (value : Binary64) (span : Span) :
    RegroupsOperand (.number value span) (.number value span)
  /-- A string. -/
  | string (value : Bytes) (span : Span) :
    RegroupsOperand (.string value span) (.string value span)
  /-- A name. -/
  | ident (name : Bytes) (span : Span) : RegroupsOperand (.ident name span) (.ident name span)
  /-- An expression in parentheses. -/
  | paren {e e' : Expr} {span : Span} (h : Regroups e e') :
    RegroupsOperand (.paren e span) (.paren e' span)
  /-- A field. -/
  | member (container field : Bytes) (span : Span) :
    RegroupsOperand (.member container field span) (.member container field span)
  /-- A call. -/
  | call {callee callee' : Expr} {args args' : List Expr} {span : Span}
    (hc : RegroupsOperand callee callee') (h : List.Forall₂ Regroups args args') :
    RegroupsOperand (.call callee args span) (.call callee' args' span)
  /-- A value built from components. -/
  | construct {type : Bytes} {args args' : List Expr} {span : Span}
    (h : List.Forall₂ Regroups args args') :
    RegroupsOperand (.construct type args span) (.construct type args' span)

end

/-- Two statements that are the same up to rows of assignments. -/
inductive RegroupsStmt : Stmt → Stmt → Prop
  /-- An expression. -/
  | expr {e e' : Expr} {span : Span} (h : Regroups e e') :
    RegroupsStmt (.expr e span) (.expr e' span)
  /-- A statement with a condition. -/
  | cond {e e' : Expr} {s s' : Stmt} {span : Span} (he : Regroups e e') (hs : RegroupsStmt s s') :
    RegroupsStmt (.cond e s span) (.cond e' s' span)
  /-- A block. -/
  | block {body body' : List Stmt} {span : Span} (h : List.Forall₂ RegroupsStmt body body') :
    RegroupsStmt (.block body span) (.block body' span)
  /-- A variable. -/
  | decl {head : Head} {init init' : Option Expr} (h : Option.Rel Regroups init init') :
    RegroupsStmt (.decl head init) (.decl head init')
  /-- A directive. -/
  | directive (name : Bytes) (span : Span) :
    RegroupsStmt (.directive name [] span) (.directive name [] span)
  /-- A function. -/
  | function {head : Head} {body body' : List Stmt} {span : Span}
    (h : List.Forall₂ RegroupsStmt body body') :
    RegroupsStmt (.function head [] body span) (.function head [] body' span)
  /-- A struct. -/
  | struct (attr name : Bytes) (members : List Member) (span : Span) :
    RegroupsStmt (.struct attr name members span) (.struct attr name members span)

/-- Operands that are the same up to rows within them start at the same place. -/
theorem RegroupsOperand.span_eq {e e' : Expr} (h : RegroupsOperand e e') : e.span = e'.span := by
  cases h <;> rfl

/-- One more operand at the end of a row that groups to the left. -/
theorem leftChain_concat (first : Expr) (more : List Expr) (e : Expr) :
    leftChain first (more ++ [e]) =
      .binary .assign (leftChain first more) e (leftChain first more).span := by
  simp [leftChain]

/-! ## Frames side by side -/

/-- What waits in a row of assignments that group to the right, innermost first. -/
def assignFrames (first : Expr) : List Expr → List Frame
  | [] => [.binary first .assign]
  | next :: more => assignFrames next more ++ [.binary first .assign]

/-- One more operand waits inside the others. -/
theorem assignFrames_concat (first : Expr) (more : List Expr) (e : Expr) :
    assignFrames first (more ++ [e]) = .binary e .assign :: assignFrames first more := by
  induction more generalizing first with
  | nil => rfl
  | cons next more ih => rw [List.cons_append, assignFrames, ih, assignFrames, List.cons_append]

/-- The innermost of these frames is an assignment. -/
theorem exists_assignFrames_eq_cons (first : Expr) (more : List Expr) :
    ∃ last frames, assignFrames first more = .binary last .assign :: frames := by
  induction more generalizing first with
  | nil => exact ⟨first, [], rfl⟩
  | cons next more ih =>
    obtain ⟨last, frames, h⟩ := ih next
    exact ⟨last, frames ++ [.binary first .assign], by rw [assignFrames, h, List.cons_append]⟩

mutual

/-- Frames of the two readings from a bracket outwards. -/
inductive BracketsMatch : List Frame → List Frame → Prop
  /-- There is no bracket. -/
  | nil : BracketsMatch [] []
  /-- A parenthesis. -/
  | paren {start : Position} {fs fs' : List Frame} (h : FramesMatch fs fs') :
    BracketsMatch (.paren start :: fs) (.paren start :: fs')
  /-- A call. -/
  | call {callee callee' : Expr} {opened : Position} {args args' : List Expr}
    {fs fs' : List Frame} (hc : RegroupsOperand callee callee')
    (ha : List.Forall₂ Regroups args args') (h : FramesMatch fs fs') :
    BracketsMatch (.call callee opened args :: fs) (.call callee' opened args' :: fs')
  /-- A vector. -/
  | construct {type : Keyword} {start : Position} {args args' : List Expr}
    {fs fs' : List Frame} (ha : List.Forall₂ Regroups args args') (h : FramesMatch fs fs') :
    BracketsMatch (.construct type start args :: fs) (.construct type start args' :: fs')

/-- Frames of the two readings. A row of assignments waits right inside a bracket. -/
inductive FramesMatch : List Frame → List Frame → Prop
  /-- No operator waits inside the innermost bracket. -/
  | brackets {fs fs' : List Frame} (h : BracketsMatch fs fs') : FramesMatch fs fs'
  /-- A row of assignments. -/
  | assign {first first' : Expr} {more more' : List Expr} {fs fs' : List Frame}
    (hf : RegroupsOperand first first') (hs : List.Forall₂ RegroupsOperand more more')
    (h : BracketsMatch fs fs') :
    FramesMatch (.binary (leftChain first more) .assign :: fs) (assignFrames first' more' ++ fs')
  /-- A left operand with another operator. -/
  | binary {left left' : Expr} {op : Operator} {fs fs' : List Frame} (hop : op ≠ .assign)
    (hl : RegroupsOperand left left') (h : FramesMatch fs fs') :
    FramesMatch (.binary left op :: fs) (.binary left' op :: fs')
  /-- An operator before the operand. -/
  | unary {op : Operator} {start : Position} {fs fs' : List Frame} (h : FramesMatch fs fs') :
    FramesMatch (.unary op start :: fs) (.unary op start :: fs')

end

/-- Frames are followed from the innermost one outwards, up to the first bracket. -/
theorem FramesMatch.inner_induction {P : ∀ fs fs', FramesMatch fs fs' → Prop}
    (brackets : ∀ {fs fs'} (hb : BracketsMatch fs fs'), P fs fs' (.brackets hb))
    (assign : ∀ {first first' more more' fs fs'} (hf : RegroupsOperand first first')
      (hs : List.Forall₂ RegroupsOperand more more') (hb : BracketsMatch fs fs'),
      P _ _ (.assign hf hs hb))
    (binary : ∀ {left left' op fs fs'} (hop : op ≠ Operator.assign)
      (hl : RegroupsOperand left left') (hfs : FramesMatch fs fs'), P fs fs' hfs →
      P _ _ (.binary hop hl hfs))
    (unary : ∀ {op start fs fs'} (hfs : FramesMatch fs fs'), P fs fs' hfs →
      P (.unary op start :: fs) (.unary op start :: fs') (.unary hfs))
    {fs fs' : List Frame} (h : FramesMatch fs fs') : P fs fs' h := by
  induction fs generalizing fs' with
  | nil =>
    cases h with
    | brackets hb => exact brackets hb
  | cons f fs ih =>
    cases h with
    | brackets hb => exact brackets hb
    | assign hf hs hb => exact assign hf hs hb
    | binary hop hl hfs => exact binary hop hl hfs (ih hfs)
    | unary hfs => exact unary hfs (ih hfs)

/-! ## Grouping side by side -/

/-- Nothing is completed across a bracket. -/
theorem BracketsMatch.group_eq {fs fs' : List Frame} (h : BracketsMatch fs fs')
    (waits waits' : Operator → Bool) (e e' : Expr) :
    group waits e fs = (e, fs) ∧ group waits' e' fs' = (e', fs') := by
  cases h <;> exact ⟨rfl, rfl⟩

/-- An operator that waits is not completed. -/
theorem group_of_waits {waits : Operator → Bool} {op : Operator} (h : waits op = true)
    (e left : Expr) (fs : List Frame) :
    group waits e (.binary left op :: fs) = (e, .binary left op :: fs) := by
  rw [group, if_pos h]

/-- An operator that does not wait is completed. -/
theorem group_of_not_waits {waits : Operator → Bool} {op : Operator} (h : waits op = false)
    (e left : Expr) (fs : List Frame) :
    group waits e (.binary left op :: fs) = group waits (.binary op left e left.span) fs := by
  rw [group, if_neg (by simp [h])]

/-- Where assignments wait, nothing in a row of them is completed. -/
theorem group_assignFrames {waits : Operator → Bool} (hw : waits .assign = true) (e first : Expr)
    (more : List Expr) (fs : List Frame) :
    group waits e (assignFrames first more ++ fs) = (e, assignFrames first more ++ fs) := by
  obtain ⟨last, inner, hframes⟩ := exists_assignFrames_eq_cons first more
  rw [hframes, List.cons_append, group_of_waits hw]

/-- Where assignments wait, the two readings complete the same operators. -/
theorem FramesMatch.group {fs fs' : List Frame} (h : FramesMatch fs fs')
    (waits : Operator → Bool) (hw : waits .assign = true) {e e' : Expr}
    (he : RegroupsOperand e e') :
    RegroupsOperand (group waits e fs).1 (group waits e' fs').1 ∧
      FramesMatch (group waits e fs).2 (group waits e' fs').2 := by
  induction h using FramesMatch.inner_induction generalizing e e' with
  | brackets hb =>
    obtain ⟨hl, hr⟩ := hb.group_eq waits waits e e'
    rw [hl, hr]
    exact ⟨he, .brackets hb⟩
  | assign hf hs hb =>
    rw [group_of_waits hw, group_assignFrames hw]
    exact ⟨he, .assign hf hs hb⟩
  | @binary left left' op _ _ hop hl hfs ih =>
    cases hwait : waits op with
    | true =>
      rw [group_of_waits hwait, group_of_waits hwait]
      exact ⟨he, .binary hop hl hfs⟩
    | false =>
      rw [group_of_not_waits hwait, group_of_not_waits hwait, hl.span_eq]
      exact ih (.binary hop hl he)
  | unary hfs ih => exact ih (.unary he)

/-- All that waits in a row of assignments that group to the right is completed at once. -/
theorem groupAll_assignFrames (first : Expr) (more : List Expr) (e : Expr) (fs : List Frame) :
    groupAll e (assignFrames first more ++ fs) =
      groupAll (rightChain first (more ++ [e])) fs := by
  induction more generalizing first fs with
  | nil => exact group_of_not_waits rfl e first fs
  | cons next more ih =>
    rw [assignFrames, List.append_assoc, ih]
    exact group_of_not_waits rfl _ first fs

/-- What becomes of the row of assignments that an operand ends: the row and what is around
it where they group to the left, the same where they group to the right, and the operand and
what waits around it while such a row goes on. -/
inductive RowMatch : Expr × List Frame → Expr × List Frame → Expr × List Frame → Prop
  /-- Both rows are inside the same bracket. -/
  | row {first first' last : Expr} {more more' : List Expr} {outer outer' inner : List Frame}
    (hf : RegroupsOperand first first') (hs : List.Forall₂ RegroupsOperand more more')
    (ho : BracketsMatch outer outer')
    (hw : .binary last .assign :: inner = assignFrames first' more' ++ outer') :
    RowMatch (leftChain first more, outer) (rightChain first' more', outer') (last, inner)

/-- An operand inside a bracket is a row by itself. -/
theorem BracketsMatch.rowMatch {fs fs' : List Frame} (h : BracketsMatch fs fs') {e e' : Expr}
    (he : RegroupsOperand e e') :
    RowMatch (groupAll e fs) (groupAll e' fs') (group (· = .assign) e' fs') := by
  obtain ⟨hl, hr⟩ := h.group_eq (fun _ => false) (fun _ => false) e e'
  obtain ⟨-, hw⟩ := h.group_eq (fun _ => false) (· = .assign) e e'
  rw [groupAll, groupAll, hl, hr, hw]
  exact @RowMatch.row e e' e' [] [] fs fs' fs' he .nil h rfl

/-- Every operand ends a row of assignments, if only one with a single operand. -/
theorem FramesMatch.rowMatch {fs fs' : List Frame} (h : FramesMatch fs fs') {e e' : Expr}
    (he : RegroupsOperand e e') :
    RowMatch (groupAll e fs) (groupAll e' fs') (ShaderFront.group (· = .assign) e' fs') := by
  induction h using FramesMatch.inner_induction generalizing e e' with
  | brackets hb => exact hb.rowMatch he
  | @assign first first' more more' outer outer' hf hs hb =>
    have hl : groupAll e (.binary (leftChain first more) .assign :: outer) =
        (leftChain first (more ++ [e]), outer) := by
      rw [leftChain_concat, groupAll, group_of_not_waits rfl]
      exact (hb.group_eq _ (fun _ => false) _ e').1
    have hr : groupAll e' (assignFrames first' more' ++ outer') =
        (rightChain first' (more' ++ [e']), outer') := by
      rw [groupAll_assignFrames]
      exact (hb.group_eq (fun _ => false) _ e _).2
    rw [hl, hr, group_assignFrames rfl]
    refine .row hf (List.rel_append hs (.cons he .nil)) hb ?_
    rw [assignFrames_concat, List.cons_append]
  | binary hop hl hfs ih =>
    have hwait : decide (_ = Operator.assign) = false := decide_eq_false hop
    rw [groupAll, groupAll, group_of_not_waits rfl, group_of_not_waits rfl,
      group_of_not_waits hwait, hl.span_eq]
    exact ih (.binary hop hl he)
  | unary hfs ih => exact ih (.unary he)

/-! ## Unfinished programs side by side -/

/-- Is all of the operand there? -/
def Point.isWhole : Point → Bool
  | .complete _ => true
  | _ => false

/-- Is the innermost statement in the middle of an expression? -/
def Mode.isExpression : Mode → Bool
  | .expression _ _ _ => true
  | _ => false

/-- Operands of the two readings that have got equally far. -/
inductive PointsMatch : Point → Point → Prop
  /-- All of the operand is there. -/
  | complete {e e' : Expr} (h : RegroupsOperand e e') : PointsMatch (.complete e) (.complete e')
  /-- Less of it is there, which has no expression in it. -/
  | unfinished {p : Point} (h : p.isWhole = false) : PointsMatch p p

/-- Innermost statements of the two readings that have got equally far. -/
inductive ModesMatch : Mode → Mode → Prop
  /-- An expression. -/
  | expression {host : Host} {fs fs' : List Frame} {p p' : Point} (hf : FramesMatch fs fs')
    (hp : PointsMatch p p') : ModesMatch (.expression host fs p) (.expression host fs' p')
  /-- A part of a statement that has no expression in it. -/
  | plain {m : Mode} (h : m.isExpression = false) : ModesMatch m m

/-- Enclosing statements of the two readings. -/
inductive ScopeMatch : Scope → Scope → Prop
  /-- A block. -/
  | block {opened : Position} {inner inner' : List Stmt}
    (h : List.Forall₂ RegroupsStmt inner inner') :
    ScopeMatch (.block opened inner) (.block opened inner')
  /-- A function. -/
  | function {head : Head} {opened : Position} {inner inner' : List Stmt}
    (h : List.Forall₂ RegroupsStmt inner inner') :
    ScopeMatch (.function head opened inner) (.function head opened inner')
  /-- A condition. -/
  | guard {start : Position} {e e' : Expr} (h : Regroups e e') :
    ScopeMatch (.guard start e) (.guard start e')

/-- Unfinished programs of the two readings that have got equally far. -/
structure StatesMatch (s s' : State) : Prop where
  /-- The complete statements are the same up to rows of assignments. -/
  finished : List.Forall₂ RegroupsStmt s.finished s'.finished
  /-- So are the enclosing statements. -/
  scopes : List.Forall₂ ScopeMatch s.scopes s'.scopes
  /-- The innermost statements have got equally far. -/
  mode : ModesMatch s.mode s'.mode

/-- Both readings go on in another mode. -/
theorem StatesMatch.withMode {s s' : State} (h : StatesMatch s s') {m m' : Mode}
    (hm : ModesMatch m m') : StatesMatch (s.withMode m) (s'.withMode m') :=
  ⟨h.finished, h.scopes, hm⟩

/-- Both readings open a statement. -/
theorem StatesMatch.enter {s s' : State} (h : StatesMatch s s') {scope scope' : Scope}
    (hs : ScopeMatch scope scope') : StatesMatch (s.enter scope) (s'.enter scope') :=
  ⟨h.finished, .cons hs h.scopes, .plain rfl⟩

/-- A complete statement is added in both readings. -/
theorem addStatement_match {done done' : List Stmt} (hd : List.Forall₂ RegroupsStmt done done')
    {scopes scopes' : List Scope} (hs : List.Forall₂ ScopeMatch scopes scopes') {stmt stmt' : Stmt}
    (h : RegroupsStmt stmt stmt') :
    StatesMatch (addStatement stmt done scopes) (addStatement stmt' done' scopes') := by
  induction hs generalizing stmt stmt' with
  | nil => exact ⟨.cons h hd, .nil, .plain rfl⟩
  | cons hscope hs ih =>
    cases hscope with
    | block hinner => exact ⟨hd, .cons (.block (.cons h hinner)) hs, .plain rfl⟩
    | function hinner => exact ⟨hd, .cons (.function (.cons h hinner)) hs, .plain rfl⟩
    | guard he => exact ih (.cond he h)

/-- The current statement becomes complete in both readings. -/
theorem StatesMatch.complete {s s' : State} (h : StatesMatch s s') {stmt stmt' : Stmt}
    (hs : RegroupsStmt stmt stmt') : StatesMatch (s.complete stmt) (s'.complete stmt') :=
  addStatement_match h.finished h.scopes hs

/-! ## Taking a token side by side -/

/-- The extensions of the grammar, with assignments grouped to the given side. -/
def Options.grouping (o : Options) (right : Bool) : Options :=
  { o with assignRight := right }

/-- Two readings of one token. -/
abbrev BothTake := Option.Rel StatesMatch

/-- Both readings go on from what one token gives both of them. -/
theorem bothTake_map {α β : Type} {r : α → β → Prop} {x : Option α} {y : Option β}
    (h : Option.Rel r x y) {f : α → State} {g : β → State}
    (hfg : ∀ a b, r a b → StatesMatch (f a) (g b)) : BothTake (x.map f) (y.map g) := by
  cases h with
  | none => exact .none
  | some hab => exact .some (hfg _ _ hab)

/-- Both readings go on from the same. -/
theorem bothTake_map_same {α : Type} (x : Option α) {f g : α → State}
    (hfg : ∀ a, StatesMatch (f a) (g a)) : BothTake (x.map f) (x.map g) := by
  cases x with
  | none => exact .none
  | some a => exact .some (hfg a)

/-- Both readings take a certain mark. -/
theorem onMark?_match {s s' : State} (h : StatesMatch s s') (t : Token) (mark : Punct)
    {m m' : Mode} (hm : ModesMatch m m') :
    BothTake (s.onMark? t mark m) (s'.onMark? t mark m') := by
  unfold State.onMark?
  split
  · exact .some (h.withMode hm)
  · exact .none

/-- Both readings take the first token of an operand. -/
theorem takeOperand?_match {fs fs' : List Frame} (h : FramesMatch fs fs') (host : Host)
    (t : Token) : Option.Rel ModesMatch (takeOperand? host fs t) (takeOperand? host fs' t) := by
  unfold takeOperand?
  cases t.symbol with
  | operator op =>
    dsimp only
    split
    · exact .some (.expression (.unary h) (.unfinished rfl))
    · exact .none
  | bool value => exact .some (.expression h (.complete (.bool value t.span)))
  | number value => exact .some (.expression h (.complete (.number value t.span)))
  | string value => exact .some (.expression h (.complete (.string value t.span)))
  | ident name => exact .some (.expression h (.unfinished rfl))
  | punct p =>
    cases p with
    | openParen => exact .some (.expression (.brackets (.paren h)) (.unfinished rfl))
    | _ => exact .none
  | keyword k =>
    dsimp only
    split
    · exact .some (.expression h (.unfinished rfl))
    · exact .none
  | _ => exact .none

/-- The arguments of a bracket with its last part are the same up to rows of assignments. -/
theorem arguments_match {last last' : Option Expr} (hl : Option.Rel Regroups last last')
    {args args' : List Expr} (ha : List.Forall₂ Regroups args args') :
    List.Forall₂ Regroups (last.toList ++ args).reverse (last'.toList ++ args').reverse := by
  apply List.rel_reverse
  cases hl with
  | none => exact ha
  | some h => exact .cons h ha

/-- Both readings close a bracket. -/
theorem BracketsMatch.closeBracket? {fs fs' : List Frame} (h : BracketsMatch fs fs')
    (host : Host) {last last' : Option Expr} (hl : Option.Rel Regroups last last') :
    Option.Rel ModesMatch (closeBracket? host last fs) (closeBracket? host last' fs') := by
  cases h with
  | nil => exact .none
  | paren hf =>
    cases hl with
    | none => exact .none
    | some he => exact .some (.expression hf (.complete (.paren he)))
  | call hc ha hf =>
    unfold ShaderFront.closeBracket?
    dsimp only
    rw [hc.span_eq]
    exact .some (.expression hf (.complete (.call hc (arguments_match hl ha))))
  | construct ha hf =>
    exact .some (.expression hf (.complete (.construct (arguments_match hl ha))))

/-- Both readings close a bracket without a last part, or neither is right after one. -/
theorem FramesMatch.closeBracket? {fs fs' : List Frame} (h : FramesMatch fs fs') (host : Host) :
    Option.Rel ModesMatch (closeBracket? host none fs) (closeBracket? host none fs') := by
  cases h with
  | brackets hb => exact hb.closeBracket? host .none
  | @assign _ first' _ more' _ outer' _ _ _ =>
    obtain ⟨last, inner, hframes⟩ := exists_assignFrames_eq_cons first' more'
    rw [hframes]
    exact .none
  | binary _ _ _ => exact .none
  | unary _ => exact .none

/-- Both readings go on with the next part of a bracket. -/
theorem BracketsMatch.nextArgument? {fs fs' : List Frame} (h : BracketsMatch fs fs')
    (o : Options) (host : Host) {e e' : Expr} (he : Regroups e e') :
    Option.Rel ModesMatch (nextArgument? (o.grouping false) host e fs)
      (nextArgument? (o.grouping true) host e' fs') := by
  cases h with
  | nil => exact .none
  | paren _ => exact .none
  | call hc ha hf =>
    unfold ShaderFront.nextArgument? Options.grouping
    dsimp only
    split
    · exact .some (.expression (.brackets (.call hc (.cons he ha) hf)) (.unfinished rfl))
    · exact .none
  | construct ha hf =>
    exact .some (.expression (.brackets (.construct (.cons he ha) hf)) (.unfinished rfl))

/-- Both readings end an expression. -/
theorem endExpression?_match {s s' : State} (h : StatesMatch s s') (host : Host) {e e' : Expr}
    (he : Regroups e e') (got : Symbol) :
    BothTake (endExpression? s host e got) (endExpression? s' host e' got) := by
  unfold endExpression?
  split
  · exact .some (h.complete (.expr he))
  · exact .some (h.complete (.decl (.some he)))
  · exact .some (h.enter (.guard he))
  · exact .none

/-- Before another operator, the same operators wait in both readings. -/
theorem Options.waits_grouping (o : Options) {op : Operator} (hop : op ≠ .assign)
    (pending : Operator) :
    (o.grouping true).waits pending op = (o.grouping false).waits pending op := by
  simp [waits, grouping, hop]

/-- Assignments wait while the right operand of any other operator is read. -/
theorem Options.waits_assign (o : Options) {op : Operator} (hop : op ≠ .assign)
    (hl : op.level?.isSome = true) : o.waits .assign op = true := by
  cases op with
  | assign => exact absurd rfl hop
  | empty | not | unassigned _ => cases hl
  | _ => rfl

/-- No operator waits before an assignment that groups to the left. -/
theorem Options.waits_before_left (o : Options) (pending : Operator) :
    (o.grouping false).waits pending .assign = false := by
  cases pending <;> rfl

/-- Only assignments wait before an assignment that groups to the right. -/
theorem Options.waits_before_right (o : Options) (pending : Operator) :
    (o.grouping true).waits pending .assign = decide (pending = .assign) := by
  cases pending <;> rfl

/-- Both readings put an operator after an operand. -/
theorem operator_match {s s' : State} (h : StatesMatch s s') (o : Options) (host : Host)
    {fs fs' : List Frame} (hf : FramesMatch fs fs') {e e' : Expr} (he : RegroupsOperand e e')
    {op : Operator} (hl : op.level?.isSome = true) {left left' : Expr}
    {waiting waiting' : List Frame}
    (hg : group (fun pending => (o.grouping false).waits pending op) e fs = (left, waiting))
    (hg' : group (fun pending => (o.grouping true).waits pending op) e' fs' = (left', waiting')) :
    StatesMatch (s.withMode (.expression host (.binary left op :: waiting) .operand))
      (s'.withMode (.expression host (.binary left' op :: waiting') .operand)) := by
  apply h.withMode
  refine .expression ?_ (.unfinished rfl)
  by_cases hop : op = .assign
  · subst hop
    simp only [o.waits_before_left] at hg
    simp only [o.waits_before_right] at hg'
    have hrow := hf.rowMatch he
    rw [groupAll, hg, hg'] at hrow
    generalize groupAll e' fs' = whole at hrow
    cases hrow with
    | row hfirst hmore houter hw =>
      rw [hw]
      exact .assign hfirst hmore houter
  · simp only [o.waits_grouping hop] at hg'
    have hwaits := hf.group (fun pending => (o.grouping false).waits pending op)
      ((o.grouping false).waits_assign hop hl) he
    rw [hg, hg'] at hwaits
    obtain ⟨hleft, hwaiting⟩ := hwaits
    exact .binary hop hleft hwaiting

/-- Both readings take a token after an operand. -/
theorem takeAfter?_match {s s' : State} (h : StatesMatch s s') (o : Options) (host : Host)
    {fs fs' : List Frame} (hf : FramesMatch fs fs') {e e' : Expr} (he : RegroupsOperand e e')
    (t : Token) :
    BothTake (takeAfter? (o.grouping false) s host fs e t)
      (takeAfter? (o.grouping true) s' host fs' e' t) := by
  unfold takeAfter?
  split
  · split
    · next hl => exact .some (operator_match h o host hf he hl rfl rfl)
    · exact .none
  · have hrow := hf.rowMatch he
    generalize group (· = .assign) e' fs' = row at hrow
    generalize groupAll e fs = whole at hrow ⊢
    generalize groupAll e' fs' = whole' at hrow ⊢
    cases hrow with
    | row hfirst hmore houter _ =>
      have hv := Regroups.chain hfirst hmore
      have hclose := houter.closeBracket? host (.some hv)
      have hnext := houter.nextArgument? o host hv
      have hmode : ∀ m m', ModesMatch m m' → StatesMatch (s.withMode m) (s'.withMode m') :=
        fun m m' hm => h.withMode hm
      cases houter with
      | nil => exact endExpression?_match h host hv _
      | paren _ | call _ _ _ | construct _ _ =>
        dsimp only
        split
        · exact bothTake_map hclose hmode
        · exact bothTake_map hnext hmode
        · exact .none

/-- Both readings take a token after what may be called. -/
theorem takeAfterCallee?_match {s s' : State} (h : StatesMatch s s') (o : Options) (host : Host)
    {fs fs' : List Frame} (hf : FramesMatch fs fs') {callee callee' : Expr}
    (hc : RegroupsOperand callee callee') (t : Token) :
    BothTake (takeAfterCallee? (o.grouping false) s host fs callee t)
      (takeAfterCallee? (o.grouping true) s' host fs' callee' t) := by
  unfold takeAfterCallee?
  split
  · exact .some (h.withMode (.expression (.brackets (.call hc .nil hf)) (.unfinished rfl)))
  · exact takeAfter?_match h o host hf hc t

/-- Both readings take a token inside an expression. -/
theorem takeInExpression?_match {s s' : State} (h : StatesMatch s s') (o : Options) (host : Host)
    {fs fs' : List Frame} (hf : FramesMatch fs fs') {p p' : Point} (hp : PointsMatch p p')
    (t : Token) :
    BothTake (takeInExpression? (o.grouping false) s host fs p t)
      (takeInExpression? (o.grouping true) s' host fs' p' t) := by
  have hoperand : BothTake ((takeOperand? host fs t).map s.withMode)
      ((takeOperand? host fs' t).map s'.withMode) :=
    bothTake_map (takeOperand?_match hf host t) fun _ _ => h.withMode
  cases hp with
  | complete he => exact takeAfter?_match h o host hf he t
  | unfinished hp =>
    cases p with
    | operand => exact hoperand
    | firstArgument =>
      simp only [takeInExpression?]
      split
      · exact bothTake_map (hf.closeBracket? host) fun _ _ => h.withMode
      · exact hoperand
    | name name start =>
      simp only [takeInExpression?]
      split
      · exact .some (h.withMode (.expression hf (.unfinished rfl)))
      · exact takeAfterCallee?_match h o host hf (.ident name _) t
    | field container start =>
      exact bothTake_map_same _ fun _ => h.withMode (.expression hf (.unfinished rfl))
    | member container field start =>
      exact takeAfterCallee?_match h o host hf (.member container field _) t
    | vector type start =>
      exact onMark?_match h t _ (.expression (.brackets (.construct .nil hf)) (.unfinished rfl))
    | complete e => cases hp

/-- Both readings close the innermost block. -/
theorem closeBlock?_match {s s' : State} (h : StatesMatch s s') :
    BothTake (closeBlock? s) (closeBlock? s') := by
  obtain ⟨done, scopes, mode⟩ := s
  obtain ⟨done', scopes', mode'⟩ := s'
  obtain ⟨hd, hscopes, -⟩ := h
  cases hscopes with
  | nil => exact .none
  | cons hscope hscopes =>
    cases hscope with
    | block hinner => exact .some (addStatement_match hd hscopes (.block (List.rel_reverse hinner)))
    | function hinner =>
      exact .some (addStatement_match hd hscopes (.function (List.rel_reverse hinner)))
    | guard _ => exact .none

/-- Both readings take the first token of a statement. -/
theorem takeStatement?_match {s s' : State} (h : StatesMatch s s') (t : Token) :
    BothTake (takeStatement? s t) (takeStatement? s' t) := by
  unfold takeStatement?
  split
  · exact .some (h.complete (.directive _ _))
  · exact .some (h.enter (.block .nil))
  · exact closeBlock?_match h
  · exact .some (h.withMode (.plain rfl))
  · exact .some (h.withMode (.plain rfl))
  · exact .some (h.withMode (.plain rfl))
  · split
    · exact .some (h.withMode (.plain rfl))
    · exact .none
  · exact bothTake_map (takeOperand?_match (.brackets .nil) _ t) fun _ _ => h.withMode

/-- Both readings take a token after the name of a declaration. -/
theorem takeAfterName?_match {s s' : State} (h : StatesMatch s s') (head : Head) (t : Token) :
    BothTake (takeAfterName? s head t) (takeAfterName? s' head t) := by
  unfold takeAfterName?
  split
  · split
    · exact .some (h.withMode (.expression (.brackets .nil) (.unfinished rfl)))
    · exact .none
  · exact .some (h.complete (.decl .none))
  · exact .some (h.withMode (.plain rfl))
  · exact .none

/-- Both readings take a token between two members of a struct. -/
theorem takeMember?_match {s s' : State} (h : StatesMatch s s') (o : Options) (r : OpenStruct)
    (t : Token) :
    BothTake (takeMember? (o.grouping false) s r t) (takeMember? (o.grouping true) s' r t) := by
  unfold takeMember? Options.grouping
  split
  · split
    · exact .none
    · exact .some (h.complete (.struct _ _ _ _))
  · exact bothTake_map_same _ fun _ => h.withMode (.plain rfl)

/-- Both readings take a token, or both refuse it. -/
theorem take?_match {s s' : State} (h : StatesMatch s s') (o : Options) (t : Token) :
    BothTake (s.take? (o.grouping false) t) (s'.take? (o.grouping true) t) := by
  have hmode := h.mode
  unfold State.take?
  generalize s.mode = m at hmode ⊢
  generalize s'.mode = m' at hmode ⊢
  cases hmode with
  | expression hf hp => exact takeInExpression?_match h o _ hf hp t
  | plain hm =>
    cases m with
    | expression host fs p => cases hm
    | statement => exact takeStatement?_match h t
    | declared head => exact takeAfterName?_match h head t
    | members r => exact takeMember?_match h o r t
    | functionBody head =>
      dsimp only
      split
      · exact .some (h.enter (.function .nil))
      · exact .none
    | conditionStart start =>
      exact onMark?_match h t _ (.expression (.brackets .nil) (.unfinished rfl))
    | parameters _ | structStart _ _ | memberColon _ _ _ | memberEnd _ _ =>
      exact onMark?_match h t _ (.plain rfl)
    | modified _ | typed _ _ _ | structName _ | memberType _ _ _ =>
      exact bothTake_map_same _ fun _ => h.withMode (.plain rfl)

/-! ## Refusals side by side -/

/-- A refusal does not depend on the assignments that wait. -/
theorem refusalAfter_assignFrames (host : Host) (got : Symbol) (first : Expr) (more : List Expr)
    (fs : List Frame) :
    refusalAfter host got (assignFrames first more ++ fs) = refusalAfter host got fs := by
  induction more generalizing first fs with
  | nil => rfl
  | cons next more ih =>
    rw [assignFrames, List.append_assoc, ih]
    rfl

/-- A symbol is refused at a bracket for the same reason in both readings. -/
theorem BracketsMatch.refusalAfter {fs fs' : List Frame} (h : BracketsMatch fs fs') (host : Host)
    (got : Symbol) : refusalAfter host got fs = refusalAfter host got fs' := by
  cases h <;> rfl

/-- A symbol is refused after an operand for the same reason in both readings. -/
theorem FramesMatch.refusalAfter {fs fs' : List Frame} (h : FramesMatch fs fs') (host : Host)
    (got : Symbol) : refusalAfter host got fs = refusalAfter host got fs' := by
  induction h using FramesMatch.inner_induction with
  | brackets hb => exact hb.refusalAfter host got
  | assign _ _ hb =>
    rw [refusalAfter_assignFrames]
    exact hb.refusalAfter host got
  | binary _ _ _ ih => exact ih
  | unary _ ih => exact ih

/-- A symbol is refused inside an expression for the same reason in both readings. -/
theorem refusalInExpression_eq {fs fs' : List Frame} (hf : FramesMatch fs fs') {p p' : Point}
    (hp : PointsMatch p p') (host : Host) (got : Symbol) :
    refusalInExpression host fs p got = refusalInExpression host fs' p' got := by
  have hafter := hf.refusalAfter host got
  cases hp with
  | complete _ => exact hafter
  | unfinished _ =>
    cases p with
    | name _ _ | member _ _ _ | complete _ => exact hafter
    | operand | firstArgument | field _ _ | vector _ _ => rfl

/-- A symbol is refused where a statement may start for the same reason in both readings. -/
theorem refusalAtStatement_eq {scopes scopes' : List Scope}
    (h : List.Forall₂ ScopeMatch scopes scopes') (got : Symbol) :
    refusalAtStatement got scopes = refusalAtStatement got scopes' := by
  cases h with
  | nil => rfl
  | cons hscope _ => cases hscope <;> rfl

/-- Something is open in both readings, or in neither. -/
theorem isEmpty_scopes_eq {scopes scopes' : List Scope}
    (h : List.Forall₂ ScopeMatch scopes scopes') : scopes.isEmpty = scopes'.isEmpty := by
  cases h <;> rfl

namespace StatesMatch

/-- A symbol that is refused is refused for the same reason in both readings. -/
theorem refusal_eq {s s' : State} (h : StatesMatch s s') (got : Symbol) :
    s.refusal got = s'.refusal got := by
  have hmode := h.mode
  unfold State.refusal
  generalize s.mode = m at hmode ⊢
  generalize s'.mode = m' at hmode ⊢
  cases hmode with
  | expression hf hp => exact refusalInExpression_eq hf hp _ got
  | plain _ =>
    cases m with
    | statement => exact refusalAtStatement_eq h.scopes got
    | _ => rfl

/-- The program may end in both readings, or in neither. -/
theorem isComplete_eq {s s' : State} (h : StatesMatch s s') : s.isComplete = s'.isComplete := by
  have hmode := h.mode
  unfold State.isComplete
  rw [isEmpty_scopes_eq h.scopes]
  generalize s.mode = m at hmode ⊢
  generalize s'.mode = m' at hmode ⊢
  cases hmode <;> rfl

end StatesMatch

/-! ## Runs side by side -/

/-- What two readings of one row of tokens come to. -/
inductive ResultsMatch : Except Fault (List Stmt) → Except Fault (List Stmt) → Prop
  /-- Both refuse the same token for the same reason. -/
  | refused (fault : Fault) : ResultsMatch (.error fault) (.error fault)
  /-- Both make a program, and the two are the same up to rows of assignments. -/
  | read {program program' : List Stmt} (h : List.Forall₂ RegroupsStmt program program') :
    ResultsMatch (.ok program) (.ok program')

/-- Two readings of one row of tokens that take as many tokens. -/
structure OutcomesMatch (outcome outcome' : Outcome) : Prop where
  /-- As many tokens are taken. -/
  taken : outcome.taken = outcome'.taken
  /-- The results belong together. -/
  result : ResultsMatch outcome.result outcome'.result

/-- The two readings come to the same at the end of the tokens. -/
theorem StatesMatch.finish {s s' : State} (h : StatesMatch s s') (p : Position) :
    OutcomesMatch (s.finish p) (s'.finish p) := by
  refine ⟨rfl, ?_⟩
  unfold State.finish
  rw [← h.isComplete_eq, ← h.refusal_eq]
  dsimp only
  split
  · exact .read (List.rel_reverse h.finished)
  · exact .refused _

/-- The two readings come to the same on every row of tokens. -/
theorem StatesMatch.run {s s' : State} (h : StatesMatch s s') (o : Options) (last : Position)
    (ts : List Token) :
    OutcomesMatch (s.run (o.grouping false) last ts) (s'.run (o.grouping true) last ts) := by
  induction ts generalizing s s' with
  | nil => exact h.finish last
  | cons t ts ih =>
    have htake := take?_match h o t
    unfold State.run
    generalize s.take? (o.grouping false) t = next at htake ⊢
    generalize s'.take? (o.grouping true) t = next' at htake ⊢
    split
    · exact h.finish t.pos
    · cases htake with
      | none =>
        rw [h.refusal_eq]
        exact ⟨rfl, .refused _⟩
      | some hnext =>
        obtain ⟨htaken, hresult⟩ := ih hnext
        exact ⟨congrArg (· + 1) htaken, hresult⟩

/-- Two results that belong together are one diagnostic or two programs. -/
theorem ResultsMatch.mapError {result result' : Except Fault (List Stmt)}
    (h : ResultsMatch result result') :
    (∃ d, result.mapError Fault.diagnostic = .error d ∧
        result'.mapError Fault.diagnostic = .error d) ∨
      ∃ program program', result.mapError Fault.diagnostic = .ok program ∧
        result'.mapError Fault.diagnostic = .ok program' ∧
        List.Forall₂ RegroupsStmt program program' := by
  cases h with
  | refused fault => exact .inl ⟨fault.diagnostic, rfl, rfl⟩
  | read h => exact .inr ⟨_, _, rfl, rfl, h⟩

/-- Whether assignments group to the left or to the right decides how a row of them nests
and nothing else. A parser that has got anywhere in a row of tokens fails either way with
the same diagnostic, or succeeds either way with programs that are the same up to rows of
assignments; and it gets equally far. -/
theorem parse_regroups (tokens : List Token) (o : Options) (cursor : Nat) :
    let left := (Parser.mk tokens (o.grouping false) cursor).parse
    let right := (Parser.mk tokens (o.grouping true) cursor).parse
    left.2.cursor = right.2.cursor ∧
      ((∃ d, left.1 = .error d ∧ right.1 = .error d) ∨
        ∃ program program', left.1 = .ok program ∧ right.1 = .ok program' ∧
          List.Forall₂ RegroupsStmt program program') := by
  have hstart : StatesMatch .start .start := ⟨.nil, .nil, .plain rfl⟩
  obtain ⟨htaken, hresult⟩ := hstart.run o (lastPosition tokens) (tokens.drop cursor)
  exact ⟨congrArg (cursor + ·) htaken, hresult.mapError⟩

/-- The tokens of two assignments in a row. -/
def rowTokens : List Token :=
  [⟨.ident (utf8 "a"), utf8 "a", ⟨1, 1⟩⟩, ⟨.operator .assign, utf8 "=", ⟨1, 3⟩⟩,
    ⟨.ident (utf8 "b"), utf8 "b", ⟨1, 5⟩⟩, ⟨.operator .assign, utf8 "=", ⟨1, 7⟩⟩,
    ⟨.ident (utf8 "c"), utf8 "c", ⟨1, 9⟩⟩, ⟨.punct .semicolon, utf8 ";", ⟨1, 10⟩⟩]

/-- A name of those, which stands in a certain column. -/
def rowName (name : String) (column : Int) : Expr :=
  .ident (utf8 name) (.startingAt ⟨1, column⟩)

/-- The first of the assignments is an operand of the second one, or the other way round. -/
theorem parse_regroups_row :
    let a := rowName "a" 1
    let b := rowName "b" 5
    let c := rowName "c" 9
    let left := Stmt.expr (.binary .assign (.binary .assign a b a.span) c a.span) a.span
    let right := Stmt.expr (.binary .assign a (.binary .assign b c b.span) a.span) a.span
    (Parser.mk rowTokens {} 0).parse.1 = .ok [left] ∧
      (Parser.mk rowTokens { assignRight := true } 0).parse.1 = .ok [right] ∧
      RegroupsStmt left right := by
  intro a b c left right
  have hleft : (Parser.mk rowTokens {} 0).parse.1 = .ok [left] := rfl
  have hright : (Parser.mk rowTokens { assignRight := true } 0).parse.1 = .ok [right] := rfl
  obtain ⟨-, ⟨d, hd, -⟩ | ⟨program, program', hp, hp', hsame⟩⟩ := parse_regroups rowTokens {} 0
  · cases hleft.symm.trans hd
  · cases hleft.symm.trans hp
    cases hright.symm.trans hp'
    cases hsame with
    | cons h _ => exact ⟨hleft, hright, h⟩

end ShaderFront
