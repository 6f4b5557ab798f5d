import ShaderFront.Grammar.State

/-!
# Shapes of trees

Two trees have the same shape if they differ only in the stretches of text that their
nodes record. A tree is well formed, under given extensions of the grammar, if it has
a shape that the grammar can give to a program: operators group as tightly as they
bind, and every part of a node is one that can be written there.
-/

namespace ShaderFront

/-! ## Trees without places -/

mutual

/-- The expression without the stretches of text of its nodes. -/
def Expr.bare : Expr → Expr
  | .hole => .hole
  | .binary op left right _ => .binary op left.bare right.bare .nowhere
  | .unary op operand _ => .unary op operand.bare .nowhere
  | .bool value _ => .bool value .nowhere
  | .number value _ => .number value .nowhere
  | .string value _ => .string value .nowhere
  | .ident name _ => .ident name .nowhere
  | .paren inner _ => .paren inner.bare .nowhere
  | .member container field _ => .member container field .nowhere
  | .call callee args _ => .call callee.bare (Expr.bareAll args) .nowhere
  | .construct type args _ => .construct type (Expr.bareAll args) .nowhere

/-- The expressions without the stretches of text of their nodes. -/
def Expr.bareAll : List Expr → List Expr
  | [] => []
  | e :: es => e.bare :: Expr.bareAll es

end

/-- The head of a declaration without its stretch of text. -/
def Head.bare (h : Head) : Head := { h with span := .nowhere }

/-- The member without its stretch of text. -/
def Member.bare (m : Member) : Member := { m with span := .nowhere }

mutual

/-- The statement without the stretches of text of its nodes. -/
def Stmt.bare : Stmt → Stmt
  | .hole => .hole
  | .expr value _ => .expr value.bare .nowhere
  | .cond condition body _ => .cond condition.bare body.bare .nowhere
  | .block body _ => .block (bare body) .nowhere
  | .decl head init => .decl head.bare (init.map Expr.bare)
  | .directive name params _ => .directive name (Expr.bareAll params) .nowhere
  | .function head params body _ => .function head.bare params (bare body) .nowhere
  | .struct attr name members _ => .struct attr name (members.map Member.bare) .nowhere

/-- The program without the stretches of text of its nodes. -/
def bare : List Stmt → List Stmt
  | [] => []
  | s :: ss => s.bare :: bare ss

end

theorem Expr.bareAll_eq_map (es : List Expr) : bareAll es = es.map Expr.bare := by
  induction es with
  | nil => rfl
  | cons e es ih => rw [bareAll, ih, List.map_cons]

/-! ## Well-formed expressions -/

/-- May the expression be the left operand of the operator? One that an operator makes
must bind at least as tightly, and more tightly than an assignment if those group to
the right. -/
def Options.allowsLeft (o : Options) (op : Operator) : Expr → Bool
  | .binary inner _ _ _ =>
    match inner.level?, op.level? with
    | some i, some n => if o.assignRight && op = .assign then n < i else n ≤ i
    | _, _ => false
  | _ => true

/-- May the expression be the right operand of the operator? One that an operator makes
must bind more tightly, or be an assignment after another one if those group to the
right. -/
def Options.allowsRight (o : Options) (op : Operator) : Expr → Bool
  | .binary inner _ _ _ =>
    match inner.level?, op.level? with
    | some i, some n => n < i || (o.assignRight && op = .assign && inner = .assign)
    | _, _ => false
  | _ => true

namespace Expr

/-- Does an operator between two operands make the expression? -/
def isBinary : Expr → Bool
  | .binary _ _ _ _ => true
  | _ => false

/-- May the expression be called? -/
def isCallee : Expr → Bool
  | .ident _ _ | .member _ _ _ => true
  | _ => false

/-- Does the written form of the expression start with the type of a vector? -/
def startsWithVector : Expr → Bool
  | .binary _ left _ _ => left.startsWithVector
  | .construct _ _ _ => true
  | _ => false

end Expr

/-- Is this the name of a type that can be declared? -/
def isTypeName (type : Bytes) : Bool :=
  Keyword.all.any fun k => k.isType && utf8 k.spelling = type

/-- Is this the name of a type that is built from components? -/
def isVectorName (type : Bytes) : Bool :=
  Keyword.all.any fun k => k.isVector && utf8 k.spelling = type

mutual

/-- Is the expression well formed? -/
def Expr.isWellFormed (o : Options) : Expr → Bool
  | .hole => false
  | .binary op left right _ =>
    op.level?.isSome && o.allowsLeft op left && o.allowsRight op right &&
      left.isWellFormed o && right.isWellFormed o
  | .unary op operand _ => op.isUnary && !operand.isBinary && operand.isWellFormed o
  | .bool _ _ | .number _ _ | .string _ _ | .ident _ _ | .member _ _ _ => true
  | .paren inner _ => inner.isWellFormed o
  | .call callee args _ =>
    callee.isCallee && (o.manyArguments || args.length ≤ 1) && Expr.areWellFormed o args
  | .construct type args _ => isVectorName type && Expr.areWellFormed o args

/-- Are the expressions well formed? -/
def Expr.areWellFormed (o : Options) : List Expr → Bool
  | [] => true
  | e :: es => e.isWellFormed o && Expr.areWellFormed o es

end

/-! ## Well-formed statements -/

/-- Are the modifiers and the type of a declaration such as can be written? -/
def Head.isWellFormed (h : Head) : Bool :=
  (h.modifiers = [] || h.modifiers = [.input]) && isTypeName h.type

mutual

/-- Is the statement well formed? An expression that starts with the type of a vector
is no statement, neither directives nor functions have parameters, and the attribute of
a struct is reserved. -/
def Stmt.isWellFormed (o : Options) : Stmt → Bool
  | .hole => false
  | .expr value _ => value.isWellFormed o && !value.startsWithVector
  | .cond condition body _ => condition.isWellFormed o && body.isWellFormed o
  | .block body _ => Stmt.areWellFormed o body
  | .decl head init => head.isWellFormed && init.all fun e => e.isWellFormed o
  | .directive _ params _ => params.isEmpty
  | .function head params body _ =>
    head.isWellFormed && params.isEmpty && Stmt.areWellFormed o body
  | .struct attr _ members _ => attr.isEmpty && (o.allMembers || members.length = 1)

/-- Are the statements well formed? -/
def Stmt.areWellFormed (o : Options) : List Stmt → Bool
  | [] => true
  | s :: ss => s.isWellFormed o && Stmt.areWellFormed o ss

end

/-- A type that can be declared is named by a type word. -/
theorem exists_of_isTypeName {type : Bytes} (h : isTypeName type = true) :
    ∃ k : Keyword, k.isType = true ∧ utf8 k.spelling = type := by
  obtain ⟨k, -, hk⟩ := List.any_eq_true.mp h
  simp only [Bool.and_eq_true, decide_eq_true_eq] at hk
  exact ⟨k, hk⟩

/-- A type that is built from components is named by a vector word. -/
theorem exists_of_isVectorName {type : Bytes} (h : isVectorName type = true) :
    ∃ k : Keyword, k.isVector = true ∧ utf8 k.spelling = type := by
  obtain ⟨k, -, hk⟩ := List.any_eq_true.mp h
  simp only [Bool.and_eq_true, decide_eq_true_eq] at hk
  exact ⟨k, hk⟩

end ShaderFront
