import ShaderFront.Tree.Basic

/-!
# Nodes in preorder

Statements, expressions and struct members are the nodes of a program. A walk visits
a node, then everything below its first child, then everything below the next, and
records for each node how deep it lies and what it is to its parent.
-/

namespace ShaderFront

/-- Anything in a tree that takes a place of its own. -/
inductive Node where
  /-- A statement. -/
  | stmt (s : Stmt)
  /-- An expression. -/
  | expr (e : Expr)
  /-- A member of a struct. -/
  | member (m : Member)
  deriving Repr

/-- What a node is to its parent. -/
inductive Role where
  /-- A statement of the program itself. -/
  | top
  /-- The only expression of a statement or of parentheses. -/
  | content
  /-- The condition that guards a statement. -/
  | condition
  /-- The guarded statement, or the block of a function. -/
  | body
  /-- A statement of a block. -/
  | statement
  /-- The initial value of a variable. -/
  | init
  /-- A parameter of a directive. -/
  | param
  /-- A member of a struct. -/
  | member
  /-- The operand before an operator. -/
  | left
  /-- The operand after an operator. -/
  | right
  /-- What is called. -/
  | callee
  /-- An argument or a component. -/
  | arg
  deriving DecidableEq, Repr

namespace Node

/-- The stretch of text that a node was read from. -/
def span : Node → Span
  | stmt s => s.span
  | expr e => e.span
  | member m => m.span

/-- The nodes directly below a node, in order. -/
def children : Node → List (Role × Node)
  | stmt (.expr value _) => [(.content, expr value)]
  | stmt (.cond condition body _) => [(.condition, expr condition), (.body, stmt body)]
  | stmt (.block body _) => body.map fun s => (.statement, stmt s)
  | stmt (.decl _ init) => init.toList.map fun e => (.init, expr e)
  | stmt (.directive _ params _) => params.map fun e => (.param, expr e)
  | stmt (.function _ _ body bodySpan) => [(.body, stmt (.block body bodySpan))]
  | stmt (.struct _ _ members _) => members.map fun m => (.member, member m)
  | expr (.binary _ left right _) => [(.left, expr left), (.right, expr right)]
  | expr (.unary _ operand _) => [(.right, expr operand)]
  | expr (.paren inner _) => [(.content, expr inner)]
  | expr (.call callee args _) => (.callee, expr callee) :: args.map fun e => (.arg, expr e)
  | expr (.construct _ args _) => args.map fun e => (.arg, expr e)
  | stmt .hole | expr .hole | expr (.bool ..) | expr (.number ..) | expr (.string ..)
  | expr (.ident ..) | expr (.member ..) | member _ => []

/-- Children are smaller than their parent. -/
theorem sizeOf_lt_of_mem_children {n c : Node} {r : Role} (h : (r, c) ∈ n.children) :
    sizeOf c < sizeOf n := by
  have one {a b : Role × Node} (h : a ∈ [b]) : a = b := List.mem_singleton.1 h
  have two {a b c : Role × Node} (h : a ∈ [b, c]) : a = b ∨ a = c :=
    (List.mem_cons.1 h).imp_right one
  cases n with
  | member m => cases h
  | stmt s =>
    simp only [stmt.sizeOf_spec]
    cases s with
    | hole => cases h
    | expr value span =>
      cases one h
      simp only [expr.sizeOf_spec, Stmt.expr.sizeOf_spec]
      omega
    | cond condition body span =>
      rcases two h with h | h <;> cases h <;>
        simp only [expr.sizeOf_spec, stmt.sizeOf_spec, Stmt.cond.sizeOf_spec] <;> omega
    | block body span =>
      obtain ⟨s, hs, he⟩ := List.mem_map.1 h
      have := List.sizeOf_lt_of_mem hs
      cases he
      simp only [stmt.sizeOf_spec, Stmt.block.sizeOf_spec]
      omega
    | decl head init =>
      obtain ⟨e, hm, he⟩ := List.mem_map.1 h
      cases he
      cases init with
      | none => cases hm
      | some v =>
        cases List.mem_singleton.1 hm
        simp only [expr.sizeOf_spec, Stmt.decl.sizeOf_spec, Option.some.sizeOf_spec]
        omega
    | directive name params span =>
      obtain ⟨e, hm, he⟩ := List.mem_map.1 h
      have := List.sizeOf_lt_of_mem hm
      cases he
      simp only [expr.sizeOf_spec, Stmt.directive.sizeOf_spec]
      omega
    | function head params body bodySpan =>
      cases one h
      cases head
      simp only [stmt.sizeOf_spec, Stmt.block.sizeOf_spec, Stmt.function.sizeOf_spec,
        Head.mk.sizeOf_spec]
      omega
    | struct attr name members span =>
      obtain ⟨m, hm, he⟩ := List.mem_map.1 h
      have := List.sizeOf_lt_of_mem hm
      cases he
      simp only [member.sizeOf_spec, Stmt.struct.sizeOf_spec]
      omega
  | expr e =>
    simp only [expr.sizeOf_spec]
    cases e with
    | hole => cases h
    | bool value span => cases h
    | number value span => cases h
    | string value span => cases h
    | ident name span => cases h
    | member container field span => cases h
    | binary op left right span =>
      rcases two h with h | h <;> cases h <;>
        simp only [expr.sizeOf_spec, Expr.binary.sizeOf_spec] <;> omega
    | unary op operand span =>
      cases one h
      simp only [expr.sizeOf_spec, Expr.unary.sizeOf_spec]
      omega
    | paren inner span =>
      cases one h
      simp only [expr.sizeOf_spec, Expr.paren.sizeOf_spec]
      omega
    | call callee args span =>
      rcases List.mem_cons.1 h with h | h
      · cases h
        simp only [expr.sizeOf_spec, Expr.call.sizeOf_spec]
        omega
      · obtain ⟨e, hm, he⟩ := List.mem_map.1 h
        have := List.sizeOf_lt_of_mem hm
        cases he
        simp only [expr.sizeOf_spec, Expr.call.sizeOf_spec]
        omega
    | construct type args span =>
      obtain ⟨e, hm, he⟩ := List.mem_map.1 h
      have := List.sizeOf_lt_of_mem hm
      cases he
      simp only [expr.sizeOf_spec, Expr.construct.sizeOf_spec]
      omega

end Node

/-- A node as a walk meets it. -/
structure Visit where
  /-- How many nodes lie above it. -/
  depth : Nat
  /-- What it is to the node above it. -/
  role : Role
  /-- The node itself. -/
  node : Node
  deriving Repr

/-- The walk over a node and everything below it. -/
def Node.walk (depth : Nat) (role : Role) (n : Node) : List Visit :=
  ⟨depth, role, n⟩ ::
    n.children.attach.flatMap fun c => c.val.2.walk (depth + 1) c.val.1
termination_by sizeOf n
decreasing_by exact sizeOf_lt_of_mem_children c.property

/-- After a node its children are walked over, one after the other. -/
theorem Node.walk_eq (depth : Nat) (role : Role) (n : Node) :
    n.walk depth role =
      ⟨depth, role, n⟩ :: n.children.flatMap fun c => c.2.walk (depth + 1) c.1 := by
  rw [Node.walk]
  congr 1
  conv => rhs; rw [← List.attach_map_subtype_val n.children, List.flatMap_map]

/-- What holds of a node whenever it holds of its children holds of every node. -/
theorem Node.child_induction {P : Node → Prop}
    (step : ∀ n, (∀ c ∈ n.children, P c.2) → P n) (n : Node) : P n :=
  step n fun c _hc => child_induction step c.2
termination_by sizeOf n
decreasing_by exact sizeOf_lt_of_mem_children _hc

/-- The walk over a program. -/
def walk (program : List Stmt) : List Visit :=
  program.flatMap fun s => (Node.stmt s).walk 0 .top

end ShaderFront
