import Mathlib.Data.List.Forall2
import ShaderFront.Grammar.Step
import ShaderFront.Tree.Node

/-!
# The written form of a program

A tree determines the row of symbols that it is written with, apart from one freedom:
the type of a struct member is known by its name only, and may be written as a name or
as a type word. The written form says for each place what may stand there.

Places that are left open, and modifiers without a spelling, are written with nothing.
-/

namespace ShaderFront

/-! ## Pieces -/

/-- A place of a written form. -/
inductive Piece where
  /-- A certain symbol stands there. -/
  | symbol (s : Symbol)
  /-- The type of a struct member stands there, known by its name. -/
  | memberType (name : Bytes)
  deriving DecidableEq, Repr

namespace Piece

/-- May this symbol stand at the place? -/
def fits : Piece → Symbol → Bool
  | symbol s, t => t = s
  | memberType name, t => memberTypeName? t = some name

/-- The place of a punctuation mark. -/
def mark (p : Punct) : Piece := .symbol (.punct p)

/-- The place of a name. -/
def ident (name : Bytes) : Piece := .symbol (.ident name)

/-- The place of an operator. -/
def op (o : Operator) : Piece := .symbol (.operator o)

/-- The place of a reserved word. -/
def word (k : Keyword) : Piece := .symbol (.keyword k)

/-- The place of a type outside structs: the type word if it is one. -/
def typeWord (type : Bytes) : Piece :=
  match Keyword.ofText? type with
  | some k => word k
  | none => ident type

@[simp] theorem fits_symbol (s t : Symbol) : (symbol s).fits t = true ↔ t = s := by
  simp [fits]

@[simp] theorem fits_mark (p : Punct) (t : Symbol) : (mark p).fits t = true ↔ t = .punct p := by
  simp [mark]

@[simp] theorem fits_ident (name : Bytes) (t : Symbol) :
    (ident name).fits t = true ↔ t = .ident name := by
  simp [ident]

@[simp] theorem fits_op (o : Operator) (t : Symbol) : (op o).fits t = true ↔ t = .operator o := by
  simp [op]

@[simp] theorem fits_word (k : Keyword) (t : Symbol) :
    (word k).fits t = true ↔ t = .keyword k := by
  simp [word]

@[simp] theorem fits_memberType (name : Bytes) (t : Symbol) :
    (memberType name).fits t = true ↔ memberTypeName? t = some name := by
  simp [fits]

end Piece

/-- A reserved word is found by its spelling. -/
@[simp] theorem Keyword.ofText?_spelling (k : Keyword) : ofText? (utf8 k.spelling) = some k := by
  cases k <;> decide

/-- A type word is written as itself. -/
@[simp] theorem Piece.typeWord_spelling (k : Keyword) : typeWord (utf8 k.spelling) = word k := by
  simp [typeWord]

/-! ## Trees -/

mutual

/-- The written form of an expression. -/
def Expr.surface : Expr → List Piece
  | .hole => []
  | .binary op left right _ => left.surface ++ Piece.op op :: right.surface
  | .unary op operand _ => Piece.op op :: operand.surface
  | .bool value _ => [.symbol (.bool value)]
  | .number value _ => [.symbol (.number value)]
  | .string value _ => [.symbol (.string value)]
  | .ident name _ => [Piece.ident name]
  | .paren inner _ => Piece.mark .openParen :: (inner.surface ++ [Piece.mark .closeParen])
  | .member container field _ => [Piece.ident container, Piece.mark .colon, Piece.ident field]
  | .call callee args _ =>
    callee.surface ++ Piece.mark .openParen :: (Expr.surfaceArgs args ++ [Piece.mark .closeParen])
  | .construct type args _ =>
    Piece.typeWord type :: Piece.mark .openParen ::
      (Expr.surfaceArgs args ++ [Piece.mark .closeParen])

/-- The written form of a list of arguments, with commas between them. -/
def Expr.surfaceArgs : List Expr → List Piece
  | [] => []
  | e :: es => e.surface ++ Expr.surfaceMore es

/-- The written form of further arguments, each after a comma. -/
def Expr.surfaceMore : List Expr → List Piece
  | [] => []
  | e :: es => Piece.mark .comma :: (e.surface ++ Expr.surfaceMore es)

end

/-- The written form of a modifier. -/
def Modifier.surface : Modifier → List Piece
  | .input => [Piece.word .input]
  | .unassigned _ => []

/-- The written form of the modifiers, the type and the name of a declaration. -/
def Head.surface (h : Head) : List Piece :=
  h.modifiers.flatMap Modifier.surface ++ [Piece.typeWord h.type, Piece.ident h.name]

/-- The written form of a struct member. -/
def Member.surface (m : Member) : List Piece :=
  [Piece.ident m.name, Piece.mark .colon, .memberType m.type, Piece.mark .semicolon]

/-- The written form of an initial value. -/
def surfaceInit : Option Expr → List Piece
  | none => []
  | some e => Piece.op .assign :: e.surface

mutual

/-- The written form of a statement. -/
def Stmt.surface : Stmt → List Piece
  | .hole => []
  | .expr value _ => value.surface ++ [Piece.mark .semicolon]
  | .cond condition body _ =>
    Piece.word .cond :: Piece.mark .openParen ::
      (condition.surface ++ Piece.mark .closeParen :: body.surface)
  | .block body _ => Piece.mark .openBrace :: (surface body ++ [Piece.mark .closeBrace])
  | .decl head init => head.surface ++ surfaceInit init ++ [Piece.mark .semicolon]
  | .directive name _ _ => [.symbol (.attr name)]
  | .function head _ body _ =>
    head.surface ++ Piece.mark .openParen :: Piece.mark .closeParen :: Piece.mark .openBrace ::
      (surface body ++ [Piece.mark .closeBrace])
  | .struct _ name members _ =>
    Piece.word .struct :: Piece.ident name :: Piece.mark .openBrace ::
      (members.flatMap Member.surface ++ [Piece.mark .closeBrace])

/-- The written form of a program. -/
def surface : List Stmt → List Piece
  | [] => []
  | s :: ss => s.surface ++ surface ss

end

/-- The written form of a node. -/
def Node.surface : Node → List Piece
  | .stmt s => s.surface
  | .expr e => e.surface
  | .member m => m.surface

/-- A further argument is written after a comma. -/
theorem Expr.surfaceMore_append (es fs : List Expr) :
    surfaceMore (es ++ fs) = surfaceMore es ++ surfaceMore fs := by
  induction es with
  | nil => rfl
  | cons e es ih => simp [surfaceMore, ih]

/-- The written form of two programs in a row. -/
@[simp] theorem surface_append (ss rs : List Stmt) :
    surface (ss ++ rs) = surface ss ++ surface rs := by
  induction ss with
  | nil => rfl
  | cons s ss ih => simp [surface, ih]

@[simp] theorem surface_singleton (s : Stmt) : surface [s] = s.surface := by
  simp [surface]

/-! ## Rows of tokens -/

/-- The row of tokens is one that the written form allows. -/
def Spells (pieces : List Piece) (ts : List Token) : Prop :=
  List.Forall₂ (fun p t => p.fits t.symbol = true) pieces ts

instance (pieces : List Piece) (ts : List Token) : Decidable (Spells pieces ts) :=
  inferInstanceAs (Decidable (List.Forall₂ _ pieces ts))

@[simp] theorem spells_nil {ts : List Token} : Spells [] ts ↔ ts = [] :=
  List.forall₂_nil_left_iff

theorem spells_cons {p : Piece} {ps : List Piece} {ts : List Token} :
    Spells (p :: ps) ts ↔ ∃ t us, ts = t :: us ∧ p.fits t.symbol = true ∧ Spells ps us := by
  unfold Spells
  rw [List.forall₂_cons_left_iff]
  constructor
  · rintro ⟨t, us, hp, hs, rfl⟩
    exact ⟨t, us, rfl, hp, hs⟩
  · rintro ⟨t, us, rfl, hp, hs⟩
    exact ⟨t, us, hp, hs, rfl⟩

theorem spells_append {ps qs : List Piece} {ts : List Token} :
    Spells (ps ++ qs) ts ↔ ∃ us vs, ts = us ++ vs ∧ Spells ps us ∧ Spells qs vs := by
  induction ps generalizing ts with
  | nil => simp
  | cons p ps ih =>
    rw [List.cons_append, spells_cons]
    constructor
    · rintro ⟨t, us, rfl, hp, hs⟩
      obtain ⟨vs, ws, rfl, hv, hw⟩ := ih.mp hs
      exact ⟨t :: vs, ws, rfl, spells_cons.mpr ⟨t, vs, rfl, hp, hv⟩, hw⟩
    · rintro ⟨us, vs, rfl, hu, hv⟩
      obtain ⟨t, us, rfl, hp, hs⟩ := spells_cons.mp hu
      exact ⟨t, us ++ vs, rfl, hp, ih.mpr ⟨us, vs, rfl, hs, hv⟩⟩

/-- A written form of one place is spelled by one token. -/
theorem spells_singleton {p : Piece} {ts : List Token} :
    Spells [p] ts ↔ ∃ t, ts = [t] ∧ p.fits t.symbol = true := by
  rw [spells_cons]
  constructor
  · rintro ⟨t, us, rfl, hp, hs⟩
    rw [spells_nil.mp hs]
    exact ⟨t, rfl, hp⟩
  · rintro ⟨t, rfl, hp⟩
    exact ⟨t, [], rfl, hp, spells_nil.mpr rfl⟩

end ShaderFront
