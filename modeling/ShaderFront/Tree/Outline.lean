import ShaderFront.Number.Written
import ShaderFront.Text.Quoted
import ShaderFront.Tree.Basic

/-!
# Outlines

A program is shown as an outline with a line for each node. The line says what the
node is, and the lines of its children follow, indented by two more blanks.
-/

namespace ShaderFront

/-- A line of an outline. -/
structure Line where
  /-- How deep the line is indented, in steps of two blanks. -/
  depth : Nat
  /-- What the line says. -/
  label : Bytes
  deriving DecidableEq, Repr

/-- The text of a line. -/
def Line.text (l : Line) : Bytes :=
  blanks (2 * l.depth) ++ l.label ++ [lineFeed]

/-- Texts with a comma and a blank between them. -/
def commaSeparated (texts : List Bytes) : Bytes :=
  (utf8 ", ").intercalate texts

/-- Modifiers, type and name, with a blank after each of the first two. -/
def Head.text (h : Head) : Bytes :=
  h.modifiers.flatMap (fun m => utf8 m.spelling ++ [blank]) ++ h.type ++ [blank] ++ h.name

/-- What the line of a struct member says. -/
def Member.label (m : Member) : Bytes :=
  utf8 "Member " ++ m.name ++ utf8 ": " ++ m.type

/-- What the line of an expression says. -/
def Expr.label : Expr → Bytes
  | hole => utf8 "<unknown expression <nil>>"
  | binary op _ _ _ => utf8 "Binary " ++ utf8 op.spelling
  | unary op _ _ => utf8 "Unary " ++ utf8 op.spelling
  | bool value _ => utf8 "Bool " ++ utf8 (if value then "true" else "false")
  | number value _ => utf8 "Number " ++ value.text
  | string value _ => utf8 "String " ++ quoted value
  | ident name _ => utf8 "Ident " ++ name
  | paren _ _ => utf8 "Paren"
  | member container field _ => utf8 "Member " ++ container ++ utf8 ":" ++ field
  | call _ _ _ => utf8 "Call"
  | construct type _ _ => utf8 "Construct " ++ type

/-- What the line of a statement says. -/
def Stmt.label : Stmt → Bytes
  | hole => utf8 "<unknown statement <nil>>"
  | expr _ _ => utf8 "Expr"
  | cond _ _ _ => utf8 "If"
  | block _ _ => utf8 "Block"
  | decl head _ => utf8 "Decl " ++ head.text
  | directive name _ _ => utf8 "Directive " ++ name
  | function head params _ _ =>
    utf8 "Function " ++ head.text ++ utf8 "(" ++ commaSeparated params ++ utf8 ")"
  | struct _ name _ _ => utf8 "Struct " ++ name

mutual

/-- The outline of an expression. -/
def Expr.outline (depth : Nat) (e : Expr) : List Line :=
  ⟨depth, e.label⟩ :: match e with
    | .binary _ left right _ => left.outline (depth + 1) ++ right.outline (depth + 1)
    | .unary _ operand _ => operand.outline (depth + 1)
    | .paren inner _ => inner.outline (depth + 1)
    | .call callee args _ => callee.outline (depth + 1) ++ Expr.outlines (depth + 1) args
    | .construct _ args _ => Expr.outlines (depth + 1) args
    | .hole | .bool .. | .number .. | .string .. | .ident .. | .member .. => []

/-- The outlines of expressions, one after the other. -/
def Expr.outlines (depth : Nat) : List Expr → List Line
  | [] => []
  | e :: es => e.outline depth ++ Expr.outlines depth es

end

mutual

/-- The outline of a statement. A function has its block below it. -/
def Stmt.outline (depth : Nat) (s : Stmt) : List Line :=
  ⟨depth, s.label⟩ :: match s with
    | .expr value _ => value.outline (depth + 1)
    | .cond condition body _ => condition.outline (depth + 1) ++ body.outline (depth + 1)
    | .block body _ => Stmt.outlines (depth + 1) body
    | .decl _ (some init) => init.outline (depth + 1)
    | .directive _ params _ => Expr.outlines (depth + 1) params
    | .function _ _ body _ => ⟨depth + 1, utf8 "Block"⟩ :: Stmt.outlines (depth + 2) body
    | .struct _ _ members _ => members.map fun m => ⟨depth + 1, m.label⟩
    | .hole | .decl _ none => []

/-- The outlines of statements, one after the other. -/
def Stmt.outlines (depth : Nat) : List Stmt → List Line
  | [] => []
  | s :: ss => s.outline depth ++ Stmt.outlines depth ss

end

/-- The outline of a program. -/
def outline (program : List Stmt) : List Line :=
  Stmt.outlines 0 program

/-- The text of the outline of a program. -/
def dump (program : List Stmt) : Bytes :=
  (outline program).flatMap Line.text

end ShaderFront
