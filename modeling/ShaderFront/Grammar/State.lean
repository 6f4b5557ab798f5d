import ShaderFront.Token.Basic
import ShaderFront.Tree.Basic

/-!
# Unfinished programs

Between two tokens a program is unfinished in a certain way: some statements are
complete, some enclosing ones are open, and the innermost one has got to a certain
point. This is all that later tokens can depend on.

Lists of finished parts are kept newest first.
-/

namespace ShaderFront

/-- Extensions of the grammar. By default there are none. -/
structure Options where
  /-- Keep every member of a struct and allow a struct without members; otherwise all
  members are read but only the first is kept. -/
  allMembers : Bool := false
  /-- Allow calls with several arguments. -/
  manyArguments : Bool := false
  /-- Let assignments group to the right instead of the left. -/
  assignRight : Bool := false
  deriving DecidableEq, Repr

/-- A statement that encloses the current one. -/
inductive Scope where
  /-- A block with the statements in it so far. -/
  | block (opened : Position) (inner : List Stmt)
  /-- A function with the statements in its block so far. -/
  | function (head : Head) (opened : Position) (inner : List Stmt)
  /-- A condition that waits for the statement it guards. -/
  | guard (start : Position) (condition : Expr)
  deriving Repr

/-- What the current expression is for. -/
inductive Host where
  /-- It is a statement by itself. -/
  | statement (start : Position)
  /-- It is the condition of an `if`. -/
  | condition (start : Position)
  /-- It is the initial value of a variable. -/
  | initial (head : Head)
  deriving Repr

/-- A part of an expression that waits for the operand that is being read. -/
inductive Frame where
  /-- An operator before the operand. -/
  | unary (op : Operator) (start : Position)
  /-- A left operand and the operator after it. -/
  | binary (left : Expr) (op : Operator)
  /-- An opening parenthesis. -/
  | paren (start : Position)
  /-- A call with the arguments so far, and where its parenthesis opened. -/
  | call (callee : Expr) (opened : Position) (args : List Expr)
  /-- A vector with the components so far. -/
  | construct (type : Keyword) (start : Position) (args : List Expr)
  deriving Repr

/-- How far the operand that is being read has got. -/
inductive Point where
  /-- Nothing of it is there. -/
  | operand
  /-- Nothing of it is there, and the list that it is in may also end. -/
  | firstArgument
  /-- A name, which may be a container or be called. -/
  | name (name : Bytes) (start : Position)
  /-- A container and a colon. -/
  | field (container : Bytes) (start : Position)
  /-- A field, which may be called. -/
  | member (container field : Bytes) (start : Position)
  /-- The type of a vector. -/
  | vector (type : Keyword) (start : Position)
  /-- All of it. -/
  | complete (value : Expr)
  deriving Repr

/-- A struct with the members that are kept so far. -/
structure OpenStruct where
  /-- The name of the struct. -/
  name : Bytes
  /-- Where the struct starts. -/
  start : Position
  /-- The members so far. -/
  members : List Member := []
  deriving Repr

/-- The point that the innermost statement has got to. -/
inductive Mode where
  /-- Nothing of it is there. -/
  | statement
  /-- `if` -/
  | conditionStart (start : Position)
  /-- The modifier of a declaration. -/
  | modified (start : Position)
  /-- The modifiers and the type of a declaration. -/
  | typed (modifiers : List Modifier) (type : Keyword) (start : Position)
  /-- A declaration up to its name. -/
  | declared (head : Head)
  /-- A function up to its opening parenthesis. -/
  | parameters (head : Head)
  /-- A function up to its closing parenthesis. -/
  | functionBody (head : Head)
  /-- `struct` -/
  | structName (start : Position)
  /-- A struct up to its name. -/
  | structStart (name : Bytes) (start : Position)
  /-- A struct between two members. -/
  | members (s : OpenStruct)
  /-- A struct up to the name of a member. -/
  | memberColon (s : OpenStruct) (name : Bytes) (start : Position)
  /-- A struct up to the colon of a member. -/
  | memberType (s : OpenStruct) (name : Bytes) (start : Position)
  /-- A struct up to the type of a member. -/
  | memberEnd (s : OpenStruct) (member : Member)
  /-- An expression with the parts of it that wait, innermost first. -/
  | expression (host : Host) (frames : List Frame) (point : Point)
  deriving Repr

/-- An unfinished program. -/
structure State where
  /-- The complete statements of the program. -/
  finished : List Stmt := []
  /-- The statements that enclose the current one, innermost first. -/
  scopes : List Scope := []
  /-- The point that the current statement has got to. -/
  mode : Mode := .statement
  deriving Repr

namespace State

/-- The program before its first token. -/
def start : State := {}

/-- Is nothing open, so that the program may end here? -/
def isComplete (s : State) : Bool :=
  s.scopes.isEmpty && match s.mode with
    | .statement => true
    | _ => false

/-- Continue in another mode. -/
def withMode (s : State) (mode : Mode) : State :=
  { s with mode := mode }

/-- Open a statement around the next one. -/
def enter (s : State) (scope : Scope) : State :=
  { s with scopes := scope :: s.scopes, mode := .statement }

end State

/-- Add a complete statement to the innermost list of statements. A condition that
waits for it becomes complete with it. -/
def addStatement (s : Stmt) (finished : List Stmt) : List Scope → State
  | [] => { finished := s :: finished }
  | .guard start condition :: scopes =>
    addStatement (.cond condition s (.startingAt start)) finished scopes
  | .block opened inner :: scopes =>
    { finished := finished, scopes := .block opened (s :: inner) :: scopes }
  | .function head opened inner :: scopes =>
    { finished := finished, scopes := .function head opened (s :: inner) :: scopes }

/-- The program with its current statement complete. -/
def State.complete (state : State) (s : Stmt) : State :=
  addStatement s state.finished state.scopes

end ShaderFront
