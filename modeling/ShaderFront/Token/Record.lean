import ShaderFront.Token.Basic

/-!
# Token records

Tokens are exchanged as flat records in which every field is always there. Only the
field that belongs to the sort of the token carries meaning; the others are ignored
when a record is read and empty when one is made.
-/

namespace ShaderFront

/-- A token with a field for everything that a token of some sort may carry. -/
structure TokenRecord where
  /-- The sort of the token. -/
  kind : TokenKind
  /-- The operator, of an operator. -/
  op : Operator := .empty
  /-- The truth value, of a truth value. -/
  bool : Bool := false
  /-- The value, of a number literal. -/
  number : Binary64 := .zero
  /-- The text, of a string literal, a name or an attribute. -/
  text : Bytes := []
  /-- The text that the token was read from. -/
  lexeme : Bytes := []
  /-- Where that text starts. -/
  pos : Position := .none
  deriving DecidableEq, Repr

/-- The symbol that a record stands for. -/
def TokenRecord.symbol (r : TokenRecord) : Symbol :=
  match r.kind with
  | .eof => .eof
  | .punct p => .punct p
  | .operator => .operator r.op
  | .bool => .bool r.bool
  | .number => .number r.number
  | .string => .string r.text
  | .ident => .ident r.text
  | .attr => .attr r.text
  | .keyword k => .keyword k
  | .unassigned n => .unassigned n

/-- The token that a record stands for. -/
def Token.ofRecord (r : TokenRecord) : Token :=
  ⟨r.symbol, r.lexeme, r.pos⟩

/-- The record of a token, empty in every field that does not belong to its sort. -/
def Token.toRecord (t : Token) : TokenRecord :=
  let bare : TokenRecord := { kind := t.symbol.kind, lexeme := t.lexeme, pos := t.pos }
  match t.symbol with
  | .operator op => { bare with op := op }
  | .bool value => { bare with bool := value }
  | .number value => { bare with number := value }
  | .string s | .ident s | .attr s => { bare with text := s }
  | .eof | .punct _ | .keyword _ | .unassigned _ => bare

@[simp] theorem Token.ofRecord_toRecord (t : Token) : Token.ofRecord t.toRecord = t := by
  obtain ⟨s, lexeme, pos⟩ := t
  cases s <;> rfl

end ShaderFront
