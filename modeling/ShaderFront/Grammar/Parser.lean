import ShaderFront.Grammar.Step

/-!
# Parsing

A row of tokens is read up to its first end token, or to its end if it has none. It is
a program if every token is taken and nothing is open at the end. Otherwise the first
token that is refused is reported, where a missing end token counts as one that stands
at the last token.

A parser remembers how far it got. After a failure the next attempt goes on with the
token that was refused, as if a program started there.
-/

namespace ShaderFront

/-- A refused token. -/
structure Fault where
  /-- Why it is refused. -/
  cause : Cause
  /-- Where it stands. -/
  pos : Position
  deriving DecidableEq, Repr

/-- The diagnostic of a refused token. The source text is not known here. -/
def Fault.diagnostic (f : Fault) : Diagnostic :=
  { kind := f.cause.kind, message := f.cause.message, span := .point f.pos }

/-- What became of an attempt to read a program. -/
structure Outcome where
  /-- How many tokens were taken. -/
  taken : Nat
  /-- The program, or the token that was refused. -/
  result : Except Fault (List Stmt)
  deriving Repr

/-- The outcome at the end of the tokens, which is at the given position. -/
def State.finish (s : State) (p : Position) : Outcome :=
  ⟨0, if s.isComplete then .ok s.finished.reverse else .error ⟨s.refusal .eof, p⟩⟩

/-- Read tokens into an unfinished program. The position stands for that of a missing
end token. -/
def State.run (o : Options) (last : Position) (s : State) : List Token → Outcome
  | [] => s.finish last
  | t :: ts =>
    if t.symbol = .eof then s.finish t.pos
    else match s.take? o t with
      | some next =>
        let outcome := next.run o last ts
        { outcome with taken := outcome.taken + 1 }
      | none => ⟨0, .error ⟨s.refusal t.symbol, t.pos⟩⟩

/-- Where a missing end token counts as standing: at the last token, if there is one. -/
def lastPosition (tokens : List Token) : Position :=
  match tokens.getLast? with
  | some t => t.pos
  | none => .none

/-- A row of tokens that is read as a program. -/
structure Parser where
  /-- The tokens. -/
  tokens : List Token
  /-- The extensions of the grammar that are in force. -/
  options : Options := {}
  /-- How many tokens were taken so far. -/
  cursor : Nat := 0
  deriving Repr

/-- Read a program from where the parser has got to. -/
def Parser.parse (p : Parser) : Except Diagnostic (List Stmt) × Parser :=
  let outcome := State.start.run p.options (lastPosition p.tokens) (p.tokens.drop p.cursor)
  (outcome.result.mapError Fault.diagnostic, { p with cursor := p.cursor + outcome.taken })

end ShaderFront
