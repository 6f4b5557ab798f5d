import ShaderFront.Grammar.Parser
import ShaderFront.Token.Scan

/-!
# From text to program

The two stages of reading a source text, and both in a row. A failure says which stage
it comes from.
-/

namespace ShaderFront

/-- A stage of reading a source text. -/
inductive Stage where
  /-- From bytes to tokens. -/
  | scanning
  /-- From tokens to a program. -/
  | parsing
  deriving DecidableEq, Repr

/-- What a failure of a stage is called. -/
def Stage.label : Stage → String
  | scanning => "tokenization error: "
  | parsing => "parse error: "

/-- A failure of a stage. -/
structure Failure where
  /-- The stage that failed. -/
  stage : Stage
  /-- What is wrong. -/
  diagnostic : Diagnostic
  deriving DecidableEq, Repr

namespace Failure

/-- A failure in one piece of text. -/
def text (f : Failure) : Bytes :=
  utf8 f.stage.label ++ f.diagnostic.headline

/-- The failure with the source text at hand, unless some text is there already. -/
def attach (f : Failure) (source : Bytes) : Failure :=
  if f.diagnostic.source.isEmpty then { f with diagnostic := f.diagnostic.withSource source }
  else f

end Failure

/-- The tokens of a source text. -/
def scanSource (source : Bytes) : Except Failure (List Token) :=
  (tokenize source).mapError fun d => ⟨.scanning, d⟩

/-- The program of a row of tokens. -/
def parseTokens (o : Options) (tokens : List Token) : Except Failure (List Stmt) :=
  ({ tokens := tokens, options := o : Parser }.parse.1).mapError fun d => ⟨.parsing, d⟩

/-- The program of a source text. A failure has the text at hand. -/
def parseSource (o : Options) (source : Bytes) : Except Failure (List Stmt) := do
  let tokens ← scanSource source
  (parseTokens o tokens).mapError (·.attach source)

end ShaderFront
