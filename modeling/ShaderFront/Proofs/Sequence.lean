import ShaderFront.Proofs.Action
import ShaderFront.Proofs.Run

/-!
# Programs one after the other

A complete statement does not matter to the statements after it. So a row of tokens
that is a program, with any other row after it, is read as that program and then
whatever the other row is read as.
-/

namespace ShaderFront

/-! ## Statements that are already there -/

/-- The unfinished program with complete statements before it, newest first. -/
def State.onto (s : State) (done : List Stmt) : State :=
  { s with finished := s.finished ++ done }

/-- A complete statement is added after those that are already there. -/
theorem addStatement_onto (s : Stmt) (more done : List Stmt) (scopes : List Scope) :
    addStatement s (more ++ done) scopes = (addStatement s more scopes).onto done := by
  induction scopes generalizing s with
  | nil => rfl
  | cons scope scopes ih =>
    cases scope with
    | guard start condition => exact ih _
    | block opened inner => rfl
    | function head opened inner => rfl

/-- A block closes whatever is there before it. -/
theorem closeBlock?_onto (s : State) (done : List Stmt) :
    closeBlock? (s.onto done) = (closeBlock? s).map (·.onto done) := by
  obtain ⟨more, scopes, mode⟩ := s
  cases scopes with
  | nil => rfl
  | cons scope scopes =>
    cases scope with
    | guard start condition => rfl
    | block opened inner => exact congrArg some (addStatement_onto _ more done scopes)
    | function head opened inner => exact congrArg some (addStatement_onto _ more done scopes)

/-- What a token does happens after the statements that are already there. -/
theorem Action.perform?_onto (s : State) (done : List Stmt) (x : Action) :
    x.perform? (s.onto done) = (x.perform? s).map (·.onto done) := by
  cases x with
  | proceed mode => rfl
  | complete r => exact congrArg some (addStatement_onto r s.finished done s.scopes)
  | enter scope => rfl
  | leave => exact closeBlock?_onto s done

namespace State

/-- A token is taken, or refused, whatever complete statements are there. -/
theorem take?_onto (o : Options) (s : State) (done : List Stmt) (t : Token) :
    (s.onto done).take? o t = (s.take? o t).map (·.onto done) := by
  obtain ⟨more, scopes, mode⟩ := s
  obtain ⟨a, -, ha⟩ := exists_action o mode t
  have honto : (⟨more, scopes, mode⟩ : State).onto done = ⟨more ++ done, scopes, mode⟩ := rfl
  rw [honto, ha, ha, ← honto]
  cases a with
  | none => rfl
  | some x => exact x.perform?_onto _ done

end State

/-- The outcome with the statements of a program before those that were read. -/
def Outcome.after (outcome : Outcome) (program : List Stmt) : Outcome :=
  { outcome with result := outcome.result.map (program ++ ·) }

namespace State

/-- The end of the tokens comes after the statements that are already there. -/
theorem finish_onto (s : State) (done : List Stmt) (p : Position) :
    (s.onto done).finish p = (s.finish p).after done.reverse := by
  have hcomplete : (s.onto done).isComplete = s.isComplete := rfl
  have hrefusal : (s.onto done).refusal .eof = s.refusal .eof := rfl
  unfold finish Outcome.after
  rw [hcomplete, hrefusal]
  split
  · simp [onto, Except.map]
  · rfl

/-- A row of tokens is read after the statements that are already there. -/
theorem run_onto (o : Options) (last : Position) (s : State) (done : List Stmt)
    (ts : List Token) : (s.onto done).run o last ts = (s.run o last ts).after done.reverse := by
  induction ts generalizing s with
  | nil => exact s.finish_onto done last
  | cons t ts ih =>
    rw [run, run, take?_onto]
    split
    · exact s.finish_onto done t.pos
    · cases s.take? o t with
      | none => rfl
      | some next =>
        dsimp only [Option.map_some]
        rw [ih next]
        rfl

/-- Between statements that nothing encloses, only the complete ones are there. -/
theorem eq_onto_of_isComplete {s : State} (h : s.isComplete = true) :
    s = State.start.onto s.finished := by
  obtain ⟨done, scopes, mode⟩ := s
  simp only [isComplete, Bool.and_eq_true, List.isEmpty_iff] at h
  obtain ⟨rfl, hm⟩ := h
  cases mode with
  | statement => rfl
  | _ => cases hm

end State

/-! ## Where a missing end token counts as standing -/

/-- The last token of two rows is that of the second one, if it has any. -/
theorem lastPosition_append (ts : List Token) {us : List Token} (h : us ≠ []) :
    lastPosition (ts ++ us) = lastPosition us := by
  have hlast : us.getLast? = some (us.getLast h) := List.getLast?_eq_some_getLast h
  rw [lastPosition, lastPosition, List.getLast?_append, hlast]
  rfl

/-- A row is read from the start in the same way whatever stands before it. -/
theorem run_start_append (o : Options) (ts us : List Token) :
    State.start.run o (lastPosition (ts ++ us)) us = State.start.run o (lastPosition us) us := by
  cases us with
  | nil => rfl
  | cons u us => rw [lastPosition_append ts (List.cons_ne_nil u us)]

/-! ## Two rows -/

/-- A program without an end token, with any row of tokens after it, is read as that
program and then what the row is read as. If the row is no program, it is refused at the
same token and for the same reason as by itself. -/
theorem parse_append (o : Options) (ts us : List Token) (program : List Stmt)
    (ha : ∀ t ∈ ts, t.symbol ≠ .eof) (hp : (Parser.fresh o ts).parse.1 = .ok program) :
    (Parser.fresh o (ts ++ us)).parse.1 = (Parser.fresh o us).parse.1.map (program ++ ·) ∧
      (Parser.fresh o (ts ++ us)).parse.2.cursor =
        ts.length + (Parser.fresh o us).parse.2.cursor := by
  obtain ⟨next, ht, hc, rfl⟩ := takeAll?_of_parse hp
  have hall : beforeEnd ts = ts := by
    simpa using @beforeEnd_append ts [] ha rfl
  rw [hall] at ht
  have hrun : State.start.run o (lastPosition (ts ++ us)) (ts ++ us) =
      ⟨(State.start.run o (lastPosition us) us).taken + ts.length,
        (State.start.run o (lastPosition us) us).result.map (next.finished.reverse ++ ·)⟩ := by
    rw [State.run_append ht, State.eq_onto_of_isComplete hc, State.run_onto, run_start_append]
    rfl
  simp only [Parser.parse, Parser.fresh, List.drop_zero, hrun]
  constructor
  · cases (State.start.run o (lastPosition us) us).result <;> rfl
  · omega

/-- The tokens of a condition with an empty block, and of a directive. -/
def guardedBlockTokens : List Token :=
  [.keyword .cond, .punct .openParen, .ident [97], .punct .closeParen, .punct .openBrace,
    .punct .closeBrace, .attr [120]].map Symbol.token

/-- A brace that closes nothing. -/
def strayBrace : List Token := [Symbol.token (.punct .closeBrace)]

theorem parse_append_guardedBlock :
    ∃ program d, (Parser.fresh {} guardedBlockTokens).parse.1 = .ok program ∧
      (Parser.fresh {} strayBrace).parse.1 = .error d ∧
      (Parser.fresh {} (guardedBlockTokens ++ strayBrace)).parse.1 = .error d ∧
      (Parser.fresh {} (guardedBlockTokens ++ strayBrace)).parse.2.cursor = 7 := by
  have hend : ∀ t ∈ guardedBlockTokens, t.symbol ≠ .eof := by
    simp [guardedBlockTokens, Symbol.token]
  obtain ⟨hresult, hcursor⟩ := parse_append {} guardedBlockTokens strayBrace _ hend rfl
  exact ⟨_, _, rfl, rfl, hresult, hcursor⟩

end ShaderFront
