import ShaderFront.Proofs.Run
import ShaderFront.Proofs.Step

/-!
# Faults are found as early as possible

Every unfinished program can be finished: some tokens close all that is open. So the
tokens before a refused one are the start of a program, and the refused token is the
first that fits no program at all. What is reported depends on nothing after it.
-/

namespace ShaderFront

/-! ## Finishing a program -/

/-- Some tokens lead from the unfinished program to a complete one. -/
def State.Completable (o : Options) (s : State) : Prop :=
  ∃ ts next, s.takeAll? o ts = some next ∧ next.isComplete = true

/-- What leads on to a program that can be finished can be finished. -/
theorem State.Completable.of_takes {o : Options} {done : List Stmt} {scopes : List Scope}
    {mode : Mode} {t : Token} {next : State} (ht : Takes o done scopes t mode next)
    (h : next.Completable o) : (⟨done, scopes, mode⟩ : State).Completable o := by
  obtain ⟨ts, last, hts, hc⟩ := h
  refine ⟨t :: ts, last, ?_, hc⟩
  rw [State.takeAll?_cons, State.take?_of_takes ht]
  exact hts

/-- A complete statement opens nothing. -/
theorem length_scopes_addStatement (s : Stmt) (done : List Stmt) (scopes : List Scope) :
    (addStatement s done scopes).scopes.length ≤ scopes.length := by
  induction scopes generalizing s with
  | nil => exact Nat.le_refl 0
  | cons scope scopes ih =>
    cases scope with
    | guard start condition => exact Nat.le_succ_of_le (ih _)
    | block opened inner => exact Nat.le_refl _
    | function head opened inner => exact Nat.le_refl _

/-- Where a statement may start, the enclosing ones can be closed one after the other. -/
theorem completable_statement (o : Options) :
    ∀ (n : Nat) (s : State), s.mode = .statement → s.scopes.length ≤ n → s.Completable o := by
  intro n
  induction n with
  | zero =>
    intro s hm hn
    have hs : s.scopes = [] := List.length_eq_zero_iff.mp (by omega)
    exact ⟨[], s, rfl, by simp [State.isComplete, hs, hm]⟩
  | succ n ih =>
    rintro ⟨done, scopes, mode⟩ rfl hn
    -- What is left open after one more statement has fewer scopes.
    have hclose (s : Stmt) (outer : List Scope) (ho : outer.length ≤ n) :
        (addStatement s done outer).Completable o := by
      have hle := length_scopes_addStatement s done outer
      exact ih _ (mode_addStatement s done outer) (by omega)
    cases scopes with
    | nil => exact ⟨[], _, rfl, rfl⟩
    | cons scope outer =>
      have ho : outer.length ≤ n := by
        rw [List.length_cons] at hn
        omega
      cases scope with
      | guard start condition =>
        exact .of_takes (t := Symbol.token (.attr [])) (.directive rfl) (hclose _ outer ho)
      | block opened inner =>
        exact .of_takes (t := Symbol.token (.punct .closeBrace)) (.closeBlock rfl rfl)
          (hclose _ outer ho)
      | function head opened inner =>
        exact .of_takes (t := Symbol.token (.punct .closeBrace)) (.closeFunction rfl rfl)
          (hclose _ outer ho)

theorem completable_addStatement (o : Options) (s : Stmt) (done : List Stmt)
    (scopes : List Scope) : (addStatement s done scopes).Completable o :=
  completable_statement o _ _ (mode_addStatement s done scopes) (Nat.le_refl _)

/-! ## Finishing an expression -/

/-- Is the frame a bracket, which a closing parenthesis ends? -/
def Frame.isBracket : Frame → Bool
  | .unary _ _ | .binary _ _ => false
  | .paren _ | .call _ _ _ | .construct _ _ _ => true

/-- Completing all operators leaves nothing, or the innermost bracket. -/
theorem groupAll_cases (e : Expr) (frames : List Frame) :
    (∃ v, groupAll e frames = (v, [])) ∨
      ∃ v f outer, groupAll e frames = (v, f :: outer) ∧ f.isBracket = true ∧
        outer.length < frames.length := by
  induction frames generalizing e with
  | nil => exact .inl ⟨e, rfl⟩
  | cons f frames ih =>
    cases f with
    | unary op start =>
      rcases ih (.unary op e (.startingAt start)) with ⟨v, hv⟩ | ⟨v, f, outer, hv, hf, ho⟩
      · exact .inl ⟨v, hv⟩
      · exact .inr ⟨v, f, outer, hv, hf, Nat.lt_succ_of_lt ho⟩
    | binary left op =>
      rcases ih (.binary op left e left.span) with ⟨v, hv⟩ | ⟨v, f, outer, hv, hf, ho⟩
      · exact .inl ⟨v, hv⟩
      · exact .inr ⟨v, f, outer, hv, hf, Nat.lt_succ_of_lt ho⟩
    | paren start => exact .inr ⟨e, _, frames, rfl, rfl, Nat.lt_succ_self _⟩
    | call callee opened args => exact .inr ⟨e, _, frames, rfl, rfl, Nat.lt_succ_self _⟩
    | construct type start args => exact .inr ⟨e, _, frames, rfl, rfl, Nat.lt_succ_self _⟩

/-- After a complete operand the brackets around it can be closed, and then the statement
that it belongs to. -/
theorem completable_value (o : Options) (done : List Stmt) (scopes : List Scope) (host : Host)
    (frames : List Frame) (p : Point) (e : Expr) (hp : p.value? = some e) :
    (⟨done, scopes, .expression host frames p⟩ : State).Completable o := by
  rcases groupAll_cases e frames with ⟨v, hg⟩ | ⟨v, f, outer, hg, hf, ho⟩
  · cases host with
    | statement start =>
      exact .of_takes (t := Symbol.token (.punct .semicolon)) (.after hp (.statementEnd rfl rfl hg))
        (completable_addStatement o _ done scopes)
    | initial head =>
      exact .of_takes (t := Symbol.token (.punct .semicolon))
        (.after hp (.declarationEnd rfl rfl hg)) (completable_addStatement o _ done scopes)
    | condition start =>
      exact .of_takes (t := Symbol.token (.punct .closeParen))
        (.after hp (.conditionEnd rfl rfl hg)) (completable_statement o _ _ rfl (Nat.le_refl _))
  · cases f with
    | unary op start => cases hf
    | binary left op => cases hf
    | paren start =>
      exact .of_takes (t := Symbol.token (.punct .closeParen)) (.after hp (.parenEnd rfl hg))
        (completable_value o done scopes host outer _ _ rfl)
    | call callee opened args =>
      exact .of_takes (t := Symbol.token (.punct .closeParen)) (.after hp (.callEnd rfl hg))
        (completable_value o done scopes host outer _ _ rfl)
    | construct type start args =>
      exact .of_takes (t := Symbol.token (.punct .closeParen)) (.after hp (.constructEnd rfl hg))
        (completable_value o done scopes host outer _ _ rfl)
termination_by frames.length

/-- Where an operand must or may start, a name can stand. -/
theorem completable_operand (o : Options) (done : List Stmt) (scopes : List Scope) (host : Host)
    (frames : List Frame) {p : Point} (hp : p = .operand ∨ p = .firstArgument) :
    (⟨done, scopes, .expression host frames p⟩ : State).Completable o :=
  .of_takes (t := Symbol.token (.ident [])) (.operand hp (.name rfl))
    (completable_value o done scopes host frames _ _ rfl)

/-- Every unfinished expression can be finished. -/
theorem completable_expression (o : Options) (done : List Stmt) (scopes : List Scope)
    (host : Host) (frames : List Frame) (p : Point) :
    (⟨done, scopes, .expression host frames p⟩ : State).Completable o := by
  cases p with
  | operand => exact completable_operand o done scopes host frames (.inl rfl)
  | firstArgument => exact completable_operand o done scopes host frames (.inr rfl)
  | name n start => exact completable_value o done scopes host frames _ _ rfl
  | member container f start => exact completable_value o done scopes host frames _ _ rfl
  | complete value => exact completable_value o done scopes host frames _ _ rfl
  | field container start =>
    exact .of_takes (t := Symbol.token (.ident [])) (.field rfl)
      (completable_value o done scopes host frames _ _ rfl)
  | vector type start =>
    exact .of_takes (t := Symbol.token (.punct .openParen)) (.openConstruct rfl)
      (completable_operand o done scopes host _ (.inr rfl))

/-! ## Finishing a declaration or a struct -/

theorem completable_declared (o : Options) (done : List Stmt) (scopes : List Scope)
    (head : Head) : (⟨done, scopes, .declared head⟩ : State).Completable o :=
  .of_takes (t := Symbol.token (.punct .semicolon)) (.declared rfl)
    (completable_addStatement o _ done scopes)

theorem completable_typed (o : Options) (done : List Stmt) (scopes : List Scope)
    (modifiers : List Modifier) (k : Keyword) (start : Position) :
    (⟨done, scopes, .typed modifiers k start⟩ : State).Completable o :=
  .of_takes (t := Symbol.token (.ident [])) (.declare rfl)
    (completable_declared o done scopes _)

theorem completable_functionBody (o : Options) (done : List Stmt) (scopes : List Scope)
    (head : Head) : (⟨done, scopes, .functionBody head⟩ : State).Completable o :=
  .of_takes (t := Symbol.token (.punct .openBrace)) (.openFunction rfl)
    (completable_statement o _ _ rfl (Nat.le_refl _))

/-- A struct with the member that is read next is not empty. -/
theorem OpenStruct.members_add_ne_nil (o : Options) (s : OpenStruct) (m : Member) :
    (s.add o m).members ≠ [] := by
  unfold OpenStruct.add
  split
  · simp
  · next h =>
    intro he
    simp [he] at h

theorem completable_memberEnd (o : Options) (done : List Stmt) (scopes : List Scope)
    (s : OpenStruct) (m : Member) :
    (⟨done, scopes, .memberEnd s m⟩ : State).Completable o :=
  .of_takes (t := Symbol.token (.punct .semicolon)) (.memberEnd rfl)
    (.of_takes (t := Symbol.token (.punct .closeBrace))
      (.closeStruct rfl (.inl (s.members_add_ne_nil o m)))
      (completable_addStatement o _ done scopes))

theorem completable_memberType (o : Options) (done : List Stmt) (scopes : List Scope)
    (s : OpenStruct) (name : Bytes) (start : Position) :
    (⟨done, scopes, .memberType s name start⟩ : State).Completable o :=
  .of_takes (t := Symbol.token (.ident [])) (.memberType rfl)
    (completable_memberEnd o done scopes s _)

theorem completable_memberColon (o : Options) (done : List Stmt) (scopes : List Scope)
    (s : OpenStruct) (name : Bytes) (start : Position) :
    (⟨done, scopes, .memberColon s name start⟩ : State).Completable o :=
  .of_takes (t := Symbol.token (.punct .colon)) (.memberColon rfl)
    (completable_memberType o done scopes s name start)

/-- A further member can be read, even where the struct may end. -/
theorem completable_members (o : Options) (done : List Stmt) (scopes : List Scope)
    (s : OpenStruct) : (⟨done, scopes, .members s⟩ : State).Completable o :=
  .of_takes (t := Symbol.token (.ident [])) (.memberName rfl)
    (completable_memberColon o done scopes s [] _)

theorem completable_structStart (o : Options) (done : List Stmt) (scopes : List Scope)
    (name : Bytes) (start : Position) :
    (⟨done, scopes, .structStart name start⟩ : State).Completable o :=
  .of_takes (t := Symbol.token (.punct .openBrace)) (.openStruct rfl)
    (completable_members o done scopes _)

/-- Every unfinished program can be finished. -/
theorem State.completable (o : Options) (s : State) : s.Completable o := by
  obtain ⟨done, scopes, mode⟩ := s
  cases mode with
  | statement => exact completable_statement o _ _ rfl (Nat.le_refl _)
  | conditionStart start =>
    exact .of_takes (t := Symbol.token (.punct .openParen)) (.openCondition rfl)
      (completable_expression o done scopes _ _ _)
  | modified start =>
    exact .of_takes (t := Symbol.token (.keyword .float)) (.modifiedType rfl rfl)
      (completable_typed o done scopes _ _ _)
  | typed modifiers type start => exact completable_typed o done scopes _ _ _
  | declared head => exact completable_declared o done scopes head
  | parameters head =>
    exact .of_takes (t := Symbol.token (.punct .closeParen)) (.closeParameters rfl)
      (completable_functionBody o done scopes head)
  | functionBody head => exact completable_functionBody o done scopes head
  | structName start =>
    exact .of_takes (t := Symbol.token (.ident [])) (.structName rfl)
      (completable_structStart o done scopes [] start)
  | structStart name start => exact completable_structStart o done scopes name start
  | members s => exact completable_members o done scopes s
  | memberColon s name start => exact completable_memberColon o done scopes s name start
  | memberType s name start => exact completable_memberType o done scopes s name start
  | memberEnd s m => exact completable_memberEnd o done scopes s m
  | expression host frames point => exact completable_expression o done scopes host frames point

/-! ## Refused tokens -/

/-- Tokens that are taken are the start of some program. -/
theorem exists_continuation {o : Options} {ts : List Token} {next : State}
    (h : State.start.takeAll? o ts = some next) :
    ∃ more program, (Parser.fresh o (ts ++ more)).parse.1 = .ok program := by
  obtain ⟨more, last, hmore, hc⟩ := next.completable o
  have hall : State.start.takeAll? o (ts ++ more) = some last := State.takeAll?_trans h hmore
  have hend : beforeEnd (ts ++ more) = ts ++ more := by
    have hb : beforeEnd ((ts ++ more) ++ []) = ts ++ more :=
      beforeEnd_append (State.symbol_ne_eof_of_takeAll? hall) rfl
    rwa [List.append_nil] at hb
  exact ⟨more, last.finished.reverse, by rw [parse_of_takeAll? (hend.symm ▸ hall) hc]⟩

/-- A fresh parser that fails has stopped at a token, and reports it. -/
theorem exists_of_parse_error {o : Options} {ts : List Token} {d : Diagnostic}
    (h : (Parser.fresh o ts).parse.1 = .error d) :
    ∃ taken rest next, ts = taken ++ rest ∧ State.start.takeAll? o taken = some next ∧
      next.stopsAt o rest = true ∧ (Parser.fresh o ts).parse.2.cursor = taken.length ∧
      ¬(headSymbol rest = .eof ∧ next.isComplete = true) ∧
      d = Fault.diagnostic ⟨next.refusal (headSymbol rest),
        headPosition (lastPosition ts) rest⟩ := by
  obtain ⟨taken, rest, next, rfl, ht, hs⟩ := State.start.exists_stop o ts
  have hp := parse_eq ht hs
  have hc : ¬(headSymbol rest = .eof ∧ next.isComplete = true) := by
    rintro ⟨hr, hc⟩
    rw [hp, verdict_eq_ok.mpr ⟨hr, hc, rfl⟩] at h
    cases h
  refine ⟨taken, rest, next, rfl, ht, hs, by rw [hp], hc, ?_⟩
  rw [hp, verdict_eq_error _ hc] at h
  cases h
  rfl

/-- A row that starts with taken tokens and a refused one fails at the refused one, with
a report that depends on nothing after it. -/
theorem parse_of_refused {o : Options} {taken : List Token} {t : Token} {next : State}
    (ht : State.start.takeAll? o taken = some next) (hs : next.stopsAt o [t] = true)
    (hc : ¬(t.symbol = .eof ∧ next.isComplete = true)) (rest : List Token) :
    (Parser.fresh o (taken ++ t :: rest)).parse =
      (.error (Fault.diagnostic ⟨next.refusal t.symbol, t.pos⟩),
        { Parser.fresh o (taken ++ t :: rest) with cursor := taken.length }) := by
  have hstop : next.stopsAt o (t :: rest) = true := hs
  have hp := parse_eq ht hstop
  rw [headSymbol_cons, headPosition_cons, verdict_eq_error _ hc] at hp
  exact hp

/-- The refused token is the end exactly if the tokens before the end are the start of a
program. -/
theorem refused_at_end_iff {o : Options} {taken rest : List Token} {next : State}
    (ht : State.start.takeAll? o taken = some next) (hs : next.stopsAt o rest = true)
    (hc : ¬(headSymbol rest = .eof ∧ next.isComplete = true)) :
    headSymbol rest = .eof ↔
      ∃ more program, (Parser.fresh o (beforeEnd (taken ++ rest) ++ more)).parse.1 =
        .ok program := by
  have htaken : ∀ t ∈ taken, t.symbol ≠ .eof := State.symbol_ne_eof_of_takeAll? ht
  constructor
  · intro hr
    rw [beforeEnd_append htaken hr]
    exact exists_continuation ht
  · rintro ⟨more, program, hok⟩
    cases rest with
    | nil => rfl
    | cons t rest =>
      by_cases he : t.symbol = .eof
      · exact he
      · -- A refused token before the end stands in no program.
        rw [beforeEnd_append_cons htaken he, List.append_assoc, List.cons_append,
          parse_of_refused ht hs hc] at hok
        cases hok

/-- A parser that fails reports the first token that fits no program. Its report stands
at that token, or at the last one if the row just ends. The tokens before it are the
start of a program. Every row that starts with the same tokens, up to and with the
refused one, fails with the same report, so none of them is a program. And the refused
token is the end exactly if the tokens before the end are the start of a program. -/
theorem parse_error_first_offender (o : Options) (ts : List Token) (d : Diagnostic) (k : Nat)
    (h : (Parser.fresh o ts).parse.1 = .error d)
    (hk : (Parser.fresh o ts).parse.2.cursor = k) :
    k ≤ ts.length ∧
      d.span = .point ((ts[k]?.map Token.pos).getD (lastPosition ts)) ∧
      (∃ more program, (Parser.fresh o (ts.take k ++ more)).parse.1 = .ok program) ∧
      (k < ts.length → ∀ us : List Token, us.take (k + 1) = ts.take (k + 1) →
        (Parser.fresh o us).parse.1 = .error d ∧ (Parser.fresh o us).parse.2.cursor = k) ∧
      ((∀ t ∈ ts[k]?, t.symbol = .eof) ↔
        ∃ more program, (Parser.fresh o (beforeEnd ts ++ more)).parse.1 = .ok program) := by
  obtain ⟨taken, rest, next, rfl, ht, hs, hcur, hc, rfl⟩ := exists_of_parse_error h
  rw [hcur] at hk
  subst hk
  refine ⟨by simp, ?_, ?_, ?_, ?_⟩
  · cases rest with
    | nil => simp [Fault.diagnostic]
    | cons t rest => simp [Fault.diagnostic]
  · have htake : (taken ++ rest).take taken.length = taken := by simp
    rw [htake]
    exact exists_continuation ht
  · intro hlt us hus
    cases rest with
    | nil => simp at hlt
    | cons t rest =>
      have hsplit : us = taken ++ t :: us.drop (taken.length + 1) := by
        have hd := List.take_append_drop (taken.length + 1) us
        rw [hus, List.take_append, List.take_of_length_le (by omega)] at hd
        simpa using hd.symm
      rw [hsplit, parse_of_refused ht hs hc]
      exact ⟨rfl, rfl⟩
  · rw [← refused_at_end_iff ht hs hc]
    cases rest with
    | nil => simp
    | cons t rest => simp

/-- `f(a, b`, in one line. -/
def pairCallTokens : List Token :=
  [⟨.ident [102], [102], ⟨1, 1⟩⟩, ⟨.punct .openParen, [40], ⟨1, 2⟩⟩, ⟨.ident [97], [97], ⟨1, 3⟩⟩,
    ⟨.punct .comma, [44], ⟨1, 4⟩⟩, ⟨.ident [98], [98], ⟨1, 6⟩⟩]

theorem parse_pairCall_first_offender :
    (Parser.fresh {} pairCallTokens).parse.1 =
        .error (Fault.diagnostic ⟨.severalArguments ⟨1, 2⟩, ⟨1, 4⟩⟩) ∧
      (Parser.fresh {} pairCallTokens).parse.2.cursor = 3 ∧
      (∃ more program, (Parser.fresh {} (pairCallTokens.take 3 ++ more)).parse.1 = .ok program) ∧
      (∀ us : List Token, us.take 4 = pairCallTokens.take 4 →
        (Parser.fresh {} us).parse.1 =
            .error (Fault.diagnostic ⟨.severalArguments ⟨1, 2⟩, ⟨1, 4⟩⟩) ∧
          (Parser.fresh {} us).parse.2.cursor = 3) ∧
      ¬∃ more program, (Parser.fresh {} (beforeEnd pairCallTokens ++ more)).parse.1 =
        .ok program := by
  have h : (Parser.fresh {} pairCallTokens).parse.1 =
      .error (Fault.diagnostic ⟨.severalArguments ⟨1, 2⟩, ⟨1, 4⟩⟩) := rfl
  obtain ⟨-, -, hmore, hsame, hend⟩ :=
    parse_error_first_offender {} pairCallTokens _ 3 h rfl
  refine ⟨h, rfl, hmore, hsame (by decide), ?_⟩
  rw [← hend]
  decide

end ShaderFront
