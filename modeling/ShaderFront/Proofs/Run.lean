import ShaderFront.Front

/-!
# Runs of the grammar

Reading a row of tokens splits it in two: the tokens that are taken one after the
other, and the rest, whose first token is refused. Which tokens are taken does not
depend on the rest, and what becomes of the program depends only on the unfinished
program before the rest and on its first token. An end token is always refused, and
so is the end of the row.
-/

namespace ShaderFront

/-- A token that is known by its symbol only. -/
def Symbol.token (s : Symbol) : Token := ⟨s, [], .none⟩

/-! ## Taking several tokens -/

/-- The unfinished program after a row of tokens, if every one of them is taken. -/
def State.takeAll? (o : Options) (s : State) : List Token → Option State
  | [] => some s
  | t :: ts => (s.take? o t).bind fun next => next.takeAll? o ts

namespace State

@[simp] theorem takeAll?_nil (o : Options) (s : State) : s.takeAll? o [] = some s := rfl

@[simp] theorem takeAll?_cons (o : Options) (s : State) (t : Token) (ts : List Token) :
    s.takeAll? o (t :: ts) = (s.take? o t).bind fun next => next.takeAll? o ts := rfl

/-- Taking two rows is taking one and then the other. -/
theorem takeAll?_append (o : Options) (s : State) (ts us : List Token) :
    s.takeAll? o (ts ++ us) = (s.takeAll? o ts).bind fun next => next.takeAll? o us := by
  induction ts generalizing s with
  | nil => rfl
  | cons t ts ih =>
    simp only [List.cons_append, takeAll?_cons, Option.bind_assoc]
    exact congrArg _ (funext fun next => ih next)

/-- Two rows that are taken in turn are taken as one. -/
theorem takeAll?_trans {o : Options} {s next last : State} {ts us : List Token}
    (h : s.takeAll? o ts = some next) (h' : next.takeAll? o us = some last) :
    s.takeAll? o (ts ++ us) = some last := by
  rw [takeAll?_append, h]
  exact h'

end State

/-! ## End tokens -/

/-- No expression goes on with an end token. -/
theorem takeAfter?_eof {o : Options} {state : State} {host : Host} {frames : List Frame}
    {e : Expr} {t : Token} (h : t.symbol = .eof) :
    takeAfter? o state host frames e t = none := by
  unfold takeAfter?
  rw [h]
  dsimp only
  split
  · cases host <;> rfl
  · rfl

/-- No operand starts with an end token. -/
theorem takeOperand?_eof {host : Host} {frames : List Frame} {t : Token} (h : t.symbol = .eof) :
    takeOperand? host frames t = none := by
  unfold takeOperand?
  rw [h]

/-- An unfinished program refuses an end token. -/
theorem State.take?_eof {o : Options} {s : State} {t : Token} (h : t.symbol = .eof) :
    s.take? o t = none := by
  unfold State.take?
  cases hm : s.mode with
  | statement => simp [takeStatement?, takeOperand?, h]
  | expression host frames point =>
    cases point <;>
      simp [takeInExpression?, takeAfterCallee?, State.onMark?, Symbol.name?, h,
        takeOperand?_eof h, takeAfter?_eof h]
  | declared head => simp [takeAfterName?, h]
  | members s => simp [takeMember?, Symbol.name?, h]
  | _ => simp [State.onMark?, Symbol.name?, Symbol.typeWord?, memberTypeName?, h]

/-! ## Where a run stops -/

/-- The symbol that a run meets at the head of a row; a missing token counts as an end
token. -/
def headSymbol : List Token → Symbol
  | [] => .eof
  | t :: _ => t.symbol

/-- Where the head of a row stands; a missing token counts as standing at the given
position. -/
def headPosition (last : Position) : List Token → Position
  | [] => last
  | t :: _ => t.pos

@[simp] theorem headSymbol_nil : headSymbol [] = .eof := rfl

@[simp] theorem headSymbol_cons (t : Token) (ts : List Token) :
    headSymbol (t :: ts) = t.symbol := rfl

@[simp] theorem headPosition_nil (last : Position) : headPosition last [] = last := rfl

@[simp] theorem headPosition_cons (last : Position) (t : Token) (ts : List Token) :
    headPosition last (t :: ts) = t.pos := rfl

/-- What becomes of an unfinished program that stops at the given symbol. -/
def State.verdict (s : State) (got : Symbol) (p : Position) : Except Fault (List Stmt) :=
  if got = .eof && s.isComplete then .ok s.finished.reverse else .error ⟨s.refusal got, p⟩

/-- Does the unfinished program take no token of this row? -/
def State.stopsAt (o : Options) (s : State) (rest : List Token) : Bool :=
  match rest with
  | [] => true
  | t :: _ => (s.take? o t).isNone

namespace State

/-- A run over a row of which no token is taken. -/
theorem run_of_stopsAt {o : Options} {s : State} {rest : List Token} (last : Position)
    (h : s.stopsAt o rest = true) :
    s.run o last rest = ⟨0, s.verdict (headSymbol rest) (headPosition last rest)⟩ := by
  cases rest with
  | nil => simp [run, finish, verdict]
  | cons t ts =>
    have ht : s.take? o t = none := Option.isNone_iff_eq_none.mp h
    by_cases he : t.symbol = .eof
    · simp [run, finish, verdict, he]
    · simp [run, verdict, he, ht]

/-- A run over tokens that are taken goes on from the unfinished program after them. -/
theorem run_append {o : Options} {s next : State} {ts : List Token}
    (h : s.takeAll? o ts = some next) (last : Position) (rest : List Token) :
    s.run o last (ts ++ rest) =
      ⟨(next.run o last rest).taken + ts.length, (next.run o last rest).result⟩ := by
  induction ts generalizing s with
  | nil =>
    cases h
    rfl
  | cons t ts ih =>
    obtain ⟨mid, ht, hts⟩ := Option.bind_eq_some_iff.mp h
    have he : t.symbol ≠ .eof := by
      intro he
      rw [take?_eof he] at ht
      cases ht
    rw [List.cons_append, run, if_neg he, ht]
    dsimp only
    rw [ih hts, List.length_cons, Nat.add_assoc]

/-- A run takes the tokens up to the first one that is refused. -/
theorem run_eq {o : Options} {s next : State} {ts rest : List Token}
    (h : s.takeAll? o ts = some next) (hs : next.stopsAt o rest = true) (last : Position) :
    s.run o last (ts ++ rest) =
      ⟨ts.length, next.verdict (headSymbol rest) (headPosition last rest)⟩ := by
  rw [run_append h, run_of_stopsAt last hs, Nat.zero_add]

/-- Every row splits into tokens that are taken and a rest at which the run stops. -/
theorem exists_stop (o : Options) (s : State) (ts : List Token) :
    ∃ (taken rest : List Token) (next : State), ts = taken ++ rest ∧
      s.takeAll? o taken = some next ∧ next.stopsAt o rest = true := by
  induction ts generalizing s with
  | nil => exact ⟨[], [], s, rfl, rfl, rfl⟩
  | cons t ts ih =>
    cases ht : s.take? o t with
    | none => exact ⟨[], t :: ts, s, rfl, rfl, by simp [stopsAt, ht]⟩
    | some next =>
      obtain ⟨taken, rest, final, hsplit, htaken, hstop⟩ := ih next
      refine ⟨t :: taken, rest, final, ?_, ?_, hstop⟩
      · rw [hsplit, List.cons_append]
      · rw [takeAll?_cons, ht]
        exact htaken

/-- Tokens that are taken are no end tokens. -/
theorem symbol_ne_eof_of_takeAll? {o : Options} {s next : State} {ts : List Token}
    (h : s.takeAll? o ts = some next) : ∀ t ∈ ts, t.symbol ≠ .eof := by
  induction ts generalizing s with
  | nil => simp
  | cons t ts ih =>
    obtain ⟨mid, ht, hts⟩ := Option.bind_eq_some_iff.mp h
    intro u hu he
    rcases List.mem_cons.mp hu with rfl | hu
    · rw [take?_eof he] at ht
      cases ht
    · exact ih hts u hu he

/-- At an end token, or at the end of the row, every run stops. -/
theorem stopsAt_of_eof {o : Options} {s : State} {rest : List Token}
    (h : headSymbol rest = .eof) : s.stopsAt o rest = true := by
  cases rest with
  | nil => rfl
  | cons t ts => simp [stopsAt, take?_eof (show t.symbol = .eof from h)]

end State

/-! ## Whole rows -/

/-- The tokens before the first end token. -/
def beforeEnd (ts : List Token) : List Token :=
  ts.takeWhile fun t => t.symbol ≠ .eof

/-- The tokens before the end are those that no end token is among. -/
theorem beforeEnd_append {ts rest : List Token} (h : ∀ t ∈ ts, t.symbol ≠ .eof)
    (hr : headSymbol rest = .eof) : beforeEnd (ts ++ rest) = ts := by
  have hd : beforeEnd rest = [] := by
    cases rest with
    | nil => rfl
    | cons t rest => simp [beforeEnd, show t.symbol = .eof from hr]
  unfold beforeEnd at hd ⊢
  rw [List.takeWhile_append_of_pos (by simpa using h), hd, List.append_nil]

/-- A token that is no end token stands before the end, if all before it do. -/
theorem beforeEnd_append_cons {ts rest : List Token} {t : Token}
    (h : ∀ u ∈ ts, u.symbol ≠ .eof) (ht : t.symbol ≠ .eof) :
    beforeEnd (ts ++ t :: rest) = ts ++ t :: beforeEnd rest := by
  unfold beforeEnd
  rw [List.takeWhile_append_of_pos (by simpa using h),
    List.takeWhile_cons_of_pos (by simpa using ht)]

/-- A row is the tokens before its end, and a rest that starts with the end. -/
theorem exists_beforeEnd (ts : List Token) :
    ∃ rest, ts = beforeEnd ts ++ rest ∧ headSymbol rest = .eof := by
  refine ⟨ts.dropWhile fun t => t.symbol ≠ .eof, List.takeWhile_append_dropWhile.symm, ?_⟩
  cases hd : ts.dropWhile fun t => t.symbol ≠ .eof with
  | nil => rfl
  | cons t rest =>
    have ht := List.head?_dropWhile_not (fun t => decide (t.symbol ≠ Symbol.eof)) ts
    rw [hd] at ht
    simpa using ht

/-- A run that stops has read a program if it stops at the end with nothing open. -/
theorem verdict_eq_ok {s : State} {got : Symbol} {p : Position} {program : List Stmt} :
    s.verdict got p = .ok program ↔
      got = .eof ∧ s.isComplete = true ∧ s.finished.reverse = program := by
  unfold State.verdict
  by_cases hc : got = .eof ∧ s.isComplete = true
  · simp [hc]
  · simp only [Bool.and_eq_true, decide_eq_true_eq, hc, if_false, reduceCtorEq, false_iff]
    exact fun h => hc ⟨h.1, h.2.1⟩

/-- Otherwise it reports the symbol that it stops at. -/
theorem verdict_eq_error {s : State} {got : Symbol} (p : Position)
    (h : ¬(got = .eof ∧ s.isComplete = true)) :
    s.verdict got p = .error ⟨s.refusal got, p⟩ := by
  unfold State.verdict
  rw [if_neg (by simpa using h)]

/-- A program that was read is reported as it is. -/
theorem mapError_eq_ok {result : Except Fault (List Stmt)} {program : List Stmt} :
    result.mapError Fault.diagnostic = .ok program ↔ result = .ok program := by
  constructor
  · intro h
    cases result with
    | error fault => cases h
    | ok program' =>
      cases h
      rfl
  · rintro rfl
    rfl

/-- A refused token is reported by its diagnostic. -/
theorem mapError_eq_error {result : Except Fault (List Stmt)} {d : Diagnostic} :
    result.mapError Fault.diagnostic = .error d ↔
      ∃ fault, result = .error fault ∧ fault.diagnostic = d := by
  constructor
  · intro h
    cases result with
    | error fault => exact ⟨fault, rfl, Except.error.inj h⟩
    | ok program => cases h
  · rintro ⟨fault, rfl, rfl⟩
    rfl

/-- A parser that has taken no token yet. -/
def Parser.fresh (o : Options) (ts : List Token) : Parser :=
  { tokens := ts, options := o }

/-- A fresh parser reads a row as the run from the start says. -/
theorem parse_eq {o : Options} {ts rest : List Token} {next : State}
    (h : State.start.takeAll? o ts = some next) (hs : next.stopsAt o rest = true) :
    (Parser.fresh o (ts ++ rest)).parse =
      ((next.verdict (headSymbol rest) (headPosition (lastPosition (ts ++ rest)) rest)).mapError
          Fault.diagnostic,
        { Parser.fresh o (ts ++ rest) with cursor := ts.length }) := by
  simp only [Parser.parse, Parser.fresh, List.drop_zero, State.run_eq h hs, Nat.zero_add]

/-- A row is a program if the tokens before its end are taken and leave nothing open. -/
theorem parse_of_takeAll? {o : Options} {ts : List Token} {next : State}
    (h : State.start.takeAll? o (beforeEnd ts) = some next) (hc : next.isComplete = true) :
    (Parser.fresh o ts).parse =
      (.ok next.finished.reverse, { Parser.fresh o ts with cursor := (beforeEnd ts).length }) := by
  obtain ⟨rest, hts, hr⟩ := exists_beforeEnd ts
  have hp := parse_eq h (State.stopsAt_of_eof hr)
  rw [← hts, verdict_eq_ok.mpr ⟨hr, hc, rfl⟩] at hp
  exact hp

/-- Only such a row is a program. -/
theorem takeAll?_of_parse {o : Options} {ts : List Token} {program : List Stmt}
    (h : (Parser.fresh o ts).parse.1 = .ok program) :
    ∃ next, State.start.takeAll? o (beforeEnd ts) = some next ∧ next.isComplete = true ∧
      next.finished.reverse = program := by
  obtain ⟨taken, rest, next, rfl, ht, hs⟩ := State.start.exists_stop o ts
  rw [parse_eq ht hs] at h
  cases hv : next.verdict (headSymbol rest) (headPosition (lastPosition (taken ++ rest)) rest) with
  | error f =>
    rw [hv] at h
    cases h
  | ok result =>
    rw [hv] at h
    cases h
    obtain ⟨hr, hc, hf⟩ := verdict_eq_ok.mp hv
    rw [beforeEnd_append (State.symbol_ne_eof_of_takeAll? ht) hr]
    exact ⟨next, ht, hc, hf⟩

/-! ## Source texts -/

section

variable {o : Options} {source : Bytes} {tokens : List Token} {d : Diagnostic}

theorem parseTokens_eq (o : Options) (tokens : List Token) :
    parseTokens o tokens =
      ((Parser.fresh o tokens).parse.1).mapError fun d => ⟨.parsing, d⟩ := rfl

theorem scanSource_of_tokens (h : tokenize source = .ok tokens) :
    scanSource source = .ok tokens := by
  rw [scanSource, h]
  rfl

/-- A text that cannot be scanned is not read. -/
theorem parseSource_of_broken (h : tokenize source = .error d) :
    parseSource o source = .error ⟨.scanning, d⟩ := by
  rw [parseSource, scanSource, h]
  rfl

/-- A text that can be scanned is read as its tokens are. -/
theorem parseSource_of_tokens (h : tokenize source = .ok tokens) :
    parseSource o source =
      ((Parser.fresh o tokens).parse.1).mapError fun d =>
        (⟨.parsing, d⟩ : Failure).attach source := by
  rw [parseSource, scanSource_of_tokens h]
  change (parseTokens o tokens).mapError _ = _
  rw [parseTokens_eq]
  cases (Parser.fresh o tokens).parse.1 <;> rfl

theorem parseSource_of_read {program : List Stmt} (h : tokenize source = .ok tokens)
    (hp : (Parser.fresh o tokens).parse.1 = .ok program) : parseSource o source = .ok program := by
  rw [parseSource_of_tokens h, hp]
  rfl

/-- The diagnostic of a refused token gets the text, which the grammar does not know. -/
theorem parseSource_of_refused (h : tokenize source = .ok tokens)
    (hp : (Parser.fresh o tokens).parse.1 = .error d) :
    parseSource o source = .error ⟨.parsing, d.withSource source⟩ := by
  obtain ⟨fault, -, rfl⟩ := mapError_eq_error.mp hp
  rw [parseSource_of_tokens h, hp]
  rfl

/-- A text that is read has tokens that are read. -/
theorem exists_tokens_of_parseSource {program : List Stmt}
    (h : parseSource o source = .ok program) :
    ∃ tokens, tokenize source = .ok tokens ∧
      (Parser.fresh o tokens).parse.1 = .ok program := by
  cases ht : tokenize source with
  | error d =>
    rw [parseSource_of_broken ht] at h
    cases h
  | ok tokens =>
    refine ⟨tokens, rfl, ?_⟩
    cases hp : (Parser.fresh o tokens).parse.1 with
    | error d =>
      rw [parseSource_of_refused ht hp] at h
      cases h
    | ok result =>
      rw [parseSource_of_read ht hp] at h
      cases h
      rfl

/-- A text that is not read cannot be scanned, or its tokens are refused. -/
theorem broken_or_refused_of_parseSource {f : Failure} (h : parseSource o source = .error f) :
    (∃ d, tokenize source = .error d ∧ f = ⟨.scanning, d⟩) ∨
      ∃ tokens d, tokenize source = .ok tokens ∧ (Parser.fresh o tokens).parse.1 = .error d ∧
        f = ⟨.parsing, d.withSource source⟩ := by
  cases ht : tokenize source with
  | error d =>
    rw [parseSource_of_broken ht] at h
    cases h
    exact .inl ⟨d, rfl, rfl⟩
  | ok tokens =>
    cases hp : (Parser.fresh o tokens).parse.1 with
    | error d =>
      rw [parseSource_of_refused ht hp] at h
      cases h
      exact .inr ⟨tokens, d, rfl, hp, rfl⟩
    | ok result =>
      rw [parseSource_of_read ht hp] at h
      cases h

end

end ShaderFront
