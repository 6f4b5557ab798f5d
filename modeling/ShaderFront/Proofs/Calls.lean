import ShaderFront.Proofs.LockstepStatements
import ShaderFront.Proofs.Sequence

/-!
# Calling a parser again

A parser may be called any number of times. Each call goes on where the last one has
stopped, as a fresh parser would on the tokens from there on. A call is a program read
by descent: at no index up to the first end token does a look at the records or an
attempt to read a statement stay without a result, and a statement that is read moves
the index. So the cursor only moves forward and never past that token. A call that
succeeds has reached it, and then there is nothing left to read.
-/

namespace ShaderFront

/-! ## The first end token -/

/-- The index of the first end token, or the number of tokens if there is none. -/
def endIndex (ts : List Token) : Nat :=
  ts.findIdx fun t => t.symbol = .eof

/-- The index of the end counts the tokens before it. -/
theorem endIndex_append {ts : List Token} (h : ∀ t ∈ ts, t.symbol ≠ .eof) (rest : List Token) :
    endIndex (ts ++ rest) = ts.length + endIndex rest := by
  induction ts with
  | nil => simp
  | cons t ts ih =>
    have ht : t.symbol ≠ .eof := h t List.mem_cons_self
    have hts := ih fun u hu => h u (List.mem_cons_of_mem t hu)
    unfold endIndex at hts ⊢
    rw [List.cons_append, List.findIdx_cons, hts, List.length_cons]
    simp only [ht, decide_false, cond_false]
    omega

/-- A row that starts with the end has it at its start. -/
theorem endIndex_of_headSymbol {ts : List Token} (h : headSymbol ts = .eof) : endIndex ts = 0 := by
  cases ts with
  | nil => rfl
  | cons t ts => simp [endIndex, List.findIdx_cons, show t.symbol = .eof from h]

/-! ## One call -/

/-- Where a parser has got to: the tokens before its cursor, none of which is an end token,
and the tokens from its cursor on. -/
structure Parser.StandsBetween (p : Parser) (before rest : List Token) : Prop where
  /-- The two rows are all tokens. -/
  tokens_eq : p.tokens = before ++ rest
  /-- The cursor is between them. -/
  cursor_eq : p.cursor = before.length
  /-- There is no end token before the cursor. -/
  before_end : ∀ t ∈ before, t.symbol ≠ .eof

namespace Parser.StandsBetween

theorem drop_cursor {p : Parser} {before rest : List Token} (h : p.StandsBetween before rest) :
    p.tokens.drop p.cursor = rest := by
  rw [h.tokens_eq, h.cursor_eq, List.drop_left]

/-- The cursor is not past the end. -/
theorem endIndex_eq {p : Parser} {before rest : List Token} (h : p.StandsBetween before rest) :
    endIndex p.tokens = p.cursor + endIndex rest := by
  rw [h.tokens_eq, endIndex_append h.before_end, h.cursor_eq]

end Parser.StandsBetween

/-- What a call does: it takes tokens up to one that is refused, moves the cursor over them,
and reports what became of them. -/
structure Parser.CallTakes (p : Parser) (taken rest : List Token) (next : State) : Prop where
  /-- The tokens from the cursor on. -/
  drop_cursor : p.tokens.drop p.cursor = taken ++ rest
  /-- The first of them are taken one after the other. -/
  takeAll? : State.start.takeAll? p.options taken = some next
  /-- The next one is refused. -/
  stopsAt : next.stopsAt p.options rest = true
  /-- The result and the cursor after the call. -/
  parse_eq : p.parse =
    ((next.verdict (headSymbol rest) (headPosition (lastPosition p.tokens) rest)).mapError
      Fault.diagnostic, { p with cursor := p.cursor + taken.length })

/-- Every call takes some tokens and stops. -/
theorem Parser.exists_callTakes (p : Parser) : ∃ taken rest next, p.CallTakes taken rest next := by
  obtain ⟨taken, rest, next, hdrop, ht, hs⟩ :=
    State.start.exists_stop p.options (p.tokens.drop p.cursor)
  refine ⟨taken, rest, next, hdrop, ht, hs, ?_⟩
  simp only [Parser.parse, hdrop, State.run_eq ht hs]

namespace Parser.CallTakes

/-- After a call the parser stands between what it has taken by now and the rest. -/
theorem standsBetween {p : Parser} {before taken rest : List Token} {next : State}
    (hc : p.CallTakes taken rest next) (h : p.StandsBetween before (taken ++ rest)) :
    p.parse.2.StandsBetween (before ++ taken) rest := by
  rw [hc.parse_eq]
  refine ⟨?_, ?_, ?_⟩
  · simp [h.tokens_eq]
  · simp [h.cursor_eq]
  · intro t ht
    rcases List.mem_append.mp ht with ht | ht
    · exact h.before_end t ht
    · exact State.symbol_ne_eof_of_takeAll? hc.takeAll? t ht

/-- A call that succeeds has reached the end, and its program is what was complete there. -/
theorem of_ok {p : Parser} {taken rest : List Token} {next : State} {program : List Stmt}
    (hc : p.CallTakes taken rest next) (h : p.parse.1 = .ok program) :
    headSymbol rest = .eof ∧ next.finished.reverse = program := by
  rw [hc.parse_eq] at h
  obtain ⟨hr, -, hf⟩ := verdict_eq_ok.mp (mapError_eq_ok.mp h)
  exact ⟨hr, hf⟩

end Parser.CallTakes

/-- A parser reads what a fresh one reads on the tokens from its cursor on. -/
theorem Parser.parse_eq_fresh {p : Parser} {before rest : List Token}
    (h : p.StandsBetween before rest) :
    p.parse.1 = (Parser.fresh p.options rest).parse.1 ∧
      p.parse.2.cursor = p.cursor + (Parser.fresh p.options rest).parse.2.cursor := by
  have hrun : State.start.run p.options (lastPosition p.tokens) (p.tokens.drop p.cursor) =
      State.start.run p.options (lastPosition rest) rest := by
    rw [h.drop_cursor, h.tokens_eq, run_start_append]
  simp [Parser.parse, Parser.fresh, hrun]

/-- At the end nothing is left to read. -/
theorem Parser.parse_of_end {p : Parser} {before rest : List Token}
    (h : p.StandsBetween before rest) (hr : headSymbol rest = .eof) : p.parse = (.ok [], p) := by
  have hv : State.start.verdict .eof (headPosition (lastPosition p.tokens) rest) = .ok [] :=
    verdict_eq_ok.mpr ⟨rfl, rfl, rfl⟩
  simp only [Parser.parse, h.drop_cursor, State.run_of_stopsAt _ (State.stopsAt_of_eof hr), hr, hv]
  rfl

/-! ## Any number of calls -/

namespace Parser

/-- The parser after a number of calls, whatever they came to. -/
def afterCalls (p : Parser) : Nat → Parser
  | 0 => p
  | n + 1 => (p.afterCalls n).parse.2

/-- Calls change neither the tokens nor the extensions of the grammar. -/
theorem afterCalls_fixed (p : Parser) (n : Nat) :
    (p.afterCalls n).tokens = p.tokens ∧ (p.afterCalls n).options = p.options := by
  induction n with
  | zero => exact ⟨rfl, rfl⟩
  | succ n ih => exact ih

/-- However often it was called, a parser stands somewhere before the end or at it. -/
theorem exists_standsBetween (o : Options) (ts : List Token) (n : Nat) :
    ∃ before rest, ((fresh o ts).afterCalls n).StandsBetween before rest := by
  induction n with
  | zero => exact ⟨[], ts, rfl, rfl, by simp⟩
  | succ n ih =>
    obtain ⟨before, rest, h⟩ := ih
    obtain ⟨taken, left, next, hc⟩ := ((fresh o ts).afterCalls n).exists_callTakes
    rw [h.drop_cursor.symm.trans hc.drop_cursor] at h
    exact ⟨before ++ taken, left, hc.standsBetween h⟩

/-- At the end further calls change nothing. -/
theorem afterCalls_of_end {p : Parser} (h : p.parse = (.ok [], p)) (n : Nat) :
    p.afterCalls n = p := by
  induction n with
  | zero => rfl
  | succ n ih => rw [afterCalls, ih, h]

end Parser

/-! ## Calls by descent -/

/-- A procedure that starts at an index of a row has this result and stops at that index. So it
ends and looks at no record outside of the row. It neither goes back nor passes the first end. -/
def Descent.Reaches {α : Type} (f : Descent α) (rs : List TokenRecord) (i : Nat)
    (result : Except Diagnostic α) (j : Nat) : Prop :=
  Reader.perform ⟨rs, i⟩ f = some (result, ⟨rs, j⟩) ∧
    i ≤ j ∧ j ≤ endIndex (rs.map Token.ofRecord)

namespace Reader

variable {r r' : Reader}

/-- A reader that moves passes no end. -/
theorem Moves.le_endIndex (h : r.Moves r')
    (hr : r.current ≤ endIndex (r.records.map Token.ofRecord)) :
    r'.current ≤ endIndex (r.records.map Token.ofRecord) := by
  refine Nat.not_lt.mp fun hlt => ?_
  obtain ⟨t, ht, hne⟩ := h.passes _ hr hlt
  have hat : (r.records.map Token.ofRecord)[endIndex (r.records.map Token.ofRecord)]? =
      some (.ofRecord t) := by rw [List.getElem?_map, ht, Option.map_some]
  unfold endIndex at hat
  obtain ⟨hlen, hget⟩ := List.getElem?_eq_some_iff.mp hat
  have hend := List.findIdx_getElem (w := hlen)
  rw [hget] at hend
  exact TokenRecord.symbol_ne_eof hne (of_decide_eq_true hend)

theorem Moves.reaches {α : Type} {f : Descent α} {result : Except Diagnostic α}
    (hf : r.perform f = some (result, r')) (h : r.Moves r')
    (hr : r.current ≤ endIndex (r.records.map Token.ofRecord)) :
    f.Reaches r.records r.current result r'.current := by
  refine ⟨?_, h.le, h.le_endIndex hr⟩
  rw [← h.eq_mk]
  exact hf

/-- The record before the next one can be looked at anywhere in the row. -/
theorem exists_previous (h : r.current ≤ r.records.length) :
    ∃ t, r.perform Descent.previous = some (.ok t, r) := by
  change ∃ t, r.perform (if r.current = 0 then Descent.peek else Descent.recordAt _) = _
  by_cases hc : r.current = 0
  · rw [if_pos hc]
    exact ⟨r.next, r.perform_peek⟩
  · rw [if_neg hc]
    have hlt : r.current - 1 < r.records.length := by omega
    refine ⟨r.records[r.current - 1], ?_⟩
    change (r.records[r.current - 1]?).map _ = _
    rw [List.getElem?_eq_getElem hlt]
    rfl

/-- A step over the next record is possible anywhere in the row. -/
theorem exists_advance (h : r.current ≤ r.records.length) :
    ∃ t r', r.perform Descent.advance = some (.ok t, r') ∧ r.Moves r' := by
  by_cases hn : r.next.kind = .eof
  · obtain ⟨t, ht⟩ := exists_previous h
    refine ⟨t, r, ?_, .refl r⟩
    unfold Descent.advance
    rw [perform_bind_of_ok r.perform_isAtEnd, decide_eq_true hn]
    exact ht
  · exact ⟨r.next, r.forward, perform_advance hn, moves_forward hn⟩

end Reader

/-- A parser on any tokens, after any number of calls, and its next call. Neither the tokens
nor the extensions of the grammar have changed. Every way to look at records has a result at
every index up to the first end. So has every attempt to read a statement, at whatever depth and
within whatever call, and if it succeeds it stops after the index that it starts at. The call
is such an attempt to read a program from the cursor on. If it succeeds, it has reached the end,
and every call from then on reads nothing. Whatever the calls before came to, this one reads
what a fresh parser reads on the tokens from the cursor on. -/
theorem parse_afterCalls (o : Options) (rs : List TokenRecord) (n : Nat) :
    let ts := rs.map Token.ofRecord
    let p := (Parser.fresh o ts).afterCalls n
    (p.tokens = ts ∧ p.options = o) ∧
      (∀ i, i ≤ endIndex ts →
        (∃ t, Descent.peek.Reaches rs i (.ok t) i) ∧
        (∃ t, Descent.previous.Reaches rs i (.ok t) i) ∧
        (∃ t j, Descent.advance.Reaches rs i (.ok t) j) ∧
        ∃ result j, o.statement?.Reaches rs i result j ∧ ∀ stmt, result = .ok stmt → i < j) ∧
      (p.cursor ≤ p.parse.2.cursor ∧ p.parse.2.cursor ≤ endIndex ts ∧ endIndex ts ≤ rs.length ∧
        (o.program? []).Reaches rs p.cursor p.parse.1 p.parse.2.cursor) ∧
      (∀ program, p.parse.1 = .ok program → p.parse.2.cursor = endIndex ts ∧
        ∀ m, (p.parse.2.afterCalls m).parse = (.ok [], p.parse.2)) ∧
      p.parse.1 = (Parser.fresh o (ts.drop p.cursor)).parse.1 ∧
        p.parse.2.cursor = p.cursor + (Parser.fresh o (ts.drop p.cursor)).parse.2.cursor := by
  intro ts p
  have hfixed : p.tokens = ts ∧ p.options = o := (Parser.fresh o ts).afterCalls_fixed n
  obtain ⟨before, rest, hp⟩ := Parser.exists_standsBetween o ts n
  obtain ⟨taken, left, next, hc⟩ := p.exists_callTakes
  have hrest : rest = taken ++ left := hp.drop_cursor.symm.trans hc.drop_cursor
  subst hrest
  have hq := hc.standsBetween hp
  have hcursor : p.parse.2.cursor = p.cursor + taken.length := by rw [hc.parse_eq]
  have hend : endIndex ts = p.parse.2.cursor + endIndex left := by
    rw [← hq.endIndex_eq, hc.parse_eq, hfixed.1]
  have hlength : endIndex ts ≤ rs.length := by
    rw [← List.length_map Token.ofRecord]
    exact List.findIdx_le_length
  refine ⟨hfixed, fun i hi => ⟨?_, ?_, ?_, ?_⟩, ⟨by omega, by omega, hlength, ?_⟩, ?_, ?_⟩
  · exact ⟨_, (Reader.Moves.refl ⟨rs, i⟩).reaches (Reader.perform_peek _) hi⟩
  · obtain ⟨t, ht⟩ := Reader.exists_previous (r := ⟨rs, i⟩) (Nat.le_trans hi hlength)
    exact ⟨t, (Reader.Moves.refl ⟨rs, i⟩).reaches ht hi⟩
  · obtain ⟨t, r', ht, hm⟩ := Reader.exists_advance (r := ⟨rs, i⟩) (Nat.le_trans hi hlength)
    exact ⟨t, r'.current, hm.reaches ht hi⟩
  · obtain ⟨result, r', hr, hm, hlt⟩ := Reader.perform_statement o ⟨rs, i⟩
    exact ⟨result, r'.current, hm.reaches hr hi, hlt⟩
  · have hparse := Parser.perform_parse hfixed.1
    rw [hfixed.2] at hparse
    exact ⟨hparse, by omega, show _ ≤ endIndex ts by omega⟩
  · intro program hok
    obtain ⟨hleft, -⟩ := hc.of_ok hok
    have hzero : endIndex left = 0 := endIndex_of_headSymbol hleft
    have hagain : p.parse.2.parse = (.ok [], p.parse.2) := Parser.parse_of_end hq hleft
    refine ⟨by omega, fun m => ?_⟩
    rw [Parser.afterCalls_of_end hagain, hagain]
  · have hfresh := Parser.parse_eq_fresh hp
    rw [← hp.drop_cursor, hfixed.2, hfixed.1] at hfresh
    exact hfresh

/-- A name that nothing may follow, then a statement, an end, and a name after the end. The
records carry more than belongs to their sorts. -/
def resumedRecords : List TokenRecord :=
  [{ kind := .ident, text := [120], op := .assign }, { kind := .ident, text := [121] },
    { kind := .punct .semicolon, text := [122], bool := true }, { kind := .eof, op := .minus },
    { kind := .ident, text := [122] }]

/-- The statement from the second name on is read by descent. -/
theorem resumedRecords_statement {result : Except Diagnostic Stmt} {j : Nat}
    (h : (Options.statement? {}).Reaches resumedRecords 1 result j) :
    ∃ stmt, result = .ok stmt := by
  have hread := (readsStatements {} ⟨resumedRecords, 1⟩).statement .start
    ⟨fun _ => rfl, fun he => by cases he⟩
  cases hread with
  | failed perform moves outcome => cases outcome
  | done perform moves outcome post =>
    rw [h.1] at perform
    cases perform
    exact ⟨_, rfl⟩

/-- The first call stops at the second name. The next one reads the statement from there, and is
then at the end. -/
theorem parse_afterCalls_resumed :
    let p := (Parser.fresh {} (resumedRecords.map Token.ofRecord)).afterCalls 1
    p.cursor = 1 ∧ p.parse.2.cursor = 3 ∧
      p.parse.1 = .ok [.expr (.ident [121] (.startingAt .none)) (.startingAt .none)] ∧
      (Options.program? {} []).Reaches resumedRecords 1 p.parse.1 3 ∧
      (∃ stmt j, (Options.statement? {}).Reaches resumedRecords 1 (.ok stmt) j ∧ 1 < j) ∧
      ∀ m, (p.parse.2.afterCalls m).parse = (.ok [], p.parse.2) := by
  obtain ⟨-, hwithin, ⟨-, -, -, hcall⟩, hok, -⟩ := parse_afterCalls {} resumedRecords 1
  obtain ⟨-, -, -, result, j, hstatement, hlt⟩ := hwithin 1 (by decide)
  obtain ⟨stmt, rfl⟩ := resumedRecords_statement hstatement
  exact ⟨rfl, rfl, rfl, hcall, ⟨stmt, j, hstatement, hlt stmt rfl⟩, (hok _ rfl).2⟩

end ShaderFront
