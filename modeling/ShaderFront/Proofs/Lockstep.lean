import ShaderFront.Proofs.Descent
import ShaderFront.Proofs.Run

/-!
# Keeping step with the grammar

A procedure of the reader and the grammar look at the same tokens. The procedure keeps
step with an unfinished program if each record that it steps over is one that the
program takes, and each diagnostic that it gives is the one for the token that the
program refuses. A procedure that keeps step has a result: it looks at no record
outside of its row, and it ends.

There is a rule here for each way to look at records and for doing one thing after
another, and so the procedures of the grammar are compared with it one step at a time.
-/

namespace ShaderFront

variable {α β : Type} {o : Options} {r r' : Reader} {s s' : State}

/-! ## Records and their symbols -/

namespace TokenRecord

variable {t : TokenRecord}

theorem symbol_ne_eof (h : t.kind ≠ .eof) : t.symbol ≠ .eof := by
  intro hs
  unfold symbol at hs
  split at hs <;> contradiction

theorem symbol_ne_punct {mark : Punct} (h : t.kind ≠ .punct mark) : t.symbol ≠ .punct mark := by
  intro hs
  unfold symbol at hs
  split at hs <;> cases hs
  contradiction

theorem symbol_of_punct {mark : Punct} (h : t.kind = .punct mark) : t.symbol = .punct mark := by
  rw [symbol, h]

theorem operator_of_symbol {op : Operator} (h : t.symbol = .operator op) :
    t.kind = .operator ∧ t.op = op := by
  unfold symbol at h
  split at h <;> cases h
  exact ⟨by assumption, rfl⟩

theorem name?_eq_none (h : t.kind ≠ .ident) : t.symbol.name? = none := by
  unfold symbol
  split <;> first | rfl | contradiction

theorem typeWord?_eq_none (h : ¬t.kind.isType = true) : t.symbol.typeWord? = none := by
  unfold symbol
  split <;> first | rfl | simp_all [TokenKind.isType, Symbol.typeWord?]

end TokenRecord

/-! ## Looking at records -/

namespace Reader

/-- Where a missing end counts as standing. -/
def last (r : Reader) : Position := lastPosition (r.records.map Token.ofRecord)

/-- The next record, which is an end if there is none. -/
def next (r : Reader) : TokenRecord :=
  (r.records[r.current]?).getD { kind := .eof, pos := r.last }

/-- The reader one record further on. -/
def forward (r : Reader) : Reader := { r with current := r.current + 1 }

theorem getElem?_of_next (h : r.next.kind ≠ .eof) : r.records[r.current]? = some r.next := by
  cases hr : r.records[r.current]? with
  | none => exact absurd (by rw [next, hr]; rfl) h
  | some t => rw [next, hr]; rfl

theorem perform_bind (r : Reader) (f : Descent α) (g : α → Descent β) :
    r.perform (f >>= g) = (r.perform f).bind fun
      | (.ok a, r') => r'.perform (g a)
      | (.error d, r') => some (.error d, r') := by
  unfold perform
  rw [ExceptT.run_bind, StateT.run_bind]
  change Option.bind _ _ = _
  congr 1
  funext x
  obtain ⟨a | d, r'⟩ := x <;> rfl

/-- A procedure that succeeds leaves the rest to the one after it. -/
theorem perform_bind_of_ok {f : Descent α} {a : α} (h : r.perform f = some (.ok a, r'))
    (g : α → Descent β) : r.perform (f >>= g) = r'.perform (g a) := by
  rw [perform_bind, h]
  rfl

/-- There is always a next record to look at. -/
theorem perform_peek (r : Reader) : r.perform Descent.peek = some (.ok r.next, r) := by
  change r.perform (if r.current < r.records.length then _ else _) = _
  by_cases hc : r.current < r.records.length
  · rw [if_pos hc]
    change (r.records[r.current]?).map _ = _
    rw [next, List.getElem?_eq_getElem hc]
    rfl
  · rw [if_neg hc, next, List.getElem?_eq_none (by omega)]
    by_cases hl : 0 < r.records.length
    · have hlast : r.last = (r.records.get ⟨r.records.length - 1, by omega⟩).pos := by
        rw [last, lastPosition, List.getLast?_map, List.getLast?_eq_getElem?,
          List.getElem?_eq_getElem (by omega)]
        rfl
      have hat : r.perform (Descent.recordAt (r.records.length - 1)) =
          some (.ok (r.records.get ⟨r.records.length - 1, by omega⟩), r) := by
        change (r.records[r.records.length - 1]?).map _ = _
        rw [List.getElem?_eq_getElem (by omega)]
        rfl
      rw [if_pos hl, perform_bind_of_ok hat, ← hlast]
      rfl
    · have hlast : r.last = .none := by
        rw [last, List.eq_nil_of_length_eq_zero (by omega : r.records.length = 0)]
        rfl
      rw [if_neg hl, hlast]
      rfl

theorem perform_isAtEnd (r : Reader) :
    r.perform Descent.isAtEnd = some (.ok (r.next.kind = .eof), r) :=
  perform_bind_of_ok r.perform_peek _

theorem perform_check (r : Reader) (kind : TokenKind) :
    r.perform (Descent.check kind) = some (.ok (r.next.kind = kind), r) :=
  perform_bind_of_ok r.perform_peek _

theorem perform_checkOp (r : Reader) (ops : List Operator) :
    r.perform (Descent.checkOp ops) =
      some (.ok (r.next.kind = .operator && ops.contains r.next.op), r) :=
  perform_bind_of_ok r.perform_peek _

/-- There is always a record before the next one to look at, once one was stepped over. -/
theorem perform_previous (h : r.next.kind ≠ .eof) :
    r.forward.perform Descent.previous = some (.ok r.next, r.forward) := by
  change r.forward.perform (if r.current + 1 = 0 then Descent.peek else Descent.recordAt _) = _
  rw [if_neg (Nat.succ_ne_zero r.current)]
  change (r.records[r.current + 1 - 1]?).map _ = _
  rw [Nat.add_sub_cancel, getElem?_of_next h]
  rfl

/-- Stepping over a record gives it. -/
theorem perform_advance (h : r.next.kind ≠ .eof) :
    r.perform Descent.advance = some (.ok r.next, r.forward) := by
  unfold Descent.advance
  rw [perform_bind_of_ok r.perform_isAtEnd, decide_eq_false h]
  exact perform_previous h

theorem perform_accept (h : r.next.kind ≠ .eof) :
    r.perform (Descent.accept r.next.kind) = some (.ok true, r.forward) := by
  unfold Descent.accept
  rw [perform_bind_of_ok (r.perform_check _), perform_bind_of_ok r.perform_isAtEnd,
    decide_eq_true rfl, decide_eq_false h]
  exact perform_bind_of_ok (perform_advance h) _

theorem perform_accept_of_ne {kind : TokenKind} (h : r.next.kind ≠ kind) :
    r.perform (Descent.accept kind) = some (.ok false, r) := by
  unfold Descent.accept
  rw [perform_bind_of_ok (r.perform_check _), perform_bind_of_ok r.perform_isAtEnd,
    decide_eq_false h]
  rfl

theorem perform_expect {mark : Punct} {context : String} (h : r.next.kind = .punct mark) :
    r.perform (Descent.expect mark context) = some (.ok (), r.forward) := by
  unfold Descent.expect
  rw [← h, perform_bind_of_ok (perform_accept (by simp [h]))]
  rfl

theorem perform_fail (r : Reader) (kind : ErrorKind) (message : Bytes) :
    r.perform (Descent.fail kind message : Descent α) =
      some (.error { kind := kind, message := message, span := .point r.next.pos }, r) :=
  perform_bind_of_ok r.perform_peek _

theorem perform_failGot (r : Reader) (kind : ErrorKind) (message : Bytes) :
    r.perform (Descent.failGot kind message : Descent α) =
      r.perform (Descent.fail kind (message ++ Cause.got r.next.symbol)) := by
  rw [Descent.failGot, perform_bind_of_ok r.perform_peek, Cause.got, List.append_assoc]

end Reader

/-! ## Moving on -/

/-- One reader is the other one further on in the same row, past no end. -/
structure Reader.Moves (r r' : Reader) : Prop where
  /-- The row is the same. -/
  records_eq : r'.records = r.records
  /-- The index is not smaller. -/
  le : r.current ≤ r'.current
  /-- Between the two indices there are records, and none of them is an end. -/
  passes : ∀ i, r.current ≤ i → i < r'.current → ∃ t, r.records[i]? = some t ∧ t.kind ≠ .eof

namespace Reader

theorem Moves.refl (r : Reader) : r.Moves r :=
  ⟨rfl, Nat.le_refl _, fun i hi hi' => absurd hi (by omega)⟩

theorem Moves.trans {r'' : Reader} (h : r.Moves r') (h' : r'.Moves r'') : r.Moves r'' := by
  refine ⟨h'.records_eq.trans h.records_eq, Nat.le_trans h.le h'.le, fun i hi hi' => ?_⟩
  by_cases hm : i < r'.current
  · exact h.passes i hi hm
  · rw [← h.records_eq]
    exact h'.passes i (by omega) hi'

theorem Moves.eq_mk (h : r.Moves r') : r' = ⟨r.records, r'.current⟩ := by
  rw [← h.records_eq]

theorem moves_forward (h : r.next.kind ≠ .eof) : r.Moves r.forward := by
  refine ⟨rfl, Nat.le_succ _, fun i hi hi' => ?_⟩
  obtain rfl : i = r.current := by
    change i < r.current + 1 at hi'
    omega
  exact ⟨r.next, getElem?_of_next h, h⟩

/-- One reader is the other one at least one record further on. -/
def Precedes (r r' : Reader) : Prop := r.Moves r' ∧ r.current < r'.current

theorem precedes_forward (h : r.next.kind ≠ .eof) : r.Precedes r.forward :=
  ⟨moves_forward h, Nat.lt_succ_self _⟩

theorem Precedes.moves_right {r'' : Reader} (h : r.Precedes r') (h' : r'.Moves r'') :
    r.Precedes r'' :=
  ⟨h.1.trans h', Nat.lt_of_lt_of_le h.2 h'.le⟩

theorem Moves.precedes_right {r'' : Reader} (h : r.Moves r') (h' : r'.Precedes r'') :
    r.Precedes r'' :=
  ⟨h.trans h'.1, Nat.lt_of_le_of_lt h.le h'.2⟩

/-- A row has only so many records to move over. -/
theorem Precedes.induction {P : Reader → Prop}
    (h : ∀ r, (∀ r', r.Precedes r' → P r') → P r) (r : Reader) : P r := by
  refine h r fun r' hr => ?_
  exact Precedes.induction h r'
termination_by r.records.length - r.current
decreasing_by
  obtain ⟨t, ht, -⟩ := hr.1.passes r.current (Nat.le_refl _) hr.2
  have hlt : r.current < r.records.length := (List.getElem?_eq_some_iff.mp ht).1
  rw [hr.1.records_eq]
  have := hr.2
  omega

/-! ## The same tokens -/

/-- The tokens from the index on. -/
def rest (r : Reader) : List Token := (r.records.drop r.current).map Token.ofRecord

/-- What becomes of an unfinished program on the tokens from the index on, and the index
of the token that it stops at. -/
def outcome (o : Options) (r : Reader) (s : State) : Except Diagnostic (List Stmt) × Nat :=
  let outcome := s.run o r.last r.rest
  (outcome.result.mapError Fault.diagnostic, r.current + outcome.taken)

/-- Does the unfinished program take the next record? -/
def takes? (o : Options) (r : Reader) (s : State) : Option State :=
  s.take? o (.ofRecord r.next)

theorem takes?_eof (h : r.next.kind = .eof) : r.takes? o s = none :=
  State.take?_eof (by simp [Token.ofRecord, TokenRecord.symbol, h])

theorem rest_eq_cons (h : r.next.kind ≠ .eof) :
    r.rest = .ofRecord r.next :: r.forward.rest := by
  obtain ⟨hlt, hget⟩ := List.getElem?_eq_some_iff.mp (getElem?_of_next h)
  rw [rest, List.drop_eq_getElem_cons hlt, hget]
  rfl

theorem outcome_forward (h : r.next.kind ≠ .eof) (ht : r.takes? o s = some s') :
    r.outcome o s = r.forward.outcome o s' := by
  have hs : (Token.ofRecord r.next).symbol ≠ .eof := TokenRecord.symbol_ne_eof h
  unfold outcome
  rw [rest_eq_cons h, State.run, if_neg hs, show s.take? o (.ofRecord r.next) = some s' from ht]
  change (_, r.current + (_ + 1)) = (_, r.current + 1 + _)
  rw [Nat.add_comm _ 1, Nat.add_assoc]
  rfl

/-- An end that is not there stands for the end of the row. -/
theorem rest_eq_nil (h : r.records[r.current]? = none) : r.rest = [] := by
  rw [rest, List.drop_eq_nil_of_le (List.getElem?_eq_none_iff.mp h), List.map_nil]

theorem rest_cases (r : Reader) :
    (∃ ts, r.rest = .ofRecord r.next :: ts) ∨
      (r.rest = [] ∧ r.next = { kind := .eof, pos := r.last }) := by
  cases h : r.records[r.current]? with
  | none => exact .inr ⟨rest_eq_nil h, by rw [next, h]; rfl⟩
  | some t =>
    obtain ⟨hlt, hget⟩ := List.getElem?_eq_some_iff.mp h
    refine .inl ⟨(r.records.drop (r.current + 1)).map Token.ofRecord, ?_⟩
    rw [rest, List.drop_eq_getElem_cons hlt, hget, next, h]
    rfl

/-- What becomes of an unfinished program that does not take the next record. -/
theorem outcome_stop (ht : r.takes? o s = none) :
    r.outcome o s =
      ((s.verdict r.next.symbol r.next.pos).mapError Fault.diagnostic, r.current) := by
  unfold outcome
  obtain ⟨ts, hrest⟩ | ⟨hrest, hnext⟩ := r.rest_cases
  · have hstop : s.stopsAt o r.rest = true := by
      rw [hrest]
      exact Option.isNone_iff_eq_none.mpr ht
    rw [State.run_of_stopsAt _ hstop, hrest]
    rfl
  · rw [hrest, hnext, State.run_of_stopsAt _ rfl]
    rfl

/-- The unfinished program refuses the next record. -/
structure Refused (o : Options) (r : Reader) (s : State) (cause : Cause) : Prop where
  /-- The record is not taken. -/
  takes?_eq : r.takes? o s = none
  /-- The program may not end here either. -/
  isComplete_eq : s.isComplete = false
  /-- Why the record is refused. -/
  refusal_eq : s.refusal r.next.symbol = cause

/-- Two unfinished programs come to the same if they take the next record alike. -/
theorem outcome_congr (ht : r.takes? o s = r.takes? o s')
    (hv : s.verdict r.next.symbol r.next.pos = s'.verdict r.next.symbol r.next.pos) :
    r.outcome o s = r.outcome o s' := by
  cases hs : r.takes? o s with
  | none => rw [outcome_stop hs, outcome_stop (ht.symm.trans hs), hv]
  | some next =>
    have hn : r.next.kind ≠ .eof := by
      intro he
      rw [takes?_eof he] at hs
      cases hs
    rw [outcome_forward hn hs, outcome_forward hn (ht.symm.trans hs)]

end Reader

/-! ## Keeping step -/

/-- A procedure keeps step with an unfinished program. If it fails, so does the program, at the
same token and with the same diagnostic. If it succeeds, there is an unfinished program at the
token that comes next then, which comes to the same as the first one. -/
inductive KeepsStep (o : Options) (f : Descent α) (r : Reader) (s : State)
    (Q : α → Reader → State → Prop) : Prop
  | failed {d : Diagnostic} {r' : Reader} (perform : r.perform f = some (.error d, r'))
      (moves : r.Moves r') (outcome : r.outcome o s = (.error d, r'.current))
  | done {a : α} {r' : Reader} {s' : State} (perform : r.perform f = some (.ok a, r'))
      (moves : r.Moves r') (outcome : r.outcome o s = r'.outcome o s') (post : Q a r' s')

namespace KeepsStep

variable {f : Descent α} {g : α → Descent β} {P Q : α → Reader → State → Prop}
  {R : β → Reader → State → Prop}

theorem pure {a : α} (h : Q a r s) : KeepsStep o (pure a) r s Q :=
  .done rfl (.refl r) rfl h

/-- A procedure after one that has succeeded. -/
theorem after {a : α} (h : r.perform f = some (.ok a, r')) (hm : r.Moves r')
    (ho : r.outcome o s = r'.outcome o s') (hg : KeepsStep o (g a) r' s' R) :
    KeepsStep o (f >>= g) r s R := by
  have hbind := Reader.perform_bind_of_ok h g
  cases hg with
  | failed perform moves outcome =>
    exact .failed (hbind.trans perform) (hm.trans moves) (ho.trans outcome)
  | done perform moves outcome post =>
    exact .done (hbind.trans perform) (hm.trans moves) (ho.trans outcome) post

/-- One procedure after another. -/
theorem bind (hf : KeepsStep o f r s P)
    (hg : ∀ a r' s', r.Moves r' → P a r' s' → KeepsStep o (g a) r' s' R) :
    KeepsStep o (f >>= g) r s R := by
  cases hf with
  | failed perform moves outcome =>
    refine .failed ?_ moves outcome
    rw [Reader.perform_bind, perform]
    rfl
  | done perform moves outcome post => exact after perform moves outcome (hg _ _ _ moves post)

theorem mono (hf : KeepsStep o f r s P) (h : ∀ a r' s', r.Moves r' → P a r' s' → Q a r' s') :
    KeepsStep o f r s Q := by
  cases hf with
  | failed perform moves outcome => exact .failed perform moves outcome
  | done perform moves outcome post => exact .done perform moves outcome (h _ _ _ moves post)

/-- The unfinished program may be replaced by one that comes to the same. -/
theorem of_outcome_eq (h : r.outcome o s = r.outcome o s') (hf : KeepsStep o f r s' Q) :
    KeepsStep o f r s Q := by
  cases hf with
  | failed perform moves outcome => exact .failed perform moves (h.trans outcome)
  | done perform moves outcome post => exact .done perform moves (h.trans outcome) post

/-- A procedure that keeps step has a result. -/
theorem exists_result (hf : KeepsStep o f r s Q) :
    ∃ result r', r.perform f = some (result, r') ∧ r.Moves r' ∧
      ∀ a, result = .ok a → ∃ s', Q a r' s' := by
  cases hf with
  | failed perform moves outcome => exact ⟨_, _, perform, moves, fun _ h => by cases h⟩
  | done perform moves outcome post =>
    refine ⟨_, _, perform, moves, fun _ h => ?_⟩
    cases h
    exact ⟨_, post⟩

/-- A look that leaves the reader where it is. -/
theorem look {a : α} (h : r.perform f = some (.ok a, r)) (hg : KeepsStep o (g a) r s R) :
    KeepsStep o (f >>= g) r s R :=
  after h (.refl r) rfl hg

theorem peek {g : TokenRecord → Descent β} (hg : KeepsStep o (g r.next) r s R) :
    KeepsStep o (Descent.peek >>= g) r s R :=
  look r.perform_peek hg

theorem isAtEnd {yes no : Descent α} (hy : r.next.kind = .eof → KeepsStep o yes r s Q)
    (hn : r.next.kind ≠ .eof → KeepsStep o no r s Q) :
    KeepsStep o (Descent.isAtEnd >>= fun b => if b = true then yes else no) r s Q := by
  refine look r.perform_isAtEnd ?_
  by_cases h : r.next.kind = .eof
  · simpa [h] using hy h
  · simpa [h] using hn h

theorem check {yes no : Descent α} {kind : TokenKind}
    (hy : r.next.kind = kind → KeepsStep o yes r s Q)
    (hn : r.next.kind ≠ kind → KeepsStep o no r s Q) :
    KeepsStep o (Descent.check kind >>= fun b => if b = true then yes else no) r s Q := by
  refine look (r.perform_check kind) ?_
  by_cases h : r.next.kind = kind
  · simpa [h] using hy h
  · simpa [h] using hn h

theorem checkOp {yes no : Descent α} {ops : List Operator}
    (hy : r.next.kind = .operator → r.next.op ∈ ops → KeepsStep o yes r s Q)
    (hn : (r.next.kind = .operator → r.next.op ∉ ops) → KeepsStep o no r s Q) :
    KeepsStep o (Descent.checkOp ops >>= fun b => if b = true then yes else no) r s Q := by
  refine look (r.perform_checkOp ops) ?_
  by_cases h : r.next.kind = .operator ∧ r.next.op ∈ ops
  · simpa [h] using hy h.1 h.2
  · have hfalse : (decide (r.next.kind = .operator) && ops.contains r.next.op) = false := by
      simpa using h
    rw [hfalse]
    exact hn fun hk hop => h ⟨hk, hop⟩

/-- Step over a record that the program takes. -/
theorem step {a : α} (hn : r.next.kind ≠ .eof) (h : r.perform f = some (.ok a, r.forward))
    (ht : r.takes? o s = some s') (hg : KeepsStep o (g a) r.forward s' R) :
    KeepsStep o (f >>= g) r s R :=
  after h (Reader.moves_forward hn) (Reader.outcome_forward hn ht) hg

theorem advance {g : TokenRecord → Descent β} (hn : r.next.kind ≠ .eof)
    (ht : r.takes? o s = some s') (hg : KeepsStep o (g r.next) r.forward s' R) :
    KeepsStep o (Descent.advance >>= g) r s R :=
  step hn (Reader.perform_advance hn) ht hg

theorem accept {yes no : Descent α} {kind : TokenKind} (hk : kind ≠ .eof)
    (hy : r.next.kind = kind → ∃ s', r.takes? o s = some s' ∧ KeepsStep o yes r.forward s' Q)
    (hn : r.next.kind ≠ kind → KeepsStep o no r s Q) :
    KeepsStep o (Descent.accept kind >>= fun b => if b = true then yes else no) r s Q := by
  by_cases h : r.next.kind = kind
  · obtain ⟨s', ht, hf⟩ := hy h
    subst h
    exact step hk (Reader.perform_accept hk) ht hf
  · exact look (Reader.perform_accept_of_ne h) (hn h)

/-- Give up where the program refuses the next record. -/
theorem fail (cause : Cause) (h : r.Refused o s cause) :
    KeepsStep o (Descent.fail cause.kind cause.message) r s Q := by
  refine .failed (r.perform_fail _ _) (.refl r) ?_
  rw [Reader.outcome_stop h.takes?_eq, verdict_eq_error _ (by simp [h.isComplete_eq]), h.refusal_eq]
  rfl

theorem failGot (cause : Cause) {message : Bytes} (h : r.Refused o s cause)
    (hm : cause.message = message ++ Cause.got r.next.symbol) :
    KeepsStep o (Descent.failGot cause.kind message) r s Q := by
  have hfail : r.perform (Descent.failGot cause.kind message : Descent α) =
      r.perform (Descent.fail cause.kind cause.message) := by
    rw [hm]
    exact r.perform_failGot _ _
  cases fail (Q := Q) cause h with
  | failed perform moves outcome => exact .failed (hfail.trans perform) moves outcome
  | done perform moves outcome post => exact .done (hfail.trans perform) moves outcome post

/-- Step over a mark, or give up where the program refuses another record in its place. -/
theorem expect {g : Unit → Descent β} {mark : Punct} {context : String} (place : Place)
    (hmark : place.mark = mark) (hphrase : place.phrase = context)
    (yes : r.next.kind = .punct mark →
      ∃ s', r.takes? o s = some s' ∧ KeepsStep o (g ()) r.forward s' R)
    (no : r.next.kind ≠ .punct mark → r.Refused o s (.missingMark place r.next.symbol)) :
    KeepsStep o (Descent.expect mark context >>= g) r s R := by
  by_cases h : r.next.kind = .punct mark
  · obtain ⟨s', ht, hg⟩ := yes h
    exact step (by simp [h]) (Reader.perform_expect h) ht hg
  · refine bind (P := fun _ _ _ => False) ?_ fun _ _ _ _ hf => hf.elim
    subst hmark hphrase
    exact look (Reader.perform_accept_of_ne h) (failGot (.missingMark place _) (no h) rfl)

end KeepsStep

end ShaderFront
