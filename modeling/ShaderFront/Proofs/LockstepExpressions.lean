import ShaderFront.Proofs.Expressions
import ShaderFront.Proofs.Lockstep
import ShaderFront.Proofs.Viable

/-!
# Expressions read by descent

The procedures for expressions keep step with the grammar, on every row and from every
index. The grammar groups operators late: it keeps the parts that wait for an operand in
frames. A procedure for operators of a level is called only where the frames let the
operators of that level alone, and it ends at a token that is no such operator. This is
where the two come together again.
-/

namespace ShaderFront

variable {α : Type} {o : Options} {r r' : Reader} {s : State} {host : Host} {frames : List Frame}
  {e : Expr}

/-- The unfinished program inside an expression. -/
def State.reading (s : State) (host : Host) (frames : List Frame) (point : Point) : State :=
  s.withMode (.expression host frames point)

/-! ## Operators of a level -/

theorem Operator.mem_ofLevel {op : Operator} {n : Nat} (h : 1 ≤ n) (h' : n ≤ 6) :
    op ∈ ofLevel n ↔ op.level? = some n := by
  obtain rfl | rfl | rfl | rfl | rfl | rfl : n = 1 ∨ n = 2 ∨ n = 3 ∨ n = 4 ∨ n = 5 ∨ n = 6 := by
    omega
  all_goals cases op <;> simp [ofLevel, level?]

theorem Operator.level_bounds {op : Operator} {n : Nat} (h : op.level? = some n) :
    1 ≤ n ∧ n ≤ 6 := by
  cases op <;> simp [level?] at h <;> omega

/-- Do the frames let the operators of a level and above alone? -/
def HoldBackFrom (o : Options) (n : Nat) (frames : List Frame) : Prop :=
  ∀ op l, op.level? = some l → n ≤ l → holdsBack o op frames = true

theorem HoldBackFrom.mono {n m : Nat} (h : HoldBackFrom o n frames) (hm : n ≤ m) :
    HoldBackFrom o m frames :=
  fun op l hl hle => h op l hl (by omega)

/-- Nothing binds more tightly than the tightest level. -/
theorem holdBackFrom_seven (o : Options) (frames : List Frame) : HoldBackFrom o 7 frames :=
  fun _ _ hl hle => absurd (Operator.level_bounds hl).2 (by omega)

/-- An operator waits while those that bind more tightly are read. -/
theorem holdBackFrom_binary {left : Expr} {op : Operator} {n : Nat} (h : op.level? = some n) :
    HoldBackFrom o (n + 1) (.binary left op :: frames) :=
  fun _ l hl hle => Options.waits_iff.mpr ⟨n, l, h, hl, .inl (by omega)⟩

/-- An assignment that groups to the right waits while any operator is read. -/
theorem holdBackFrom_assign {left : Expr} (h : o.assignRight = true) :
    HoldBackFrom o 1 (.binary left .assign :: frames) := by
  intro op l hl hle
  refine Options.waits_iff.mpr ⟨1, l, rfl, hl, ?_⟩
  by_cases hlt : 1 < l
  · exact .inl hlt
  · obtain rfl : l = 1 := by omega
    refine .inr ⟨h, rfl, ?_⟩
    cases op <;> simp [Operator.level?] at hl
    rfl

/-- The next record is no operator of a level or above. -/
def Reader.EndsLevel (r : Reader) (n : Nat) : Prop :=
  r.next.kind = .operator → ∀ l, r.next.op.level? = some l → l < n

/-! ## The same unfinished expression -/

namespace State

variable {point : Point}

/-- Only between two statements may a program end. -/
theorem isComplete_withMode {mode : Mode} (h : mode ≠ .statement) :
    (s.withMode mode).isComplete = false := by
  cases mode <;> first | contradiction | simp [withMode, isComplete]

theorem isComplete_reading : (s.reading host frames point).isComplete = false :=
  isComplete_withMode (by simp)

theorem verdict_reading {got : Symbol} {p : Position} :
    (s.reading host frames point).verdict got p =
      .error ⟨refusalInExpression host frames point got, p⟩ :=
  verdict_eq_error p (by simp [isComplete_reading])

end State

namespace Reader

theorem takes?_complete :
    r.takes? o (s.reading host frames (.complete e)) =
      takeAfter? o s host frames e (.ofRecord r.next) := rfl

theorem takes?_operand :
    r.takes? o (s.reading host frames .operand) =
      (takeOperand? host frames (.ofRecord r.next)).map s.withMode := rfl

theorem takes?_of_takeOperand? {inner : List Frame} {point : Point}
    (h : takeOperand? host frames (.ofRecord r.next) = some (.expression host inner point)) :
    r.takes? o (s.reading host frames .operand) = some (s.reading host inner point) := by
  rw [takes?_operand, h]
  rfl

theorem takes?_callee {callee : Expr} {point : Point} (hp : r.next.kind ≠ .punct .openParen)
    (h : r.takes? o (s.reading host frames point) =
      takeAfterCallee? o s host frames callee (.ofRecord r.next)) :
    r.takes? o (s.reading host frames point) =
      r.takes? o (s.reading host frames (.complete callee)) := by
  rw [h, takes?_complete]
  exact if_neg (TokenRecord.symbol_ne_punct hp)

/-- An operator before a complete operand is complete with it. -/
theorem outcome_unary {op : Operator} {p : Position} :
    r.outcome o (s.reading host (.unary op p :: frames) (.complete e)) =
      r.outcome o (s.reading host frames (.complete (.unary op e (.startingAt p)))) := by
  refine outcome_congr rfl ?_
  simp only [State.verdict_reading, refusalInExpression, refusalAfter]

/-- An operator between two complete operands is complete if it does not wait. -/
theorem outcome_binary {left : Expr} {op : Operator}
    (h : r.next.kind = .operator → o.waits op r.next.op = false) :
    r.outcome o (s.reading host (.binary left op :: frames) (.complete e)) =
      r.outcome o (s.reading host frames (.complete (.binary op left e left.span))) := by
  refine outcome_congr ?_ ?_
  · rw [takes?_complete, takes?_complete, takeAfter?, takeAfter?]
    cases hs : (Token.ofRecord r.next).symbol with
    | operator next =>
      obtain ⟨hk, rfl⟩ := TokenRecord.operator_of_symbol hs
      have hgroup : group (o.waits · r.next.op) e (.binary left op :: frames) =
          group (o.waits · r.next.op) (.binary op left e left.span) frames := by
        rw [group, if_neg (by simp [h hk])]
      simp only [hgroup]
    | _ => rfl
  · simp only [State.verdict_reading, refusalInExpression, refusalAfter]

/-- A name is a complete operand unless it is called or is a container. -/
theorem outcome_name {name : Bytes} {p : Position} (hp : r.next.kind ≠ .punct .openParen)
    (hc : r.next.kind ≠ .punct .colon) :
    r.outcome o (s.reading host frames (.name name p)) =
      r.outcome o (s.reading host frames (.complete (.ident name (.startingAt p)))) := by
  refine outcome_congr (takes?_callee hp ?_) ?_
  · exact if_neg (TokenRecord.symbol_ne_punct hc)
  · simp only [State.verdict_reading, refusalInExpression]

/-- A field is a complete operand unless it is called. -/
theorem outcome_member {container field : Bytes} {p : Position}
    (hp : r.next.kind ≠ .punct .openParen) :
    r.outcome o (s.reading host frames (.member container field p)) =
      r.outcome o
        (s.reading host frames (.complete (.member container field (.startingAt p)))) := by
  refine outcome_congr (takes?_callee hp rfl) ?_
  simp only [State.verdict_reading, refusalInExpression]

/-- A list that does not end has another part. -/
theorem outcome_firstArgument (hp : r.next.kind ≠ .punct .closeParen) :
    r.outcome o (s.reading host frames .firstArgument) =
      r.outcome o (s.reading host frames .operand) := by
  refine outcome_congr ?_ ?_
  · exact if_neg (TokenRecord.symbol_ne_punct hp)
  · simp only [State.verdict_reading, refusalInExpression]

end Reader

/-! ## What may follow an operand -/

theorem takeAfter?_of_not_level {t : Token}
    (h : ∀ op, t.symbol = .operator op → op.level? = none) :
    takeAfter? o s host frames e t =
      match groupAll e frames with
      | (e, []) => endExpression? s host e t.symbol
      | (e, frames) =>
        match t.symbol with
        | .punct .closeParen => (closeBracket? host (some e) frames).map s.withMode
        | .punct .comma => (nextArgument? o host e frames).map s.withMode
        | _ => none := by
  unfold takeAfter?
  cases hs : t.symbol with
  | operator op =>
    simp only [h op hs, Option.isSome_none, Bool.false_eq_true, if_false]
    split
    · cases host <;> rfl
    · rfl
  | _ => rfl

namespace Reader

theorem EndsLevel.level?_eq_none (h : r.EndsLevel 1) {op : Operator}
    (hs : (Token.ofRecord r.next).symbol = .operator op) : op.level? = none := by
  obtain ⟨hk, rfl⟩ := TokenRecord.operator_of_symbol hs
  cases hl : r.next.op.level? with
  | none => rfl
  | some l =>
    have hlt := h hk l hl
    have hpos := (Operator.level_bounds hl).1
    omega

/-- An operator that the frames let alone takes the operand before it. -/
theorem takes?_operator {n : Nat} (hk : r.next.kind = .operator)
    (hl : r.next.op.level? = some n) (hh : HoldBackFrom o n frames) :
    r.takes? o (s.reading host frames (.complete e)) =
      some (s.reading host (.binary e r.next.op :: frames) .operand) := by
  have hs : (Token.ofRecord r.next).symbol = .operator r.next.op := by
    simp [Token.ofRecord, TokenRecord.symbol, hk]
  rw [takes?_complete, takeAfter?, hs]
  simp only [hl, Option.isSome_some, if_true, group_of_holdsBack e (hh _ _ hl (Nat.le_refl n))]
  rfl

/-- A bracket may close or go on after one of its parts. -/
theorem takes?_bracket {f : Frame} (hf : f.isBracket = true) (h : r.EndsLevel 1) :
    r.takes? o (s.reading host (f :: frames) (.complete e)) =
      if r.next.kind = .punct .closeParen then
        (closeBracket? host (some e) (f :: frames)).map s.withMode
      else if r.next.kind = .punct .comma then
        (nextArgument? o host e (f :: frames)).map s.withMode
      else none := by
  have hgroup : groupAll e (f :: frames) = (e, f :: frames) := by
    cases f <;> first | rfl | cases hf
  rw [takes?_complete, takeAfter?_of_not_level fun _ => h.level?_eq_none, hgroup]
  cases hk : r.next.kind with
  | punct mark => cases mark <;> simp [Token.ofRecord, TokenRecord.symbol, hk]
  | _ => simp [Token.ofRecord, TokenRecord.symbol, hk]

/-- An expression that no bracket encloses ends as what it is for says. -/
theorem takes?_host (h : r.EndsLevel 1) :
    r.takes? o (s.reading host [] (.complete e)) = endExpression? s host e r.next.symbol := by
  rw [takes?_complete, takeAfter?_of_not_level fun _ => h.level?_eq_none]
  rfl

end Reader

/-! ## The procedures -/

/-- What a procedure for a level leaves: a complete operand, which it has stepped over, before
a token that is no operator of the level. -/
structure ReadOperand (n : Nat) (r : Reader) (s : State) (host : Host) (frames : List Frame)
    (e : Expr) (r' : Reader) (s' : State) : Prop where
  /-- At least one record is read for it. -/
  precedes : r.Precedes r'
  /-- The operand is all that has been added. -/
  state_eq : s' = s.reading host frames (.complete e)
  /-- No operator that would go on with it follows. -/
  ends : r'.EndsLevel n

/-- A procedure reads operands of a level at this place. -/
def ReadsOperand (o : Options) (n : Nat) (f : Descent Expr) (r : Reader) : Prop :=
  ∀ (s : State) host frames, HoldBackFrom o n frames →
    KeepsStep o f r (s.reading host frames .operand) (ReadOperand n r s host frames)

/-- A procedure reads more parts of a bracket at this place. The frame of the bracket is given by
the parts that are there, newest first. -/
def ReadsParts (o : Options) (f : List Expr → Descent (List Expr)) (bracket : List Expr → Frame)
    (r : Reader) : Prop :=
  ∀ (s : State) host frames (parts : List Expr),
    KeepsStep o (f parts.reverse) r (s.reading host (bracket parts :: frames) .operand)
      fun all r' s' => ∃ e parts', all = (e :: parts').reverse ∧
        s' = s.reading host (bracket parts' :: frames) (.complete e) ∧ r.Precedes r' ∧
          r'.EndsLevel 1 ∧ r'.next.kind ≠ .punct .comma

/-- A procedure goes on with a left operand at this place. -/
def ReadsRest (o : Options) (n : Nat) (f : Expr → Descent Expr) (r : Reader) : Prop :=
  ∀ (s : State) host frames left, HoldBackFrom o n frames → r.EndsLevel (n + 1) →
    KeepsStep o (f left) r (s.reading host frames (.complete left))
      fun e r' s' => s' = s.reading host frames (.complete e) ∧ r'.EndsLevel n

/-- The procedures for expressions keep step at this place. -/
structure ReadsExpressions (o : Options) (r : Reader) : Prop where
  unary : ReadsOperand o 7 o.unary? r
  binary : ∀ n, 2 ≤ n → n ≤ 7 → ReadsOperand o n (o.binary? n) r
  binaryRest : ∀ n, 1 ≤ n → n ≤ 6 → (o.assignRight = true → 2 ≤ n) →
    ReadsRest o n (o.binaryRest? n) r
  assign : ReadsOperand o 1 o.assign? r
  arguments : ∀ callee opened, ReadsParts o (o.arguments? opened) (.call callee opened) r
  components : ∀ type start, ReadsParts o o.components? (.construct type start) r

theorem Reader.endsLevel_seven (r : Reader) : r.EndsLevel 7 :=
  fun _ _ hl => Nat.lt_succ_of_le (Operator.level_bounds hl).2

/-- Without an operator of the level, the next looser level ends as well. -/
theorem Reader.EndsLevel.pred {n : Nat} (h1 : 1 ≤ n) (h6 : n ≤ 6) (h : r.EndsLevel (n + 1))
    (hop : r.next.kind = .operator → r.next.op ∉ Operator.ofLevel n) : r.EndsLevel n := by
  intro hk l hl
  have hlt := h hk l hl
  have hne : l ≠ n := by
    rintro rfl
    exact hop hk ((Operator.mem_ofLevel h1 h6).mpr hl)
  omega

/-- An operator does not wait for one that binds no more tightly, unless both are assignments
that group to the right. -/
theorem Reader.EndsLevel.waits_eq_false {n : Nat} {op : Operator} (h : r.EndsLevel (n + 1))
    (hl : op.level? = some n) (ha : o.assignRight = true → 2 ≤ n) (hk : r.next.kind = .operator) :
    o.waits op r.next.op = false := by
  refine Bool.eq_false_iff.mpr fun hw => ?_
  obtain ⟨p, m, hp, hm, hlt | ⟨hr, rfl, -⟩⟩ := Options.waits_iff.mp hw
  · have := h hk m hm
    rw [hl] at hp
    cases hp
    omega
  · cases hl
    exact absurd (ha hr) (by omega)

namespace Descent

section

variable (later : ∀ r', r.Precedes r' → ReadsExpressions o r')

include later

theorem reads_binaryRest {n : Nat} (h1 : 1 ≤ n) (h6 : n ≤ 6) (ha : o.assignRight = true → 2 ≤ n) :
    ReadsRest o n (o.binaryRest? n) r := by
  intro s host frames left hh he
  rw [Options.binaryRest?]
  refine .checkOp (fun hk hop => ?_) fun hop => ?_
  · have hn : r.next.kind ≠ .eof := by simp [hk]
    have hl : r.next.op.level? = some n := (Operator.mem_ofLevel h1 h6).mp hop
    refine .advance hn (Reader.takes?_operator hk hl hh) ?_
    refine ((later _ (Reader.precedes_forward hn)).binary (n + 1) (by omega) (by omega) s host _
      (holdBackFrom_binary hl)).bind ?_
    rintro e r' _ hm ⟨hp, rfl, he⟩
    refine .of_outcome_eq (Reader.outcome_binary (he.waits_eq_false hl ha)) ?_
    exact (later _ ((Reader.precedes_forward hn).moves_right hm)).binaryRest n h1 h6 ha
      s host frames _ hh he
  · exact .pure ⟨rfl, he.pred h1 h6 hop⟩

theorem reads_binary (hu : ReadsOperand o 7 o.unary? r) {n : Nat} (h2 : 2 ≤ n) (h7 : n ≤ 7) :
    ReadsOperand o n (o.binary? n) r := by
  -- From the tightest level down to the loosest.
  obtain ⟨k, hk⟩ : ∃ k, n + k = 7 := ⟨7 - n, by omega⟩
  induction k generalizing n with
  | zero =>
    obtain rfl : n = 7 := hk
    intro s host frames hh
    rw [Options.binary?, if_neg (by omega)]
    exact hu s host frames hh
  | succ k ih =>
    intro s host frames hh
    rw [Options.binary?, if_pos (by omega)]
    refine (ih (by omega) (by omega) (by omega) s host frames (hh.mono (Nat.le_succ n))).bind ?_
    rintro left r' _ hm ⟨hp, rfl, he⟩
    refine ((later r' hp).binaryRest n (by omega) (by omega) (fun _ => h2) s host frames left
      hh he).mono ?_
    rintro e r'' _ hm' ⟨rfl, he'⟩
    exact ⟨hp.moves_right hm', rfl, he'⟩

theorem reads_assign (hb : ReadsOperand o 2 (o.binary? 2) r) : ReadsOperand o 1 o.assign? r := by
  intro s host frames hh
  rw [Options.assign?]
  refine (hb s host frames (hh.mono (by omega))).bind ?_
  rintro left r' _ hm ⟨hp, rfl, he⟩
  by_cases hr : o.assignRight = true
  · rw [if_pos hr]
    refine .checkOp (fun hk hop => ?_) fun hop => ?_
    · have hn : r'.next.kind ≠ .eof := by simp [hk]
      have hop : r'.next.op = .assign := by simpa using hop
      refine .advance hn (Reader.takes?_operator (n := 1) hk (by rw [hop]; rfl) hh) ?_
      rw [hop]
      have hp' : r.Precedes r'.forward := hm.precedes_right (Reader.precedes_forward hn)
      refine ((later _ hp').assign s host _ (holdBackFrom_assign hr)).bind ?_
      rintro right r'' _ hm' ⟨hp'', rfl, he'⟩
      refine .of_outcome_eq (Reader.outcome_binary fun hk' => ?_) (.pure ⟨?_, rfl, he'⟩)
      · refine Bool.eq_false_iff.mpr fun hw => ?_
        obtain ⟨_, l, -, hl, -⟩ := Options.waits_iff.mp hw
        exact absurd (he' hk' l hl) (Nat.not_lt.mpr (Operator.level_bounds hl).1)
      · exact hp'.moves_right hm'
    · exact .pure ⟨hp, rfl, he.pred (by omega) (by omega) hop⟩
  · rw [if_neg hr]
    refine ((later r' hp).binaryRest 1 (by omega) (by omega) (fun h => absurd h hr) s host frames
      left hh he).mono ?_
    rintro e r'' _ hm' ⟨rfl, he'⟩
    exact ⟨hp.moves_right hm', rfl, he'⟩

theorem reads_arguments (ha : ReadsOperand o 1 o.assign? r) (callee : Expr) (opened : Position) :
    ReadsParts o (o.arguments? opened) (.call callee opened) r := by
  intro s host frames parts
  rw [Options.arguments?]
  refine (ha s host _ fun _ _ _ _ => rfl).bind ?_
  rintro e r' _ hm ⟨hp, rfl, he⟩
  refine .check (fun hk => ?_) fun hk => .pure ⟨e, parts, by simp, rfl, hp, he, hk⟩
  by_cases hmany : o.manyArguments = true
  · rw [if_pos hmany, ← List.reverse_cons]
    have hn : r'.next.kind ≠ .eof := by simp [hk]
    have ht : r'.takes? o (s.reading host (.call callee opened parts :: frames) (.complete e)) =
        some (s.reading host (.call callee opened (e :: parts) :: frames) .operand) := by
      rw [Reader.takes?_bracket rfl he]
      simp [hk, nextArgument?, hmany, State.reading]
    have hp' : r.Precedes r'.forward := hm.precedes_right (Reader.precedes_forward hn)
    refine .advance hn ht (((later _ hp').arguments callee opened s host frames _).mono ?_)
    rintro all r'' _ hm' ⟨e', parts', rfl, rfl, hp'', he', hc⟩
    exact ⟨e', parts', rfl, rfl, hp'.moves_right hm', he', hc⟩
  · rw [if_neg hmany]
    refine .fail (.severalArguments opened) ⟨?_, State.isComplete_reading, ?_⟩
    · rw [Reader.takes?_bracket rfl he]
      simp [hk, nextArgument?, hmany]
    · simp [State.refusal, State.reading, State.withMode, refusalInExpression, refusalAfter,
        TokenRecord.symbol, hk]

theorem reads_components (ha : ReadsOperand o 1 o.assign? r) (type : Keyword) (start : Position) :
    ReadsParts o o.components? (.construct type start) r := by
  intro s host frames parts
  rw [Options.components?]
  refine (ha s host _ fun _ _ _ _ => rfl).bind ?_
  rintro e r' _ hm ⟨hp, rfl, he⟩
  refine .accept (by simp) (fun hk => ?_) fun hk => .pure ⟨e, parts, by simp, rfl, hp, he, hk⟩
  have hn : r'.next.kind ≠ .eof := by simp [hk]
  refine ⟨s.reading host (.construct type start (e :: parts) :: frames) .operand, ?_, ?_⟩
  · rw [Reader.takes?_bracket rfl he]
    simp [hk, nextArgument?, State.reading]
  · have hp' : r.Precedes r'.forward := hm.precedes_right (Reader.precedes_forward hn)
    rw [← List.reverse_cons]
    refine ((later _ hp').components type start s host frames _).mono ?_
    rintro all r'' _ hm' ⟨e', parts', rfl, rfl, hp'', he', hc⟩
    exact ⟨e', parts', rfl, rfl, hp'.moves_right hm', he', hc⟩

/-- A call, from its opening parenthesis on. -/
theorem reads_call {callee : Expr} {point : Point} (hk : r.next.kind = .punct .openParen)
    (ht : r.takes? o (s.reading host frames point) =
      some (s.reading host (.call callee r.next.pos [] :: frames) .firstArgument)) :
    KeepsStep o (o.call? callee) r (s.reading host frames point)
      (ReadOperand 7 r s host frames) := by
  have hn : r.next.kind ≠ .eof := by simp [hk]
  have hp := Reader.precedes_forward hn
  rw [Options.call?]
  refine .peek (.step hn (Reader.perform_expect hk) ht (.accept (by simp) (fun hk' => ?_) ?_))
  · refine ⟨s.reading host frames (.complete (.call callee [] callee.span)), ?_, ?_⟩
    · exact if_pos (TokenRecord.symbol_of_punct hk')
    · exact .pure ⟨hp.moves_right (Reader.moves_forward (by simp [hk'])), rfl,
        Reader.endsLevel_seven _⟩
  · intro hk'
    refine .of_outcome_eq (Reader.outcome_firstArgument hk') ?_
    refine ((later _ hp).arguments callee r.next.pos s host frames []).bind ?_
    rintro all r' _ hm ⟨e, parts, rfl, rfl, -, he, hc⟩
    refine .expect .callEnd rfl rfl (fun hclose => ?_) fun hopen =>
      ⟨?_, State.isComplete_reading, ?_⟩
    · refine ⟨s.reading host frames (.complete (.call callee (e :: parts).reverse callee.span)),
        ?_, .pure ⟨?_, rfl, Reader.endsLevel_seven _⟩⟩
      · rw [Reader.takes?_bracket rfl he, if_pos hclose]
        rfl
      · exact (hp.moves_right hm).moves_right (Reader.moves_forward (by simp [hclose]))
    · rw [Reader.takes?_bracket rfl he, if_neg hopen, if_neg hc]
    · exact if_neg (TokenRecord.symbol_ne_punct hc)

theorem reads_construct {k : Keyword} (hk : r.next.kind = .keyword k) (hv : k.isVector = true) :
    KeepsStep o o.construct? r (s.reading host frames .operand)
      (ReadOperand 7 r s host frames) := by
  have hn : r.next.kind ≠ .eof := by simp [hk]
  have hp := Reader.precedes_forward hn
  have hname : r.next.kind.name = k.spelling := by rw [hk]; rfl
  have ht : r.takes? o (s.reading host frames .operand) =
      some (s.reading host frames (.vector k r.next.pos)) :=
    Reader.takes?_of_takeOperand? (by
      simp [takeOperand?, Token.ofRecord, TokenRecord.symbol, hk, hv])
  rw [Options.construct?]
  refine .advance hn ht ?_
  rw [hname]
  refine .expect (.vectorStart k) rfl rfl (fun hopen => ?_) fun hopen =>
    ⟨?_, State.isComplete_reading, rfl⟩
  · have hp' := hp.moves_right (Reader.moves_forward (by simp [hopen]))
    refine ⟨s.reading host (.construct k r.next.pos [] :: frames) .firstArgument, ?_, ?_⟩
    · exact if_pos (TokenRecord.symbol_of_punct hopen)
    refine .accept (by simp) (fun hk' => ?_) fun hk' => ?_
    · refine ⟨s.reading host frames (.complete (.construct (utf8 k.spelling) [] r.next.span)),
        ?_, ?_⟩
      · exact if_pos (TokenRecord.symbol_of_punct hk')
      · exact .pure ⟨hp'.moves_right (Reader.moves_forward (by simp [hk'])), rfl,
          Reader.endsLevel_seven _⟩
    · refine .of_outcome_eq (Reader.outcome_firstArgument hk') ?_
      refine ((later _ hp').components k r.next.pos s host frames []).bind ?_
      rintro all r' _ hm ⟨e, parts, rfl, rfl, -, he, hc⟩
      refine .expect .vectorEnd rfl rfl (fun hclose => ?_) fun hopen' =>
        ⟨?_, State.isComplete_reading, rfl⟩
      · refine ⟨s.reading host frames
          (.complete (.construct (utf8 k.spelling) (e :: parts).reverse r.next.span)),
          ?_, .pure ⟨?_, rfl, Reader.endsLevel_seven _⟩⟩
        · rw [Reader.takes?_bracket rfl he, if_pos hclose]
          rfl
        · exact (hp'.moves_right hm).moves_right (Reader.moves_forward (by simp [hclose]))
      · rw [Reader.takes?_bracket rfl he, if_neg hopen', if_neg hc]
  · exact if_neg (TokenRecord.symbol_ne_punct hopen)

/-- What may be called is called, or complete. -/
theorem reads_callee {callee : Expr} {point : Point}
    (ht : r.takes? o (s.reading host frames point) =
      takeAfterCallee? o s host frames callee (.ofRecord r.next))
    (hk : r.next.kind = .punct .openParen) :
    KeepsStep o (o.call? callee) r (s.reading host frames point)
      fun e _ s' => s' = s.reading host frames (.complete e) := by
  refine (reads_call later hk ?_).mono fun _ _ _ _ h => h.state_eq
  rw [ht]
  exact if_pos (TokenRecord.symbol_of_punct hk)

/-- A name with what follows it. -/
theorem reads_named (t : TokenRecord) :
    KeepsStep o (o.named? t) r (s.reading host frames (.name t.text t.pos))
      fun e _ s' => s' = s.reading host frames (.complete e) := by
  rw [Options.named?]
  refine .check (fun hopen => ?_) fun hopen => .accept (by simp) (fun hcolon => ?_) fun hcolon => ?_
  · refine reads_callee later ?_ hopen
    exact if_neg (by simp [Token.ofRecord, TokenRecord.symbol, hopen])
  · have hp : r.Precedes r.forward := Reader.precedes_forward (by simp [hcolon])
    refine ⟨s.reading host frames (.field t.text t.pos), ?_, .check (fun hident => ?_)
      fun hident => ?_⟩
    · exact if_pos (TokenRecord.symbol_of_punct hcolon)
    · have hn : r.forward.next.kind ≠ .eof := by simp [hident]
      have hp' : r.Precedes r.forward.forward := hp.moves_right (Reader.moves_forward hn)
      have ht : r.forward.takes? o (s.reading host frames (.field t.text t.pos)) =
          some (s.reading host frames (.member t.text r.forward.next.text t.pos)) := by
        change (Symbol.name? _).map _ = _
        simp [Token.ofRecord, TokenRecord.symbol, hident, Symbol.name?, State.reading,
          State.withMode]
      refine .advance hn ht (.check (fun hopen' => ?_) fun hopen' => ?_)
      · exact reads_callee (fun r' h => later r' (hp'.1.precedes_right h)) rfl hopen'
      · exact .of_outcome_eq (Reader.outcome_member hopen') (.pure rfl)
    · refine .failGot (.missingField t.text r.forward.next.symbol)
        ⟨?_, State.isComplete_reading, rfl⟩ rfl
      exact Option.map_eq_none_iff.mpr (TokenRecord.name?_eq_none hident)
  · exact .of_outcome_eq (Reader.outcome_name hopen hcolon) (.pure rfl)

theorem reads_primary (hu : r.next.kind = .operator → r.next.op ∉ [Operator.not, .minus]) :
    KeepsStep o o.primary? r (s.reading host frames .operand) (ReadOperand 7 r s host frames) := by
  rw [Options.primary?]
  refine .peek ?_
  -- A literal is read in one step.
  have literal {e : Expr} (hn : r.next.kind ≠ .eof)
      (h : takeOperand? host frames (.ofRecord r.next) =
        some (.expression host frames (.complete e))) :
      KeepsStep o (Descent.advance >>= fun _ => pure e) r (s.reading host frames .operand)
        (ReadOperand 7 r s host frames) :=
    .advance hn (Reader.takes?_of_takeOperand? h)
      (.pure ⟨Reader.precedes_forward hn, rfl, Reader.endsLevel_seven _⟩)
  split
  · next hk =>
    refine literal (by simp [hk]) ?_
    simp only [takeOperand?, Token.ofRecord, TokenRecord.symbol, hk]
    rfl
  · next hk =>
    refine literal (by simp [hk]) ?_
    simp only [takeOperand?, Token.ofRecord, TokenRecord.symbol, hk]
    rfl
  · next hk =>
    refine literal (by simp [hk]) ?_
    simp only [takeOperand?, Token.ofRecord, TokenRecord.symbol, hk]
    rfl
  · next hk =>
    have hn : r.next.kind ≠ .eof := by simp [hk]
    have hp := Reader.precedes_forward hn
    have ht : takeOperand? host frames (.ofRecord r.next) =
        some (.expression host frames (.name r.next.text r.next.pos)) := by
      simp [takeOperand?, Token.ofRecord, TokenRecord.symbol, hk]
    refine .advance hn (Reader.takes?_of_takeOperand? ht) ?_
    refine (reads_named (fun r' h => later r' (hp.1.precedes_right h)) _).mono ?_
    rintro e r' _ hm rfl
    exact ⟨hp.moves_right hm, rfl, Reader.endsLevel_seven _⟩
  · next hk =>
    have hn : r.next.kind ≠ .eof := by simp [hk]
    have hp := Reader.precedes_forward hn
    have ht : takeOperand? host frames (.ofRecord r.next) =
        some (.expression host (.paren r.next.pos :: frames) .operand) := by
      simp [takeOperand?, Token.ofRecord, TokenRecord.symbol, hk]
    refine .advance hn (Reader.takes?_of_takeOperand? ht) ?_
    refine ((later _ hp).assign s host _ fun _ _ _ _ => rfl).bind ?_
    rintro e r' _ hm ⟨-, rfl, he⟩
    refine .expect .parenEnd rfl rfl (fun hclose => ?_) fun hopen =>
      ⟨?_, State.isComplete_reading, rfl⟩
    · refine ⟨s.reading host frames (.complete (.paren e r.next.span)), ?_, .pure ⟨?_, rfl,
        Reader.endsLevel_seven _⟩⟩
      · rw [Reader.takes?_bracket rfl he, if_pos hclose]
        rfl
      · exact (hp.moves_right hm).moves_right (Reader.moves_forward (by simp [hclose]))
    · rw [Reader.takes?_bracket rfl he, if_neg hopen]
      exact ite_self none
  · next hk => exact reads_construct later hk rfl
  · next hk => exact reads_construct later hk rfl
  · next hbool hnumber hstring hident hparen hvec3 hvec4 =>
    refine .fail (.notOperand r.next.symbol) ⟨?_, State.isComplete_reading, rfl⟩
    rw [Reader.takes?_operand, Option.map_eq_none_iff]
    cases hk : r.next.kind with
    | operator =>
      have hop := hu hk
      cases h : r.next.op <;>
        simp_all [takeOperand?, Token.ofRecord, TokenRecord.symbol, Operator.isUnary]
    | keyword k =>
      cases k <;> simp_all [takeOperand?, Token.ofRecord, TokenRecord.symbol, Keyword.isVector]
    | punct mark => cases mark <;> simp_all [takeOperand?, Token.ofRecord, TokenRecord.symbol]
    | _ => simp_all [takeOperand?, Token.ofRecord, TokenRecord.symbol]

theorem reads_unary : ReadsOperand o 7 o.unary? r := by
  intro s host frames _
  rw [Options.unary?]
  refine .checkOp (fun hk hop => ?_) fun hop => reads_primary later hop
  have hn : r.next.kind ≠ .eof := by simp [hk]
  have hp := Reader.precedes_forward hn
  have hu : r.next.op.isUnary = true := by
    cases h : r.next.op <;> simp_all [Operator.isUnary]
  have ht : takeOperand? host frames (.ofRecord r.next) =
      some (.expression host (.unary r.next.op r.next.pos :: frames) .operand) := by
    simp [takeOperand?, Token.ofRecord, TokenRecord.symbol, hk, hu]
  refine .advance hn (Reader.takes?_of_takeOperand? ht) ?_
  refine ((later _ hp).unary s host _ (holdBackFrom_seven o _)).bind ?_
  rintro e r' _ hm ⟨-, rfl, he⟩
  exact .of_outcome_eq Reader.outcome_unary (.pure ⟨hp.moves_right hm, rfl, he⟩)

end

end Descent

/-- The procedures for expressions keep step with the grammar everywhere. -/
theorem readsExpressions (o : Options) (r : Reader) : ReadsExpressions o r := by
  induction r using Reader.Precedes.induction with
  | h r later =>
    have hunary := Descent.reads_unary later
    have hlogical := Descent.reads_binary later hunary (Nat.le_refl 2) (by omega)
    have hassign := Descent.reads_assign later hlogical
    exact {
      unary := hunary
      binary := fun n h2 h7 => Descent.reads_binary later hunary h2 h7
      binaryRest := fun n h1 h6 ha => Descent.reads_binaryRest later h1 h6 ha
      assign := hassign
      arguments := Descent.reads_arguments later hassign
      components := Descent.reads_components later hassign }

end ShaderFront
