import ShaderFront.Proofs.LockstepExpressions

/-!
# Statements read by descent

The procedures for statements keep step with the grammar, on every row and from every
index, and so does the one for whole programs. Hence both ways of reading give the same
program, or the same diagnostic, and stop at the same token. On the way each statement
that is read, at any depth, moves the index.
-/

namespace ShaderFront

variable {o : Options} {r r' : Reader} {s : State}

/-! ## Where a statement starts -/

/-- A statement may start here: what encloses it neither closes nor ends. -/
structure Reader.Starts (r : Reader) (s : State) : Prop where
  /-- A closing brace closes nothing. -/
  closes : r.next.kind = .punct .closeBrace → closeBlock? s = none
  /-- At the end a condition waits for its statement. -/
  ends : r.next.kind = .eof → ∃ start condition outer, s.scopes = .guard start condition :: outer

/-- A procedure reads a statement at this place. -/
def ReadsStatement (o : Options) (f : Descent Stmt) (r : Reader) : Prop :=
  ∀ s : State, r.Starts s → KeepsStep o f r (s.withMode .statement)
    fun stmt r' s' => r.Precedes r' ∧ s' = s.complete stmt

/-- A block or a function as it is while its statements are read, and as it is then. The
statements are given newest first. -/
structure IsBody (scope : List Stmt → Scope) (closed : List Stmt → Stmt) : Prop where
  /-- A statement that has been read becomes its newest one. -/
  add : ∀ stmt finished inner outer, addStatement stmt finished (scope inner :: outer) =
    { finished := finished, scopes := scope (stmt :: inner) :: outer }
  /-- The closing brace makes a statement of it. -/
  close : ∀ (s : State) inner,
    closeBlock? (s.enter (scope inner)) = some (s.complete (closed inner))
  /-- It may not be left open. -/
  refusal : ∀ inner outer, refusalAtStatement .eof (scope inner :: outer) = .unclosedBlock .eof

theorem isBody_block (opened : Position) :
    IsBody (.block opened) fun inner => .block inner.reverse (.startingAt opened) :=
  ⟨fun _ _ _ _ => rfl, fun _ _ => rfl, fun _ _ => rfl⟩

theorem isBody_function (head : Head) (opened : Position) :
    IsBody (.function head opened)
      fun inner => .function head [] inner.reverse (.startingAt opened) :=
  ⟨fun _ _ _ _ => rfl, fun _ _ => rfl, fun _ _ => rfl⟩

/-- The procedures for statements keep step at this place. -/
structure ReadsStatements (o : Options) (r : Reader) : Prop where
  /-- One statement, whatever encloses it. -/
  statement : ReadsStatement o o.statement? r
  /-- All statements up to the closing brace of a block or a function. -/
  statements : ∀ scope closed, IsBody scope closed → ∀ (s : State) (inner : List Stmt),
    KeepsStep o (o.statements? inner.reverse) r (s.enter (scope inner)) fun body r' s' =>
      ∃ inner', body = inner'.reverse ∧ s' = s.enter (scope inner') ∧
        r'.next.kind = .punct .closeBrace

/-- Does a statement of a sort of its own start with a record of this sort? -/
def TokenKind.opensStatement : TokenKind → Bool
  | .attr | .punct .openBrace => true
  | .keyword k => k.isType || k = .cond || k = .input || k = .struct
  | _ => false

/-- The place after an expression that no bracket encloses. -/
def Host.place : Host → Place
  | .statement _ => .statementEnd
  | .condition _ => .conditionEnd
  | .initial _ => .declarationEnd

theorem TokenKind.isType_iff {kind : TokenKind} :
    kind.isType = true ↔ ∃ k, kind = .keyword k ∧ k.isType = true := by
  cases kind <;> simp [isType]

theorem Reader.takes?_statement :
    r.takes? o (s.withMode .statement) = takeStatement? s (.ofRecord r.next) := rfl

/-! ## Simple statements -/

namespace Descent

/-- A mark between two modes. -/
theorem expect_mark {β : Type} {g : Unit → Descent β} {mark : Punct} {context : String}
    {R : β → Reader → State → Prop} {mode mode' : Mode} (place : Place)
    (hmark : place.mark = mark) (hphrase : place.phrase = context)
    (ht : r.takes? o (s.withMode mode) = s.onMark? (.ofRecord r.next) mark mode')
    (hc : mode ≠ .statement)
    (hr : (s.withMode mode).refusal r.next.symbol = .missingMark place r.next.symbol)
    (hg : r.Precedes r.forward → KeepsStep o (g ()) r.forward (s.withMode mode') R) :
    KeepsStep o (expect mark context >>= g) r (s.withMode mode) R := by
  refine .expect place hmark hphrase (fun hk => ?_) fun hk =>
    ⟨ht.trans ?_, State.isComplete_withMode hc, hr⟩
  · refine ⟨s.withMode mode', ht.trans ?_, hg (Reader.precedes_forward (by simp [hk]))⟩
    exact if_pos (TokenRecord.symbol_of_punct hk)
  · exact if_neg (TokenRecord.symbol_ne_punct hk)

theorem reads_directive (hk : r.next.kind = .attr) : ReadsStatement o Options.directive r := by
  intro s _
  have hn : r.next.kind ≠ .eof := by simp [hk]
  have ht : r.takes? o (s.withMode .statement) =
      some (s.complete (.directive r.next.text [] r.next.span)) := by
    rw [Reader.takes?_statement]
    simp [takeStatement?, Token.ofRecord, TokenRecord.symbol, hk, Token.span, TokenRecord.span]
  exact .advance hn ht (.pure ⟨Reader.precedes_forward hn, rfl⟩)

/-- Where no other statement starts, an expression does. -/
theorem outcome_statement (hs : r.Starts s) (ho : r.next.kind.opensStatement = false) :
    r.outcome o (s.withMode .statement) =
      r.outcome o (s.reading (.statement r.next.pos) [] .operand) := by
  refine Reader.outcome_congr ?_ ?_
  · rw [Reader.takes?_operand, Reader.takes?_statement]
    cases hkind : r.next.kind with
    | attr => simp [hkind, TokenKind.opensStatement] at ho
    | punct mark =>
      cases mark with
      | openBrace => simp [hkind, TokenKind.opensStatement] at ho
      | closeBrace =>
        simp only [takeStatement?, takeOperand?, Token.ofRecord, TokenRecord.symbol, hkind]
        exact hs.closes hkind
      | _ => simp only [takeStatement?, takeOperand?, Token.ofRecord, TokenRecord.symbol, hkind]
    | keyword k =>
      cases k <;>
        simp_all [TokenKind.opensStatement, takeStatement?, takeOperand?, Token.ofRecord,
          TokenRecord.symbol, Keyword.isType, Keyword.isVector]
    | _ => simp only [takeStatement?, takeOperand?, Token.ofRecord, TokenRecord.symbol, hkind]
  · rw [State.verdict_reading]
    by_cases he : r.next.kind = .eof
    · obtain ⟨start, condition, outer, hscopes⟩ := hs.ends he
      simp [State.verdict, State.isComplete, State.refusal, State.withMode, hscopes,
        refusalAtStatement, refusalInExpression]
    · have hsym := TokenRecord.symbol_ne_eof he
      rw [verdict_eq_error _ (by simp [hsym])]
      simp only [State.refusal, State.withMode, refusalInExpression, refusalAtStatement]
      split <;> simp [hsym]

/-- The end of an expression that no bracket encloses. -/
theorem expect_host {β : Type} {g : Unit → Descent β} {host : Host} {e : Expr} {mark : Punct}
    {context : String} {R : β → Reader → State → Prop} (he : r.EndsLevel 1)
    (hmark : host.place.mark = mark) (hphrase : host.place.phrase = context)
    (yes : r.next.kind = .punct mark →
      ∃ s', endExpression? s host e (.punct mark) = some s' ∧ KeepsStep o (g ()) r.forward s' R) :
    KeepsStep o (expect mark context >>= g) r (s.reading host [] (.complete e)) R := by
  refine .expect host.place hmark hphrase (fun hk => ?_) fun hk =>
    ⟨?_, State.isComplete_reading, ?_⟩
  · obtain ⟨s', hend, hg⟩ := yes hk
    refine ⟨s', ?_, hg⟩
    rw [Reader.takes?_host he, ← hend]
    simp only [TokenRecord.symbol, hk]
  · have hsym := TokenRecord.symbol_ne_punct hk
    rw [Reader.takes?_host he]
    subst hmark
    cases host <;> unfold endExpression? <;> split <;> simp_all [Host.place, Place.mark]
  · cases host <;> rfl

theorem reads_expressionStatement (ho : r.next.kind.opensStatement = false) :
    ReadsStatement o o.expressionStatement r := by
  intro s hs
  unfold Options.expressionStatement
  refine .peek (.of_outcome_eq (outcome_statement hs ho) ?_)
  refine ((readsExpressions o r).assign s _ [] fun _ _ _ _ => rfl).bind ?_
  rintro e r' _ hm ⟨hp, rfl, he⟩
  refine expect_host he rfl rfl fun hsemi => ⟨_, rfl, .pure ⟨?_, rfl⟩⟩
  exact hp.moves_right (Reader.moves_forward (by simp [hsemi]))

/-! ## Structs -/

theorem reads_memberType {st : OpenStruct} {name : Bytes} {start : Position} :
    KeepsStep o Options.memberType r (s.withMode (.memberType st name start)) fun type _ s' =>
      s' = s.withMode (.memberEnd st ⟨name, type, .startingAt start⟩) := by
  -- Only a name and a type word are taken.
  have ht : r.takes? o (s.withMode (.memberType st name start)) =
      (memberTypeName? r.next.symbol).map fun type =>
        s.withMode (.memberEnd st ⟨name, type, .startingAt start⟩) := rfl
  unfold Options.memberType
  refine .peek ?_
  by_cases hident : r.next.kind = .ident
  · rw [if_pos hident]
    refine .advance (by simp [hident]) (ht.trans ?_) (.pure rfl)
    simp [memberTypeName?, TokenRecord.symbol, hident, Symbol.name?]
  rw [if_neg hident]
  by_cases htype : r.next.kind.isType = true
  · rw [if_pos htype]
    obtain ⟨k, hk, hisType⟩ := TokenKind.isType_iff.mp htype
    refine .advance (by simp [hk]) (ht.trans ?_) (.pure rfl)
    simp [memberTypeName?, TokenRecord.symbol, hk, Symbol.name?, Symbol.typeWord?, hisType,
      TokenKind.name]
  · rw [if_neg htype]
    refine .failGot (.missingMemberType r.next.symbol)
      ⟨ht.trans ?_, State.isComplete_withMode (by simp), rfl⟩ rfl
    simp [memberTypeName?, TokenRecord.name?_eq_none hident, TokenRecord.typeWord?_eq_none htype]

theorem reads_member {st : OpenStruct} (hc : r.next.kind ≠ .punct .closeBrace)
    (he : r.next.kind ≠ .eof) :
    KeepsStep o Options.member r (s.withMode (.members st)) fun m r' s' =>
      r.Precedes r' ∧ s' = s.withMode (.members (st.add o m)) := by
  have hsym := TokenRecord.symbol_ne_punct hc
  have ht : r.takes? o (s.withMode (.members st)) =
      r.next.symbol.name?.map fun name => s.withMode (.memberColon st name r.next.pos) :=
    if_neg hsym
  unfold Options.member
  refine .check (fun hident => ?_) fun hident => ?_
  · have hp := Reader.precedes_forward he
    have htaken : r.takes? o (s.withMode (.members st)) =
        some (s.withMode (.memberColon st r.next.text r.next.pos)) := by
      rw [ht]
      simp [TokenRecord.symbol, hident, Symbol.name?]
    refine .advance he htaken (expect_mark .memberType rfl rfl rfl (by simp) rfl fun hcolon => ?_)
    refine reads_memberType.bind ?_
    rintro type r' _ hm rfl
    refine expect_mark .memberEnd rfl rfl rfl (by simp) rfl fun hsemi => .pure ⟨?_, rfl⟩
    exact ((hp.moves_right hcolon.1).moves_right hm).moves_right hsemi.1
  · refine .failGot (.missingMemberName r.next.symbol)
      ⟨?_, State.isComplete_withMode (by simp), ?_⟩ rfl
    · rw [ht, TokenRecord.name?_eq_none hident, Option.map_none]
    · have hend := TokenRecord.symbol_ne_eof he
      change refusalAtMember st _ = _
      unfold refusalAtMember
      split <;> simp_all

/-- The struct that a loop over members is in. It may be closed once it has a member, or if it
needs none. -/
theorem reads_members (name : Bytes) (start : Position) (r : Reader) :
    ∀ (s : State) (kept : List Member),
      (r.next.kind = .punct .closeBrace → (kept.isEmpty && !o.allMembers) = false) →
      KeepsStep o (o.members? name kept.reverse) r (s.withMode (.members ⟨name, start, kept⟩))
        fun members r' s' => ∃ kept', members = kept'.reverse ∧
          s' = s.withMode (.members ⟨name, start, kept'⟩) ∧
          r'.next.kind = .punct .closeBrace ∧ (kept'.isEmpty && !o.allMembers) = false := by
  induction r using Reader.Precedes.induction with
  | h r later =>
    intro s kept hkept
    rw [Options.members?]
    refine .check (fun hclose => .pure ⟨kept, rfl, rfl, hclose, hkept hclose⟩) fun hclose =>
      .isAtEnd (fun hend => ?_) fun hend => ?_
    · refine .failGot (.unclosedStruct name r.next.symbol)
        ⟨Reader.takes?_eof hend, State.isComplete_withMode (by simp), ?_⟩ rfl
      simp [State.refusal, State.withMode, refusalAtMember, TokenRecord.symbol, hend]
    · refine (reads_member hclose hend).bind ?_
      rintro m r' _ hm ⟨hp, rfl⟩
      -- The member is kept if it is the first one or all are.
      obtain ⟨kept', hadd, hrev, hne⟩ : ∃ kept',
          OpenStruct.add o ⟨name, start, kept⟩ m = ⟨name, start, kept'⟩ ∧
          (if (kept.reverse.isEmpty || o.allMembers) = true then kept.reverse ++ [m]
            else kept.reverse) = kept'.reverse ∧ kept'.isEmpty = false := by
        unfold OpenStruct.add
        by_cases hall : o.allMembers = true
        · exact ⟨m :: kept, by simp [hall], by simp [hall], rfl⟩
        · cases kept with
          | nil => exact ⟨[m], by simp, by simp, rfl⟩
          | cons first more => exact ⟨first :: more, by simp [hall], by simp [hall], rfl⟩
      rw [hadd, hrev]
      exact later r' hp s kept' fun _ => by simp [hne]

theorem reads_struct (hk : r.next.kind = .keyword .struct) :
    ReadsStatement o o.structStatement r := by
  intro s _
  have hn : r.next.kind ≠ .eof := by simp [hk]
  have hp := Reader.precedes_forward hn
  have ht : r.takes? o (s.withMode .statement) = some (s.withMode (.structName r.next.pos)) := by
    rw [Reader.takes?_statement]
    simp [takeStatement?, Token.ofRecord, TokenRecord.symbol, hk]
  unfold Options.structStatement
  refine .advance hn ht (.check (fun hident => ?_) fun hident => ?_)
  · have hn' : r.forward.next.kind ≠ .eof := by simp [hident]
    have hp' := hp.moves_right (Reader.moves_forward hn')
    have htaken : r.forward.takes? o (s.withMode (.structName r.next.pos)) =
        some (s.withMode (.structStart r.forward.next.text r.next.pos)) := by
      change (Symbol.name? _).map _ = _
      simp [Token.ofRecord, TokenRecord.symbol, hident, Symbol.name?, State.withMode]
    refine .advance hn' htaken
      (expect_mark .structStart rfl rfl rfl (by simp) rfl fun hopen => .peek ?_)
    have hp'' := hp'.moves_right hopen.1
    split
    · next hempty =>
      obtain ⟨hclose, hall⟩ : r.forward.forward.forward.next.kind = .punct .closeBrace ∧
          o.allMembers = false := by simpa using hempty
      refine .fail (.emptyStruct r.forward.next.text) ⟨?_, State.isComplete_withMode (by simp), ?_⟩
      · change takeMember? _ _ _ _ = _
        simp [takeMember?, Token.ofRecord, TokenRecord.symbol, hclose, hall]
      · simp [State.refusal, State.withMode, refusalAtMember, TokenRecord.symbol, hclose]
    · next hsome =>
      refine (reads_members r.forward.next.text r.next.pos _ s [] fun hclose => ?_).bind ?_
      · simpa [hclose] using hsome
      rintro members r' _ hm ⟨kept, rfl, rfl, hclose, hkept⟩
      have hn'' : r'.next.kind ≠ .eof := by simp [hclose]
      have hclosed : r'.takes? o (s.withMode (.members ⟨r.forward.next.text, r.next.pos, kept⟩)) =
          some (s.complete (.struct [] r.forward.next.text kept.reverse r.next.span)) := by
        change takeMember? _ _ _ _ = _
        rw [takeMember?, if_pos (by simp [Token.ofRecord, TokenRecord.symbol, hclose]),
          if_neg (by simp [hkept])]
        rfl
      exact .advance hn'' hclosed (.pure ⟨(hp''.moves_right hm).moves_right
        (Reader.moves_forward hn''), rfl⟩)
  · refine .failGot (.missingStructName _) ⟨?_, State.isComplete_withMode (by simp), rfl⟩ rfl
    exact Option.map_eq_none_iff.mpr (TokenRecord.name?_eq_none hident)

/-! ## Declarations -/

/-- After the words before a type a type is taken, and nothing else. -/
theorem reads_modifiers (hk : r.next.kind = .keyword .input ∨ r.next.kind.isType = true) :
    KeepsStep o Options.modifiers r (s.withMode .statement) fun modifiers r' s' =>
      (∀ k, r'.next.kind = .keyword k → k.isType = true →
        r'.takes? o s' = some (s.withMode (.typed modifiers k r.next.pos))) ∧
      (¬r'.next.kind.isType = true → r'.Refused o s' (.missingType r'.next.symbol)) := by
  unfold Options.modifiers
  refine .accept (by simp) (fun hinput => ⟨s.withMode (.modified r.next.pos), ?_, .pure ⟨?_, ?_⟩⟩)
    fun hinput => .pure ⟨?_, fun htype => ?_⟩
  · rw [Reader.takes?_statement]
    simp [takeStatement?, Token.ofRecord, TokenRecord.symbol, hinput]
  · intro k hkey htype
    change (Symbol.typeWord? _).map _ = _
    simp [Token.ofRecord, TokenRecord.symbol, hkey, Symbol.typeWord?, htype, State.withMode]
  · intro htype
    refine ⟨?_, State.isComplete_withMode (by simp), rfl⟩
    exact Option.map_eq_none_iff.mpr (TokenRecord.typeWord?_eq_none htype)
  · intro k hkey htype
    rw [Reader.takes?_statement]
    cases k <;> simp_all [takeStatement?, Token.ofRecord, TokenRecord.symbol, Keyword.isType]
  · exact absurd htype (by simpa [hinput] using hk)

theorem reads_head (hk : r.next.kind = .keyword .input ∨ r.next.kind.isType = true) :
    KeepsStep o Options.head r (s.withMode .statement) fun head r' s' =>
      r.Precedes r' ∧ s' = s.withMode (.declared head) := by
  unfold Options.head
  refine .peek ((reads_modifiers hk).bind ?_)
  rintro modifiers r' s' hm ⟨htaken, hrefused⟩
  refine .peek ?_
  by_cases htype : r'.next.kind.isType = true
  · rw [if_pos htype]
    obtain ⟨k, hkey, hisType⟩ := TokenKind.isType_iff.mp htype
    have hn : r'.next.kind ≠ .eof := by simp [hkey]
    have hp : r.Precedes r'.forward := hm.precedes_right (Reader.precedes_forward hn)
    have hname : r'.next.kind.name = k.spelling := by rw [hkey]; rfl
    refine .advance hn (htaken k hkey hisType) ?_
    rw [hname]
    refine .check (fun hident => ?_) fun hident => ?_
    · have hn' : r'.forward.next.kind ≠ .eof := by simp [hident]
      have htaken' : r'.forward.takes? o (s.withMode (.typed modifiers k r.next.pos)) =
          some (s.withMode (.declared ⟨modifiers, utf8 k.spelling, r'.forward.next.text,
            r.next.span⟩)) := by
        change (Symbol.name? _).map _ = _
        simp [Token.ofRecord, TokenRecord.symbol, hident, Symbol.name?, State.withMode,
          TokenRecord.span]
      exact .advance hn' htaken' (.pure ⟨hp.moves_right (Reader.moves_forward hn'), rfl⟩)
    · refine .failGot (.missingName k _) ⟨?_, State.isComplete_withMode (by simp), rfl⟩ rfl
      exact Option.map_eq_none_iff.mpr (TokenRecord.name?_eq_none hident)
  · rw [if_neg htype]
    exact .failGot (.missingType r'.next.symbol) (hrefused htype) rfl

theorem reads_initialValue {head : Head} :
    KeepsStep o (o.initialValue head) r (s.reading (.initial head) [] .operand) fun stmt _ s' =>
      s' = s.complete stmt := by
  unfold Options.initialValue
  refine ((readsExpressions o r).assign s (.initial head) [] fun _ _ _ _ => rfl).bind ?_
  rintro e r' _ hm ⟨-, rfl, he⟩
  exact expect_host he rfl rfl fun hsemi => ⟨_, rfl, .pure rfl⟩

/-! ## Statements with statements in them -/

section

variable (later : ∀ r', r.Precedes r' → ReadsStatements o r')

include later

theorem reads_block {scope : List Stmt → Scope} {closed : List Stmt → Stmt}
    (hbody : IsBody scope closed) {start : State}
    (hopen : r.next.kind = .punct .openBrace → r.takes? o start = some (s.enter (scope [])))
    (hother : r.next.kind ≠ .punct .openBrace →
      r.Refused o start (.missingMark .blockStart r.next.symbol)) :
    KeepsStep o o.block? r start fun block r' s' =>
      ∃ inner, block = (r.next.span, inner.reverse) ∧ r.Precedes r' ∧
        s' = s.complete (closed inner) := by
  rw [Options.block?]
  refine .peek (.expect .blockStart rfl rfl (fun hk => ⟨_, hopen hk, ?_⟩) hother)
  have hp : r.Precedes r.forward := Reader.precedes_forward (by simp [hk])
  refine ((later _ hp).statements scope closed hbody s []).bind ?_
  rintro body r' _ hm ⟨inner, rfl, rfl, hclose⟩
  have hn : r'.next.kind ≠ .eof := by simp [hclose]
  have hclosed : r'.takes? o (s.enter (scope inner)) = some (s.complete (closed inner)) := by
    rw [← hbody.close]
    change takeStatement? _ _ = _
    simp only [takeStatement?, Token.ofRecord, TokenRecord.symbol, hclose]
  exact .advance hn hclosed (.pure ⟨inner, rfl,
    (hp.moves_right hm).moves_right (Reader.moves_forward hn), rfl⟩)

theorem reads_guarded (hk : r.next.kind = .keyword .cond) : ReadsStatement o o.guarded? r := by
  intro s _
  have hn : r.next.kind ≠ .eof := by simp [hk]
  have hp := Reader.precedes_forward hn
  have ht : r.takes? o (s.withMode .statement) =
      some (s.withMode (.conditionStart r.next.pos)) := by
    rw [Reader.takes?_statement]
    simp [takeStatement?, Token.ofRecord, TokenRecord.symbol, hk]
  rw [Options.guarded?]
  refine .advance hn ht (expect_mark .conditionStart rfl rfl rfl (by simp) rfl fun hopen => ?_)
  refine ((readsExpressions o _).assign s (.condition r.next.pos) [] fun _ _ _ _ => rfl).bind ?_
  rintro e r' _ hm ⟨-, rfl, he⟩
  refine expect_host he rfl rfl fun hclose => ⟨_, rfl, ?_⟩
  have hp' := ((hp.moves_right hopen.1).moves_right hm).moves_right
    (Reader.moves_forward (by simp [hclose]))
  refine ((later _ hp').statement (s.enter (.guard r.next.pos e)) ⟨fun _ => rfl,
    fun _ => ⟨_, _, _, rfl⟩⟩).bind ?_
  rintro body r'' _ hm' ⟨-, rfl⟩
  exact .pure ⟨hp'.moves_right hm', rfl⟩

theorem reads_function (head : Head) :
    KeepsStep o (o.function? head) r (s.withMode (.parameters head)) fun stmt _ s' =>
      s' = s.complete stmt := by
  rw [Options.function?]
  refine .check (fun hclose => ?_) fun hother => ?_
  · have hn : r.next.kind ≠ .eof := by simp [hclose]
    have hp := Reader.precedes_forward hn
    have ht : r.takes? o (s.withMode (.parameters head)) =
        some (s.withMode (.functionBody head)) :=
      if_pos (TokenRecord.symbol_of_punct hclose)
    refine .advance hn ht ?_
    refine (reads_block (fun r' h => later r' (hp.1.precedes_right h))
      (isBody_function head r.forward.next.pos) (s := s) (fun hbrace => ?_) fun hbrace =>
        ⟨?_, ?_, rfl⟩).bind ?_
    · exact if_pos (TokenRecord.symbol_of_punct hbrace)
    · exact if_neg (TokenRecord.symbol_ne_punct hbrace)
    · exact State.isComplete_withMode (by simp)
    · rintro _ r' _ hm ⟨inner, rfl, -, rfl⟩
      exact .pure rfl
  · refine .failGot (.parameters head.name _) ⟨?_, State.isComplete_withMode (by simp), rfl⟩ rfl
    exact if_neg (TokenRecord.symbol_ne_punct hother)

theorem reads_declaration (hk : r.next.kind = .keyword .input ∨ r.next.kind.isType = true) :
    ReadsStatement o o.declaration? r := by
  intro s _
  rw [Options.declaration?]
  refine (reads_head hk).bind ?_
  rintro head r' _ hm ⟨hp, rfl⟩
  refine .peek ?_
  have ht : r'.takes? o (s.withMode (.declared head)) =
      takeAfterName? s head (.ofRecord r'.next) := rfl
  -- The head has moved the reader already, so the steps below need not show progress.
  have hp' (hn : r'.next.kind ≠ .eof) : r.Precedes r'.forward :=
    hp.moves_right (Reader.moves_forward hn)
  split
  · next hassign =>
    obtain ⟨hk, hop⟩ : r'.next.kind = .operator ∧ r'.next.op = .assign := by simpa using hassign
    have hn : r'.next.kind ≠ .eof := by simp [hk]
    have htaken : r'.takes? o (s.withMode (.declared head)) =
        some (s.reading (.initial head) [] .operand) := by
      simp [ht, takeAfterName?, Token.ofRecord, TokenRecord.symbol, hk, hop, State.reading]
    refine .advance hn htaken (reads_initialValue.mono fun _ _ _ hm' h => ?_)
    exact ⟨(hp' hn).moves_right hm', h⟩
  split
  · next hsemi =>
    have hn : r'.next.kind ≠ .eof := by simp [hsemi]
    have htaken : r'.takes? o (s.withMode (.declared head)) =
        some (s.complete (.decl head none)) := by
      simp [ht, takeAfterName?, Token.ofRecord, TokenRecord.symbol, hsemi]
    exact .advance hn htaken (.pure ⟨hp' hn, rfl⟩)
  split
  · next hopen =>
    have hn : r'.next.kind ≠ .eof := by simp [hopen]
    have htaken : r'.takes? o (s.withMode (.declared head)) =
        some (s.withMode (.parameters head)) := by
      simp [ht, takeAfterName?, Token.ofRecord, TokenRecord.symbol, hopen]
    refine .advance hn htaken ((reads_function (fun r'' h => later r''
      ((hp' hn).1.precedes_right h)) head).mono fun _ _ _ hm' h => ?_)
    exact ⟨(hp' hn).moves_right hm', h⟩
  · next hassign hsemi hopen =>
    refine .failGot (.badDeclaration r'.next.symbol)
      ⟨ht.trans ?_, State.isComplete_withMode (by simp), rfl⟩ rfl
    cases hk : r'.next.kind with
    | operator => simp_all [takeAfterName?, Token.ofRecord, TokenRecord.symbol]
    | punct mark => cases mark <;> simp_all [takeAfterName?, Token.ofRecord, TokenRecord.symbol]
    | _ => simp [takeAfterName?, Token.ofRecord, TokenRecord.symbol, hk]

theorem reads_statement : ReadsStatement o o.statement? r := by
  intro s hs
  rw [Options.statement?]
  refine .peek ?_
  split
  · next hk => exact reads_directive hk s hs
  · next hk => exact reads_guarded later hk s hs
  · next hk =>
    refine (reads_block later (isBody_block r.next.pos) (s := s) (fun _ => ?_) fun h =>
      absurd hk h).bind ?_
    · rw [Reader.takes?_statement]
      simp [takeStatement?, Token.ofRecord, TokenRecord.symbol, hk]
    rintro _ r' _ hm ⟨inner, rfl, hp, rfl⟩
    exact .pure ⟨hp, rfl⟩
  · next hk => exact reads_declaration later (.inl hk) s hs
  · next hk => exact reads_declaration later (.inr (by rw [hk]; rfl)) s hs
  · next hk => exact reads_declaration later (.inr (by rw [hk]; rfl)) s hs
  · next hk => exact reads_declaration later (.inr (by rw [hk]; rfl)) s hs
  · next hk => exact reads_declaration later (.inr (by rw [hk]; rfl)) s hs
  · next hk => exact reads_struct hk s hs
  · next hattr hcond hbrace hinput hfloat hvec3 hvec4 hvoid hstruct =>
    refine reads_expressionStatement ?_ s hs
    cases hk : r.next.kind with
    | punct mark => cases mark <;> simp_all [TokenKind.opensStatement]
    | keyword k => cases k <;> simp_all [TokenKind.opensStatement, Keyword.isType]
    | _ => simp_all [TokenKind.opensStatement]

theorem reads_statements (hstatement : ReadsStatement o o.statement? r)
    {scope : List Stmt → Scope} {closed : List Stmt → Stmt} (hbody : IsBody scope closed)
    (s : State) (inner : List Stmt) :
    KeepsStep o (o.statements? inner.reverse) r (s.enter (scope inner)) fun body r' s' =>
      ∃ inner', body = inner'.reverse ∧ s' = s.enter (scope inner') ∧
        r'.next.kind = .punct .closeBrace := by
  rw [Options.statements?]
  refine .check (fun hclose => .pure ⟨inner, rfl, rfl, hclose⟩) fun hclose =>
    .isAtEnd (fun hend => ?_) fun hend => ?_
  · refine .failGot (.unclosedBlock r.next.symbol) ⟨Reader.takes?_eof hend, rfl, ?_⟩ rfl
    simp [State.refusal, State.enter, TokenRecord.symbol, hend, hbody.refusal]
  · refine (hstatement (s.enter (scope inner)) ⟨fun h => absurd h hclose,
      fun h => absurd h hend⟩).bind ?_
    rintro stmt r' _ hm ⟨hp, rfl⟩
    have hadd : (s.enter (scope inner)).complete stmt = s.enter (scope (stmt :: inner)) :=
      hbody.add stmt s.finished inner s.scopes
    rw [← List.reverse_cons, hadd]
    exact (later r' hp).statements scope closed hbody s (stmt :: inner)

end

end Descent

/-- The procedures for statements keep step with the grammar everywhere. -/
theorem readsStatements (o : Options) (r : Reader) : ReadsStatements o r := by
  induction r using Reader.Precedes.induction with
  | h r later =>
    have hstatement := Descent.reads_statement later
    exact ⟨hstatement, fun _ _ hbody => Descent.reads_statements later hstatement hbody⟩

/-! ## Whole programs -/

/-- The procedure for programs keeps step with the grammar everywhere. It succeeds at the end. -/
theorem reads_program (o : Options) (r : Reader) :
    ∀ done : List Stmt, KeepsStep o (o.program? done.reverse) r { finished := done }
      fun program r' s' => r'.next.kind = .eof ∧ s' = { finished := program.reverse } := by
  induction r using Reader.Precedes.induction with
  | h r later =>
    intro done
    rw [Options.program?]
    refine .isAtEnd (fun hend => .pure ⟨hend, by rw [List.reverse_reverse]⟩) fun hend => ?_
    refine ((readsStatements o r).statement { finished := done } ⟨fun _ => rfl,
      fun h => absurd h hend⟩).bind ?_
    rintro stmt r' _ hm ⟨hp, rfl⟩
    rw [← List.reverse_cons]
    exact later r' hp (stmt :: done)

/-- Reading by descent gives what the grammar gives and stops where it stops. -/
theorem Reader.perform_program (o : Options) (r : Reader) :
    r.perform (o.program? []) =
      some ((r.outcome o .start).1, ⟨r.records, (r.outcome o .start).2⟩) := by
  cases reads_program o r [] with
  | failed perform moves outcome =>
    rw [show r.outcome o .start = _ from outcome, ← moves.eq_mk]
    exact perform
  | @done program r' s' perform moves outcome post =>
    obtain ⟨hend, rfl⟩ := post
    have hsym : r'.next.symbol = .eof := by simp [TokenRecord.symbol, hend]
    have hstop : r'.outcome o { finished := program.reverse } = (.ok program, r'.current) := by
      rw [outcome_stop (takes?_eof hend), verdict_eq_ok.mpr ⟨hsym, rfl, List.reverse_reverse _⟩]
      rfl
    rw [show r.outcome o .start = _ from outcome.trans hstop, ← moves.eq_mk]
    exact perform

/-- A call of a parser is a program read by descent from its cursor on. The descent sees every
field of the records, also those that do not belong to their sorts. -/
theorem Parser.perform_parse {p : Parser} {rs : List TokenRecord}
    (h : p.tokens = rs.map Token.ofRecord) :
    Reader.perform ⟨rs, p.cursor⟩ (p.options.program? []) =
      some (p.parse.1, ⟨rs, p.parse.2.cursor⟩) := by
  rw [Reader.perform_program]
  simp only [Parser.parse, Reader.outcome, Reader.last, Reader.rest, h, List.map_drop]

/-- A statement that is read by descent, at any depth and from any place, moves the index. -/
theorem Reader.perform_statement (o : Options) (r : Reader) :
    ∃ result r', r.perform o.statement? = some (result, r') ∧ r.Moves r' ∧
      ∀ stmt, result = .ok stmt → r.current < r'.current := by
  -- Whatever comes next, a condition waits for it.
  have hread := (readsStatements o r).statement { scopes := [.guard .none .hole] }
    ⟨fun _ => rfl, fun _ => ⟨_, _, _, rfl⟩⟩
  obtain ⟨result, r', hperform, hmoves, hpost⟩ := hread.exists_result
  refine ⟨result, r', hperform, hmoves, fun stmt hok => ?_⟩
  obtain ⟨_, hp, -⟩ := hpost stmt hok
  exact hp.2

end ShaderFront
