import ShaderFront.Proofs.Action
import ShaderFront.Proofs.Extension
import ShaderFront.Proofs.Lossless

/-!
# Keeping all members of a struct

A grammar that keeps all members of a struct extends the one that keeps only the first.
Both check all members alike. They part at the end of a struct without members, which
only the larger grammar takes, and otherwise what they read differs in the members after
the first.
-/

namespace ShaderFront

/-! ## Programs cut to first members -/

mutual

/-- The statement with the members of every struct in it cut to the first. -/
def Stmt.firstMembers : Stmt → Stmt
  | .hole => .hole
  | .expr value span => .expr value span
  | .cond condition body span => .cond condition body.firstMembers span
  | .block body span => .block (firstMembers body) span
  | .decl head init => .decl head init
  | .directive name params span => .directive name params span
  | .function head params body span => .function head params (firstMembers body) span
  | .struct attr name members span => .struct attr name (members.take 1) span

/-- The statements with the members of every struct in them cut to the first. -/
def firstMembers : List Stmt → List Stmt
  | [] => []
  | s :: ss => s.firstMembers :: firstMembers ss

end

mutual

/-- Does every struct in the statement have a member? -/
def Stmt.hasMembers : Stmt → Bool
  | .hole | .expr _ _ | .decl _ _ | .directive _ _ _ => true
  | .cond _ body _ => body.hasMembers
  | .block body _ | .function _ _ body _ => haveMembers body
  | .struct _ _ members _ => !members.isEmpty

/-- Does every struct in the statements have a member? -/
def haveMembers : List Stmt → Bool
  | [] => true
  | s :: ss => s.hasMembers && haveMembers ss

end

theorem firstMembers_eq_map (ss : List Stmt) : firstMembers ss = ss.map Stmt.firstMembers := by
  induction ss with
  | nil => rfl
  | cons s ss ih => rw [firstMembers, ih, List.map_cons]

theorem haveMembers_eq_all (ss : List Stmt) : haveMembers ss = ss.all Stmt.hasMembers := by
  induction ss with
  | nil => rfl
  | cons s ss ih => rw [haveMembers, ih, List.all_cons]

/-- A statement without statements and members in it stays as it is. -/
theorem Stmt.firstMembers_of_isLeaf {s : Stmt} (h : s.isLeaf = true) : s.firstMembers = s := by
  cases s with
  | expr _ _ | decl _ _ | directive _ _ _ => rfl
  | _ => cases h

theorem Stmt.hasMembers_of_isLeaf {s : Stmt} (h : s.isLeaf = true) : s.hasMembers = true := by
  cases s with
  | expr _ _ | decl _ _ | directive _ _ _ => rfl
  | _ => cases h

/-! ## Unfinished programs cut to first members -/

/-- The enclosing statement, cut. -/
def Scope.firstMembers : Scope → Scope
  | .block opened inner => .block opened (inner.map Stmt.firstMembers)
  | .function head opened inner => .function head opened (inner.map Stmt.firstMembers)
  | .guard start condition => .guard start condition

/-- The struct with the first of its members so far, which is the oldest. -/
def OpenStruct.firstMember (s : OpenStruct) : OpenStruct :=
  { s with members := s.members.getLast?.toList }

/-- The point that the current statement has got to, with the members that are kept there. -/
def Mode.firstMember : Mode → Mode
  | .members s => .members s.firstMember
  | .memberColon s name start => .memberColon s.firstMember name start
  | .memberType s name start => .memberType s.firstMember name start
  | .memberEnd s m => .memberEnd s.firstMember m
  | m => m

/-- What the smaller grammar makes of an unfinished program. -/
def State.firstMembers (s : State) : State where
  finished := s.finished.map Stmt.firstMembers
  scopes := s.scopes.map Scope.firstMembers
  mode := s.mode.firstMember

/-- The test whether every struct has a member. -/
def membersTest : Test where
  passes := Stmt.hasMembers
  condition _ := true
  passes_cond _ _ _ := rfl
  passes_block ss _ := haveMembers_eq_all ss
  passes_function _ _ ss _ := haveMembers_eq_all ss

/-- Does every complete struct of the unfinished program have a member? -/
def State.hasMembers (s : State) : Bool := membersTest.passesState s

theorem Mode.firstMember_of_kept {m : Mode} (h : m.kept = []) : m.firstMember = m := by
  cases m with
  | members s | memberColon s _ _ | memberType s _ _ | memberEnd s _ =>
    have hs : s.firstMember = s := by
      obtain ⟨name, start, members⟩ := s
      cases h
      rfl
    simp only [firstMember, hs]
  | _ => rfl

/-- Outside the braces of a struct there is nothing to cut in the current statement. -/
theorem Mode.firstMember_of_not_inStruct {m : Mode} (h : m.inStruct = false) :
    m.firstMember = m := by
  cases m with
  | members _ | memberColon _ _ _ | memberType _ _ _ | memberEnd _ _ => cases h
  | _ => rfl

theorem Mode.inStruct_firstMember (m : Mode) : m.firstMember.inStruct = m.inStruct := by
  cases m <;> rfl

theorem Scope.firstMembers_of_isEmpty {c : Scope} (h : c.isEmpty = true) : c.firstMembers = c := by
  cases c with
  | guard start condition => rfl
  | block opened inner =>
    rw [List.isEmpty_iff.mp h]
    rfl
  | function head opened inner =>
    rw [List.isEmpty_iff.mp h]
    rfl

theorem Scope.passes_membersTest_of_isEmpty {c : Scope} (h : c.isEmpty = true) :
    membersTest.passesScope c = true := by
  cases c with
  | guard start condition => rfl
  | block opened inner =>
    rw [List.isEmpty_iff.mp h]
    rfl
  | function head opened inner =>
    rw [List.isEmpty_iff.mp h]
    rfl

/-! ## Complete statements -/

/-- A complete statement is cut like all others. -/
theorem firstMembers_addStatement (s : Stmt) (done : List Stmt) (scopes : List Scope) :
    (addStatement s done scopes).firstMembers =
      addStatement s.firstMembers (done.map Stmt.firstMembers)
        (scopes.map Scope.firstMembers) := by
  induction scopes generalizing s with
  | nil => rfl
  | cons scope scopes ih =>
    cases scope with
    | guard start condition => exact ih _
    | block opened inner => rfl
    | function head opened inner => rfl

theorem State.firstMembers_complete (s : State) (r : Stmt) :
    (s.complete r).firstMembers = s.firstMembers.complete r.firstMembers :=
  firstMembers_addStatement r s.finished s.scopes

/-- A block that closes is cut like the statements in it. -/
theorem closeBlock?_firstMembers (s : State) :
    closeBlock? s.firstMembers = (closeBlock? s).map State.firstMembers := by
  obtain ⟨done, scopes, mode⟩ := s
  cases scopes with
  | nil => rfl
  | cons scope scopes =>
    cases scope with
    | guard start condition => rfl
    | block opened inner =>
      refine congrArg some (Eq.trans ?_ (firstMembers_addStatement _ _ _).symm)
      rw [Stmt.firstMembers, firstMembers_eq_map, List.map_reverse]
      rfl
    | function head opened inner =>
      refine congrArg some (Eq.trans ?_ (firstMembers_addStatement _ _ _).symm)
      rw [Stmt.firstMembers, firstMembers_eq_map, List.map_reverse]
      rfl

/-! ## Actions outside structs -/

/-- An action that brings nothing along does to the cut program what it does to the whole. -/
theorem Action.perform?_firstMembers {a : Action} (ha : a.isFresh = true) (s : State) :
    a.perform? s.firstMembers = (a.perform? s).map State.firstMembers := by
  cases a with
  | proceed mode =>
    simp [perform?, State.withMode, State.firstMembers,
      Mode.firstMember_of_kept (List.isEmpty_iff.mp ha)]
  | complete r =>
    rw [perform?, perform?, Option.map_some, State.firstMembers_complete,
      Stmt.firstMembers_of_isLeaf ha]
  | enter scope =>
    simp [perform?, State.enter, State.firstMembers, Scope.firstMembers_of_isEmpty ha,
      Mode.firstMember]
  | leave => exact closeBlock?_firstMembers s

/-- An action that brings nothing along makes no struct. -/
theorem Action.hasMembers_perform? {a : Action} (ha : a.isFresh = true) {s next : State}
    (h : a.perform? s = some next) : next.hasMembers = s.hasMembers := by
  cases a with
  | proceed mode =>
    cases h
    rfl
  | complete r =>
    cases h
    rw [State.hasMembers, membersTest.passesState_complete]
    exact (congrArg (· && _) (Stmt.hasMembers_of_isLeaf ha)).trans (Bool.true_and _)
  | enter scope =>
    cases h
    simp [State.enter, State.hasMembers, Test.passesState, Scope.passes_membersTest_of_isEmpty ha]
  | leave => exact membersTest.passesState_closeBlock? h

/-! ## One token in both grammars -/

/-- The grammar with all members of a struct kept, or only the first. -/
def Options.keeping (o : Options) (all : Bool) : Options := { o with allMembers := all }

/-- Does the token end a struct without members? -/
def State.EndsEmptyStruct (s : State) (t : Token) : Prop :=
  t.symbol = .punct .closeBrace ∧ ∃ r, s.mode = .members r ∧ r.members = []

/-- Outside the braces of a struct it does not matter which members are kept. -/
theorem State.take?_keeping (o : Options) (all all' : Bool) {s : State}
    (hs : s.mode.inStruct = false) (t : Token) :
    s.take? (o.keeping all) t = s.take? (o.keeping all') t := by
  obtain ⟨done, scopes, mode⟩ := s
  cases mode with
  | members _ | memberColon _ _ _ | memberType _ _ _ | memberEnd _ _ => cases hs
  | _ => rfl

namespace OpenStruct

/-- The first member is the only one that is kept. -/
theorem firstMember_add (o : Options) (r : OpenStruct) (m : Member) :
    (r.add (o.keeping true) m).firstMember = r.firstMember.add (o.keeping false) m := by
  obtain ⟨name, start, members⟩ := r
  cases members with
  | nil => rfl
  | cons n members => simp [add, firstMember, Options.keeping, List.getLast?_cons]

/-- A struct is cut when it is complete or before, which comes to the same. -/
theorem close_firstMember (r : OpenStruct) : r.firstMember.close = r.close.firstMembers := by
  have hcut : r.members.getLast?.toList.reverse = r.members.reverse.take 1 := by
    rw [← List.head?_reverse]
    cases r.members.reverse <;> rfl
  simp [close, firstMember, Stmt.firstMembers, hcut]

/-- A struct with a member keeps one. -/
theorem members_firstMember_eq_nil {r : OpenStruct} :
    r.firstMember.members = [] ↔ r.members = [] := by
  simp [firstMember]

end OpenStruct

namespace State

/-- Outside the braces of a struct, a token does to the cut program what it does to the whole. -/
theorem take?_firstMembers_of_not_inStruct (o : Options) {s : State}
    (hs : s.mode.inStruct = false) (t : Token) :
    s.firstMembers.take? (o.keeping false) t =
      (s.take? (o.keeping true) t).map firstMembers := by
  obtain ⟨done, scopes, mode⟩ := s
  obtain ⟨a, hfresh, ha⟩ := exists_action (o.keeping false) mode t
  have hmode : mode.firstMember = mode := Mode.firstMember_of_not_inStruct hs
  rw [take?_keeping o true false hs, ha, firstMembers, hmode, ha]
  cases a with
  | none => rfl
  | some x =>
    have hx := Action.perform?_firstMembers (hfresh hs x rfl) ⟨done, scopes, mode⟩
    rwa [firstMembers, hmode] at hx

/-- Any token but the end of a struct without members does to the cut program what it does to
the whole. -/
theorem take?_firstMembers (o : Options) {s : State} {t : Token} (ht : ¬s.EndsEmptyStruct t) :
    s.firstMembers.take? (o.keeping false) t =
      (s.take? (o.keeping true) t).map firstMembers := by
  by_cases hs : s.mode.inStruct = false
  · exact take?_firstMembers_of_not_inStruct o hs t
  obtain ⟨done, scopes, mode⟩ := s
  cases mode with
  | members r =>
    by_cases hclose : t.symbol = .punct .closeBrace
    · have hr : r.members ≠ [] := fun hr => ht ⟨hclose, r, rfl, hr⟩
      have hf : r.firstMember.members ≠ [] := mt OpenStruct.members_firstMember_eq_nil.mp hr
      rw [firstMembers, Mode.firstMember, take?_of_takes (.closeStruct hclose (.inl hf)),
        take?_of_takes (.closeStruct hclose (.inl hr)), Option.map_some,
        firstMembers_addStatement, OpenStruct.close_firstMember]
    · simp only [take?, firstMembers, Mode.firstMember, takeMember?, if_neg hclose,
        Option.map_map]
      rfl
  | memberColon r name start =>
    simp only [take?, firstMembers, Mode.firstMember, onMark?]
    split <;> rfl
  | memberType r name start =>
    simp only [take?, firstMembers, Mode.firstMember, Option.map_map]
    rfl
  | memberEnd r m =>
    simp only [take?, firstMembers, Mode.firstMember, onMark?, ← OpenStruct.firstMember_add]
    split <;> rfl
  | _ => exact absurd rfl hs

/-- Where only the first member is kept, a struct without members does not end. -/
theorem take?_eq_none_of_endsEmptyStruct (o : Options) {s : State} {t : Token}
    (h : s.EndsEmptyStruct t) : s.firstMembers.take? (o.keeping false) t = none := by
  obtain ⟨done, scopes, mode⟩ := s
  obtain ⟨hclose, r, rfl, hr⟩ := h
  have hf : r.firstMember.members = [] := OpenStruct.members_firstMember_eq_nil.mpr hr
  simp [take?, firstMembers, Mode.firstMember, takeMember?, hclose, hf, Options.keeping]

/-- A struct without members is among the complete ones once it has ended. -/
theorem hasMembers_of_take? (o : Options) {s next : State} {t : Token}
    (h : s.take? (o.keeping true) t = some next) :
    next.hasMembers = true ↔ s.hasMembers = true ∧ ¬s.EndsEmptyStruct t := by
  obtain ⟨done, scopes, mode⟩ := s
  -- A token that completes no struct keeps those that are complete.
  have hkept (hn : next.hasMembers = (⟨done, scopes, mode⟩ : State).hasMembers)
      (he : ∀ r, mode = .members r → t.symbol ≠ .punct .closeBrace) :
      next.hasMembers = true ↔ (⟨done, scopes, mode⟩ : State).hasMembers = true ∧
        ¬EndsEmptyStruct ⟨done, scopes, mode⟩ t := by
    rw [hn]
    exact ⟨fun h => ⟨h, fun ⟨hclose, r, hr, _⟩ => he r hr hclose⟩, And.left⟩
  by_cases hs : mode.inStruct = false
  · obtain ⟨a, hfresh, ha⟩ := exists_action (o.keeping true) mode t
    rw [ha] at h
    obtain ⟨x, rfl, hx⟩ := Option.bind_eq_some_iff.mp h
    refine hkept (Action.hasMembers_perform? (hfresh hs x rfl) hx) ?_
    rintro r rfl
    cases hs
  · have htakes : Takes (o.keeping true) done scopes t mode next := takes_of_take? h
    cases htakes with
    | @closeStruct r hclose _ =>
      have hr : r.close.hasMembers = true ↔ ¬EndsEmptyStruct ⟨done, scopes, .members r⟩ t := by
        simp [OpenStruct.close, Stmt.hasMembers, EndsEmptyStruct, hclose]
      rw [hasMembers, membersTest.passesState_addStatement, Bool.and_eq_true]
      exact and_comm.trans (and_congr_right fun _ => hr)
    | memberName hname => exact hkept rfl (by simp [hname])
    | memberColon _ | memberType _ | memberEnd _ => exact hkept rfl (by simp)
    | _ => exact absurd rfl hs

end State

/-! ## Refusals -/

/-- Where a statement may start, something else was expected. -/
theorem kind_refusalAtStatement (got : Symbol) (scopes : List Scope) :
    (refusalAtStatement got scopes).kind = .expectedToken ∨
      (refusalAtStatement got scopes).kind = .unexpectedToken := by
  unfold refusalAtStatement
  split
  · split
    · exact .inl rfl
    · exact .inr rfl
  · split
    · exact .inl rfl
    · exact .inr rfl
  · exact .inr rfl

/-- After an operand, a certain mark was expected, or a call has several arguments. -/
theorem kind_refusalAfter (host : Host) (got : Symbol) (frames : List Frame) :
    (refusalAfter host got frames).kind = .expectedToken ∨
      (refusalAfter host got frames).kind = .unsupportedArguments := by
  induction frames with
  | nil => cases host <;> exact .inl rfl
  | cons f frames ih =>
    cases f with
    | unary op start => exact ih
    | binary left op => exact ih
    | paren start => exact .inl rfl
    | call callee opened args =>
      unfold refusalAfter
      split
      · exact .inr rfl
      · exact .inl rfl
    | construct type start args => exact .inl rfl

namespace State

/-- The report about a struct without members stands at its closing brace. -/
theorem kind_refusal_eq_unsupportedStruct {s : State} {got : Symbol} :
    (s.refusal got).kind = .unsupportedStruct ↔
      got = .punct .closeBrace ∧ ∃ r, s.mode = .members r := by
  obtain ⟨done, scopes, mode⟩ := s
  cases mode with
  | members r =>
    unfold refusal refusalAtMember
    dsimp only
    split
    · simp [Cause.kind]
    · simp [Cause.kind]
    · next hclose => exact ⟨nofun, fun h => absurd h.1 hclose⟩
  | statement => rcases kind_refusalAtStatement got scopes with h | h <;> simp [refusal, h]
  | expression host frames p =>
    cases p with
    | operand | firstArgument | field _ _ | vector _ _ =>
      simp [refusal, refusalInExpression, Cause.kind]
    | name _ _ | member _ _ _ | complete _ =>
      rcases kind_refusalAfter host got frames with h | h <;>
        simp [refusal, refusalInExpression, h]
  | _ => simp [refusal, Cause.kind]

/-- Where all members are kept, every struct may end. -/
theorem kind_refusal_ne_unsupportedStruct (o : Options) {s : State} {t : Token}
    (h : s.take? (o.keeping true) t = none) :
    (s.refusal t.symbol).kind ≠ .unsupportedStruct := by
  intro hkind
  obtain ⟨done, scopes, mode⟩ := s
  obtain ⟨hclose, r, rfl⟩ := kind_refusal_eq_unsupportedStruct.mp hkind
  rw [take?_of_takes (.closeStruct hclose (.inr rfl))] at h
  cases h

theorem refusal_firstMembers (s : State) (got : Symbol) :
    s.firstMembers.refusal got = s.refusal got := by
  obtain ⟨done, scopes, mode⟩ := s
  cases mode with
  | statement =>
    cases scopes with
    | nil => rfl
    | cons scope scopes => cases scope <;> rfl
  | _ => rfl

theorem isComplete_firstMembers (s : State) : s.firstMembers.isComplete = s.isComplete := by
  obtain ⟨done, scopes, mode⟩ := s
  cases mode <;> simp [isComplete, firstMembers, Mode.firstMember]

theorem hasMembers_of_isComplete {s : State} (h : s.isComplete = true) :
    s.hasMembers = true ↔ ∀ r ∈ s.finished, r.hasMembers = true := by
  rw [hasMembers, membersTest.passesState_of_isComplete h, List.all_eq_true]
  rfl

end State

/-! ## The extension -/

/-- Keeping all members of a struct extends keeping the first. -/
def membersExtension (o : Options) :
    Extension (o.keeping false) (o.keeping true) .unsupportedStruct where
  cut := Stmt.firstMembers
  isPlain := Stmt.hasMembers
  view := State.firstMembers
  Plain s := s.hasMembers = true
  Sound _ := True
  Parts := State.EndsEmptyStruct
  view_start := rfl
  plain_start := rfl
  sound_start := trivial
  sound_take? _ _ := trivial
  take?_view := State.take?_firstMembers o
  refused := State.take?_eq_none_of_endsEmptyStruct o
  plain_iff _ := State.hasMembers_of_take? o
  refusal_view := State.refusal_firstMembers
  kind_of_parts h :=
    have ⟨hclose, r, hr, _⟩ := h
    State.kind_refusal_eq_unsupportedStruct.mpr ⟨hclose, r, hr⟩
  kind_ne := State.kind_refusal_ne_unsupportedStruct o
  isComplete_view := State.isComplete_firstMembers
  finished_view _ := rfl
  plain_of_isComplete := State.hasMembers_of_isComplete

theorem Options.keeping_eq_self {o : Options} {all : Bool} (h : o.allMembers = all) :
    o.keeping all = o := by
  cases h
  rfl

/-- Outside the braces of a struct, the last tokens spell what was read of the current
statement, whichever members are kept. -/
theorem exists_spells_mode {o : Options} {ts : List Token} {s : State}
    (h : State.start.takeAll? o ts = some s) (hs : s.mode.inStruct = false) :
    ∃ before current, ts = before ++ current ∧ Spells s.mode.written current := by
  -- A program that keeps all members has got as far, and nothing of it is lost.
  have hall : ∃ s', State.start.takeAll? (o.keeping true) ts = some s' ∧ s'.mode = s.mode := by
    cases ho : o.allMembers with
    | true =>
      rw [Options.keeping_eq_self ho]
      exact ⟨s, h, rfl⟩
    | false =>
      rw [← Options.keeping_eq_self ho] at h
      obtain ⟨s', hs', -, -, rfl⟩ := (membersExtension o).takeAll?_start h
      have hs : s'.mode.inStruct = false := s'.mode.inStruct_firstMember.symm.trans hs
      exact ⟨s', hs', (Mode.firstMember_of_not_inStruct hs).symm⟩
  obtain ⟨s', hs', hmode⟩ := hall
  rw [← hmode]
  exact exists_spells_current rfl hs'

/-- A struct without members that is about to end was read right before. -/
theorem exists_emptyStruct {o : Options} (ho : o.allMembers = true) {before : List Token}
    {s : State} {t : Token} (h : State.start.takeAll? o before = some s)
    (ht : s.EndsEmptyStruct t) :
    ∃ (earlier : List Token) (word name opening : Token),
      before = earlier ++ [word, name, opening] ∧
      word.symbol = .keyword .struct ∧ (∃ n, name.symbol = .ident n) ∧
      opening.symbol = .punct .openBrace := by
  obtain ⟨earlier, struct, rfl, hstruct⟩ := exists_spells_current ho h
  obtain ⟨-, ⟨n, start, members⟩, hmode, rfl⟩ := ht
  rw [hmode] at hstruct
  obtain ⟨word, _, rfl, hword, hstruct⟩ := spells_cons.mp hstruct
  obtain ⟨name, _, rfl, hname, hstruct⟩ := spells_cons.mp hstruct
  obtain ⟨opening, rfl, hopening⟩ := spells_singleton.mp hstruct
  exact ⟨earlier, word, name, opening, rfl, by simpa using hword, ⟨n, by simpa using hname⟩,
    by simpa using hopening⟩

/-- The closing brace of a struct without members, at a place in a row of tokens. -/
def EmptyStructEnds (tokens : List Token) (place : Nat) : Prop :=
  ∃ (before : List Token) (word name opening closing : Token) (after : List Token),
    tokens = before ++ word :: name :: opening :: closing :: after ∧ place = before.length + 3 ∧
      word.symbol = .keyword .struct ∧ (∃ n, name.symbol = .ident n) ∧
      opening.symbol = .punct .openBrace ∧ closing.symbol = .punct .closeBrace

/-- Where only the first member is kept, a struct that is refused for its members has none. -/
theorem emptyStructEnds_of_parse {o : Options} {tokens : List Token} {cursor : Nat}
    {d : Diagnostic} (h : (Parser.mk tokens (o.keeping false) cursor).parse.1 = .error d)
    (hk : d.kind = .unsupportedStruct) :
    EmptyStructEnds tokens (Parser.mk tokens (o.keeping false) cursor).parse.2.cursor := by
  obtain ⟨skipped, before, after, t, s, rfl, hcursor, -, hs, ht⟩ :=
    (membersExtension o).exists_parts h hk
  obtain ⟨earlier, word, name, opening, rfl, hword, hname, hopening⟩ :=
    exists_emptyStruct rfl hs ht
  refine ⟨skipped ++ earlier, word, name, opening, t, after, ?_, ?_, hword, hname, hopening, ht.1⟩
  · simp only [List.append_assoc, List.cons_append, List.nil_append]
  · rw [hcursor, List.length_append, List.length_append, ← Nat.add_assoc]
    rfl

/-- Whether all members of a struct are kept or only the first decides what becomes of structs
and nothing else.
What is read with the first members is, up to them, what is read with all members, and there
every struct has one. What is refused is refused alike, unless it is the end of a struct
without members, which nothing but the larger grammar takes. -/
theorem parse_keeping_members (tokens : List Token) (o : Options) (cursor : Nat) :
    let first := (Parser.mk tokens (o.keeping false) cursor).parse
    let all := (Parser.mk tokens (o.keeping true) cursor).parse
    (∀ program, first.1 = .ok program → ∃ program', all.1 = .ok program' ∧
        all.2.cursor = first.2.cursor ∧ haveMembers program' = true ∧
        program = firstMembers program') ∧
      (∀ d, first.1 = .error d → d.kind ≠ .unsupportedStruct →
        all.1 = .error d ∧ all.2.cursor = first.2.cursor) ∧
      (∀ program, all.1 = .ok program → haveMembers program = true →
        first.1 = .ok (firstMembers program)) ∧
      (∀ d, all.1 = .error d → d.kind ≠ .unsupportedStruct) ∧
      ∀ d, first.1 = .error d → d.kind = .unsupportedStruct →
        EmptyStructEnds tokens first.2.cursor := by
  obtain ⟨hok, herror, hplain, hkind⟩ := (membersExtension o).parse_conservative tokens cursor
  simp only [haveMembers_eq_all, List.all_eq_true, firstMembers_eq_map]
  exact ⟨hok, herror, hplain, hkind, fun _ => emptyStructEnds_of_parse⟩

/-- The tokens of a directive and of a struct without members. -/
def emptyStructTokens : List Token :=
  [.attr [120], .keyword .struct, .ident [84], .punct .openBrace, .punct .closeBrace, .eof].map
    Symbol.token

theorem parse_keeping_members_structs :
    (∃ program, (Parser.mk pairTokens ⟨false, false, false⟩ 0).parse.1 =
        .ok (firstMembers program) ∧ haveMembers program = true ∧
        (Parser.mk pairTokens ⟨true, false, false⟩ 0).parse.1 = .ok program) ∧
      ∃ d, (Parser.mk emptyStructTokens ⟨false, false, false⟩ 0).parse.1 = .error d ∧
        d.kind = .unsupportedStruct ∧
        EmptyStructEnds emptyStructTokens
          (Parser.mk emptyStructTokens ⟨false, false, false⟩ 0).parse.2.cursor := by
  obtain ⟨hok, -, -, -, -⟩ := parse_keeping_members pairTokens {} 0
  obtain ⟨-, -, -, -, hends⟩ := parse_keeping_members emptyStructTokens {} 0
  constructor
  · obtain ⟨program, hall, -, hmembers, hfirst⟩ := hok _ rfl
    exact ⟨program, congrArg Except.ok hfirst, hmembers, hall⟩
  · exact ⟨_, rfl, rfl, hends _ rfl rfl⟩

end ShaderFront
