import ShaderFront.Proofs.Step

/-!
# What a token does to the enclosing statements

Whether a token is taken depends on how far the innermost statement has got. What
encloses that statement matters in one case only, the end of a block. So all that a
token can do to the enclosing statements is one of four actions, and which one it is
can be told without looking at them.
-/

namespace ShaderFront

/-- What a token does to the statements around the current one. -/
inductive Action where
  /-- The current statement gets to another point. -/
  | proceed (mode : Mode)
  /-- The current statement is complete. -/
  | complete (s : Stmt)
  /-- A statement opens around the next one. -/
  | enter (scope : Scope)
  /-- The innermost block closes. -/
  | leave
  deriving Repr

/-- The unfinished program after an action. Only the end of a block can fail. -/
def Action.perform? (state : State) : Action → Option State
  | proceed mode => some (state.withMode mode)
  | complete s => some (state.complete s)
  | enter scope => some (state.enter scope)
  | leave => closeBlock? state

/-! ## Actions that bring nothing along -/

/-- Is the current statement a struct with its brace open? -/
def Mode.inStruct : Mode → Bool
  | .members _ | .memberColon _ _ _ | .memberType _ _ _ | .memberEnd _ _ => true
  | _ => false

/-- The members that the current statement holds so far. -/
def Mode.kept : Mode → List Member
  | .members s | .memberColon s _ _ | .memberType s _ _ | .memberEnd s _ => s.members
  | _ => []

/-- Is the statement one that has neither statements nor members in it? -/
def Stmt.isLeaf : Stmt → Bool
  | .expr _ _ | .decl _ _ | .directive _ _ _ => true
  | _ => false

/-- Are there no statements yet in the one that opens? -/
def Scope.isEmpty : Scope → Bool
  | .block _ inner | .function _ _ inner => inner.isEmpty
  | .guard _ _ => true

/-- Does the action bring neither statements nor members along? -/
def Action.isFresh : Action → Bool
  | proceed mode => mode.kept.isEmpty
  | complete s => s.isLeaf
  | enter scope => scope.isEmpty
  | leave => true

/-! ## Every token acts -/

/-- What becomes of an unfinished program is an action that does not depend on it, or a
refusal that does not. If asked for, the action brings nothing along. -/
def Acts (fresh : Bool) (next : State → Option State) : Prop :=
  ∃ a : Option Action, (fresh = true → ∀ x ∈ a, x.isFresh = true) ∧
    ∀ state, next state = a.bind (Action.perform? state)

theorem acts_refuse (fresh : Bool) : Acts fresh fun _ => none :=
  ⟨none, by simp, fun _ => rfl⟩

theorem acts_perform {fresh : Bool} (x : Action) (hx : fresh = true → x.isFresh = true) :
    Acts fresh fun state => x.perform? state :=
  ⟨some x, by simpa using hx, fun _ => rfl⟩

/-- The current statement gets to a point, if it gets anywhere. -/
theorem acts_proceed (fresh : Bool) {α : Type} (x : Option α) (f : α → Mode)
    (hf : fresh = true → ∀ a ∈ x, (f a).kept = []) :
    Acts fresh fun state => x.map fun a => state.withMode (f a) := by
  cases x with
  | none => exact acts_refuse fresh
  | some a => exact acts_perform (.proceed (f a)) fun h => by simp [Action.isFresh, hf h a rfl]

/-- A certain mark leads to a point without members. -/
theorem acts_onMark? (fresh : Bool) (t : Token) (mark : Punct) {m : Mode}
    (hm : fresh = true → m.kept = []) : Acts fresh fun state => state.onMark? t mark m := by
  unfold State.onMark?
  split
  · exact acts_perform (.proceed m) fun hf => by simp [Action.isFresh, hm hf]
  · exact acts_refuse fresh

/-- The start of an operand holds no members. -/
theorem kept_of_takeOperand? {host : Host} {frames : List Frame} {t : Token} :
    ∀ m ∈ takeOperand? host frames t, m.kept = [] := by
  intro m hm
  cases takeOperand?_iff.mp hm <;> rfl

/-- Nor does a bracket that is closed. -/
theorem kept_of_closeBracket? {host : Host} {last : Option Expr} {frames : List Frame} :
    ∀ m ∈ closeBracket? host last frames, m.kept = [] := by
  intro m hm
  unfold closeBracket? at hm
  split at hm
  · obtain ⟨e, -, rfl⟩ := Option.map_eq_some_iff.mp hm
    rfl
  · cases hm
    rfl
  · cases hm
    rfl
  · cases hm

/-- Nor does a bracket that goes on. -/
theorem kept_of_nextArgument? {o : Options} {host : Host} {e : Expr} {frames : List Frame} :
    ∀ m ∈ nextArgument? o host e frames, m.kept = [] := by
  intro m hm
  unfold nextArgument? at hm
  split at hm
  · split at hm
    · cases hm
      rfl
    · cases hm
  · cases hm
    rfl
  · cases hm

/-- The end of an expression is an action. -/
theorem acts_endExpression? (host : Host) (e : Expr) (got : Symbol) :
    Acts true fun state => endExpression? state host e got := by
  unfold endExpression?
  split
  · exact acts_perform (.complete _) fun _ => rfl
  · exact acts_perform (.complete _) fun _ => rfl
  · exact acts_perform (.enter _) fun _ => rfl
  · exact acts_refuse true

/-- A token after an operand acts. -/
theorem acts_takeAfter? (o : Options) (host : Host) (frames : List Frame) (e : Expr) (t : Token) :
    Acts true fun state => takeAfter? o state host frames e t := by
  unfold takeAfter?
  split
  · split
    · exact acts_perform (.proceed _) fun _ => rfl
    · exact acts_refuse true
  · split
    · exact acts_endExpression? host _ _
    · split
      · exact acts_proceed true _ id fun _ => kept_of_closeBracket?
      · exact acts_proceed true _ id fun _ => kept_of_nextArgument?
      · exact acts_refuse true

/-- A token after what may be called acts. -/
theorem acts_takeAfterCallee? (o : Options) (host : Host) (frames : List Frame) (callee : Expr)
    (t : Token) : Acts true fun state => takeAfterCallee? o state host frames callee t := by
  unfold takeAfterCallee?
  split
  · exact acts_perform (.proceed _) fun _ => rfl
  · exact acts_takeAfter? o host frames callee t

/-- A token inside an expression acts. -/
theorem acts_takeInExpression? (o : Options) (host : Host) (frames : List Frame) (p : Point)
    (t : Token) : Acts true fun state => takeInExpression? o state host frames p t := by
  unfold takeInExpression?
  cases p with
  | operand => exact acts_proceed true _ id fun _ => kept_of_takeOperand?
  | firstArgument =>
    dsimp only
    split
    · exact acts_proceed true _ id fun _ => kept_of_closeBracket?
    · exact acts_proceed true _ id fun _ => kept_of_takeOperand?
  | name name start =>
    dsimp only
    split
    · exact acts_perform (.proceed _) fun _ => rfl
    · exact acts_takeAfterCallee? o host frames _ t
  | field container start => exact acts_proceed true _ _ fun _ _ _ => rfl
  | member container field start => exact acts_takeAfterCallee? o host frames _ t
  | vector type start => exact acts_onMark? true t _ fun _ => rfl
  | complete e => exact acts_takeAfter? o host frames e t

/-- The first token of a statement acts. -/
theorem acts_takeStatement? (t : Token) : Acts true fun state => takeStatement? state t := by
  unfold takeStatement?
  split
  · exact acts_perform (.complete _) fun _ => rfl
  · exact acts_perform (.enter _) fun _ => rfl
  · exact acts_perform .leave fun _ => rfl
  · exact acts_perform (.proceed _) fun _ => rfl
  · exact acts_perform (.proceed _) fun _ => rfl
  · exact acts_perform (.proceed _) fun _ => rfl
  · split
    · exact acts_perform (.proceed _) fun _ => rfl
    · exact acts_refuse true
  · exact acts_proceed true _ id fun _ => kept_of_takeOperand?

/-- A token after the name of a declaration acts. -/
theorem acts_takeAfterName? (head : Head) (t : Token) :
    Acts true fun state => takeAfterName? state head t := by
  unfold takeAfterName?
  split
  · split
    · exact acts_perform (.proceed _) fun _ => rfl
    · exact acts_refuse true
  · exact acts_perform (.complete _) fun _ => rfl
  · exact acts_perform (.proceed _) fun _ => rfl
  · exact acts_refuse true

/-- The brace before the statements of a function acts. -/
theorem acts_openFunction (head : Head) (t : Token) :
    Acts true fun state =>
      if t.symbol = .punct .openBrace then some (state.enter (.function head t.pos []))
      else none := by
  split
  · exact acts_perform (.enter _) fun _ => rfl
  · exact acts_refuse true

/-- A token between two members of a struct acts. -/
theorem acts_takeMember? (o : Options) (s : OpenStruct) (t : Token) :
    Acts false fun state => takeMember? o state s t := by
  unfold takeMember?
  split
  · split
    · exact acts_refuse false
    · exact acts_perform (.complete _) nofun
  · exact acts_proceed false _ _ nofun

/-- What a token does in a certain mode. -/
theorem Acts.of_mode {o : Options} {mode : Mode} {t : Token} {next : State → Option State}
    {fresh : Bool} (h : Acts fresh next) (hf : mode.inStruct = !fresh)
    (hn : ∀ done scopes, (⟨done, scopes, mode⟩ : State).take? o t = next ⟨done, scopes, mode⟩) :
    ∃ a : Option Action, (mode.inStruct = false → ∀ x ∈ a, x.isFresh = true) ∧
      ∀ done scopes, (⟨done, scopes, mode⟩ : State).take? o t =
        a.bind (Action.perform? ⟨done, scopes, mode⟩) := by
  obtain ⟨a, hfresh, ha⟩ := h
  refine ⟨a, fun hm => hfresh ?_, fun done scopes => (hn done scopes).trans (ha _)⟩
  simpa [hf] using hm

/-- Every token acts, in a way that depends only on how far the current statement has got.
Outside the braces of a struct it brings neither statements nor members along. -/
theorem exists_action (o : Options) (mode : Mode) (t : Token) :
    ∃ a : Option Action, (mode.inStruct = false → ∀ x ∈ a, x.isFresh = true) ∧
      ∀ done scopes, (⟨done, scopes, mode⟩ : State).take? o t =
        a.bind (Action.perform? ⟨done, scopes, mode⟩) := by
  cases mode with
  | statement => exact (acts_takeStatement? t).of_mode rfl fun _ _ => rfl
  | declared head => exact (acts_takeAfterName? head t).of_mode rfl fun _ _ => rfl
  | expression host frames p =>
    exact (acts_takeInExpression? o host frames p t).of_mode rfl fun _ _ => rfl
  | members s => exact (acts_takeMember? o s t).of_mode rfl fun _ _ => rfl
  | conditionStart _ | parameters _ | structStart _ _ =>
    exact (acts_onMark? true t _ fun _ => rfl).of_mode rfl fun _ _ => rfl
  | memberColon _ _ _ | memberEnd _ _ =>
    exact (acts_onMark? false t _ nofun).of_mode rfl fun _ _ => rfl
  | modified _ | typed _ _ _ | structName _ =>
    exact (acts_proceed true _ _ fun _ _ _ => rfl).of_mode rfl fun _ _ => rfl
  | memberType _ _ _ => exact (acts_proceed false _ _ nofun).of_mode rfl fun _ _ => rfl
  | functionBody head => exact (acts_openFunction head t).of_mode rfl fun _ _ => rfl

/-! ## Tests of all statements -/

/-- A test that a statement passes if the statements in it do. Only conditions are tested
besides. -/
structure Test where
  /-- Does the statement pass? -/
  passes : Stmt → Bool
  /-- Does the condition of a statement pass? -/
  condition : Expr → Bool
  /-- A condition is tested with the statement that it guards. -/
  passes_cond : ∀ c s span, passes (.cond c s span) = (condition c && passes s)
  /-- The statements of a block are tested. -/
  passes_block : ∀ ss span, passes (.block ss span) = ss.all passes
  /-- The statements of a function are tested. -/
  passes_function : ∀ head params ss span,
    passes (.function head params ss span) = ss.all passes

namespace Test

variable (T : Test)

/-- Do the parts of an enclosing statement pass that are there? -/
def passesScope : Scope → Bool
  | .block _ inner | .function _ _ inner => inner.all T.passes
  | .guard _ c => T.condition c

/-- Do the complete parts of an unfinished program pass? -/
def passesState (s : State) : Bool :=
  s.finished.all T.passes && s.scopes.all T.passesScope

/-- A complete statement is tested with all others. -/
theorem passesState_addStatement (s : Stmt) (done : List Stmt) (scopes : List Scope) :
    T.passesState (addStatement s done scopes) =
      (T.passes s && (done.all T.passes && scopes.all T.passesScope)) := by
  induction scopes generalizing s with
  | nil => simp [addStatement, passesState]
  | cons scope scopes ih =>
    cases scope with
    | guard start c =>
      rw [addStatement, ih, T.passes_cond, List.all_cons, passesScope]
      ac_rfl
    | block opened inner =>
      simp only [addStatement, passesState, List.all_cons, passesScope]
      ac_rfl
    | function head opened inner =>
      simp only [addStatement, passesState, List.all_cons, passesScope]
      ac_rfl

theorem passesState_complete (s : State) (r : Stmt) :
    T.passesState (s.complete r) = (T.passes r && T.passesState s) :=
  T.passesState_addStatement r s.finished s.scopes

/-- A block that closes is tested like the statements in it. -/
theorem passesState_closeBlock? {s next : State} (h : closeBlock? s = some next) :
    T.passesState next = T.passesState s := by
  obtain ⟨done, scopes, mode⟩ := s
  cases scopes with
  | nil => cases h
  | cons scope scopes =>
    cases scope with
    | guard start c => cases h
    | block opened inner =>
      cases h
      rw [passesState_addStatement, T.passes_block, List.all_reverse]
      simp only [passesState, List.all_cons, passesScope]
      ac_rfl
    | function head opened inner =>
      cases h
      rw [passesState_addStatement, T.passes_function, List.all_reverse]
      simp only [passesState, List.all_cons, passesScope]
      ac_rfl

/-- Where nothing is open, all statements are complete. -/
theorem passesState_of_isComplete {s : State} (h : s.isComplete = true) :
    T.passesState s = s.finished.all T.passes := by
  simp only [State.isComplete, Bool.and_eq_true, List.isEmpty_iff] at h
  simp only [passesState, h.1, List.all_nil, Bool.and_true]

end Test

end ShaderFront
