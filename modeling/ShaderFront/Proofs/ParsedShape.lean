import ShaderFront.Proofs.Calls
import ShaderFront.Proofs.WellFormed
import ShaderFront.Tree.Node

/-!
# Programs that are read are well formed

What is complete in an unfinished program is well formed, and what is not can still become
so. Every token keeps this, so it holds when nothing is open any more. Well-formedness is
a matter of each node and its children, so every node of a program has its shape, however
deep it lies.

A statement that is an expression cannot start with the type of a vector, because that
starts a declaration. After an operator with one operand a vector may well come first.
-/

namespace ShaderFront

/-! ## How an expression starts -/

/-- Does the written form of a part that waits start with the type of a vector? -/
def Frame.startsWithVector : Frame → Bool
  | .binary left _ => left.startsWithVector
  | .construct _ _ _ => true
  | .unary _ _ | .paren _ | .call _ _ _ => false

/-- May the written form of the operand that is being read start with the type of a vector?
It may as long as nothing of it is there. -/
def Point.mayStartWithVector : Point → Bool
  | .operand | .firstArgument | .vector _ _ => true
  | .name _ _ | .field _ _ | .member _ _ _ => false
  | .complete value => value.startsWithVector

/-- May an expression start with the type of a vector, if its innermost operand may? The
outermost part that waits decides, if there is one. -/
def vectorFirst (operand : Bool) (frames : List Frame) : Bool :=
  frames.foldl (fun _ f => f.startsWithVector) operand

@[simp] theorem vectorFirst_nil (operand : Bool) : vectorFirst operand [] = operand := rfl

@[simp] theorem vectorFirst_cons (operand : Bool) (f : Frame) (frames : List Frame) :
    vectorFirst operand (f :: frames) = vectorFirst f.startsWithVector frames := rfl

/-- If no operand at all makes an expression start with a vector, none does. -/
theorem vectorFirst_eq_false {frames : List Frame} (h : vectorFirst true frames = false)
    (operand : Bool) : vectorFirst operand frames = false := by
  cases frames with
  | nil => cases h
  | cons f frames => exact h

/-- Grouping does not change how an expression starts. -/
theorem vectorFirst_group {waits : Operator → Bool} {e v : Expr} {frames inner : List Frame}
    (h : group waits e frames = (v, inner)) :
    vectorFirst v.startsWithVector inner = vectorFirst e.startsWithVector frames := by
  induction frames generalizing e with
  | nil =>
    cases h
    rfl
  | cons f frames ih =>
    cases f with
    | unary op start => exact ih h
    | binary left op =>
      rw [group] at h
      split at h
      · cases h
        rfl
      · exact (ih h :)
    | paren start | call callee opened args | construct type start args =>
      cases h
      rfl

/-! ## What is complete, and what has begun -/

/-- The complete parts of an enclosing statement are well formed. -/
def Scope.IsWellFormed (o : Options) : Scope → Prop
  | .block _ inner => ∀ s ∈ inner, s.isWellFormed o = true
  | .function head _ inner => head.isWellFormed = true ∧ ∀ s ∈ inner, s.isWellFormed o = true
  | .guard _ condition => condition.isWellFormed o = true

/-- The complete and the enclosing statements are well formed. -/
structure EnclosedWell (o : Options) (done : List Stmt) (scopes : List Scope) : Prop where
  /-- The complete statements. -/
  done : ∀ s ∈ done, s.isWellFormed o = true
  /-- The enclosing statements. -/
  scopes : ∀ c ∈ scopes, c.IsWellFormed o

/-- Is the head of the statement that an expression is for well formed, and does the
expression start as one for it can? -/
def Host.isWellBegun (frames : List Frame) (p : Point) : Host → Bool
  | .statement _ => !vectorFirst p.mayStartWithVector frames
  | .condition _ => true
  | .initial head => head.isWellFormed

/-- Does an open struct keep no more members than it may? -/
def OpenStruct.isWellBegun (o : Options) (s : OpenStruct) : Bool :=
  o.allMembers || s.members.length ≤ 1

/-- Can what was read of the current statement, apart from its expression, become well
formed? -/
def Mode.isWellBegun (o : Options) : Mode → Bool
  | .statement | .conditionStart _ | .modified _ | .structName _ | .structStart _ _ => true
  | .typed modifiers type _ => (modifiers = [] || modifiers = [.input]) && type.isType
  | .declared head | .parameters head | .functionBody head => head.isWellFormed
  | .members s | .memberColon s _ _ | .memberType s _ _ | .memberEnd s _ => s.isWellBegun o
  | .expression host frames p => host.isWellBegun frames p

/-- An unfinished program that can become well formed, as far as statements go. -/
structure State.IsWellBegun (o : Options) (s : State) : Prop where
  /-- What is complete is well formed. -/
  enclosed : EnclosedWell o s.finished s.scopes
  /-- The current statement has begun well. -/
  begun : s.mode.isWellBegun o = true

theorem Stmt.areWellFormed_iff {o : Options} {ss : List Stmt} :
    areWellFormed o ss = true ↔ ∀ s ∈ ss, s.isWellFormed o = true := by
  induction ss with
  | nil => simp [areWellFormed]
  | cons s ss ih => simp [areWellFormed, ih]

/-- A complete statement that is well formed keeps everything well formed. -/
theorem EnclosedWell.addStatement {o : Options} {s : Stmt} {done : List Stmt}
    {scopes : List Scope} (h : EnclosedWell o done scopes) (hs : s.isWellFormed o = true) :
    (ShaderFront.addStatement s done scopes).IsWellBegun o := by
  induction scopes generalizing s with
  | nil => exact ⟨⟨List.forall_mem_cons.mpr ⟨hs, h.done⟩, h.scopes⟩, rfl⟩
  | cons c scopes ih =>
    obtain ⟨hc, hscopes⟩ := List.forall_mem_cons.mp h.scopes
    cases c with
    | guard start condition =>
      have hcondition : condition.isWellFormed o = true := hc
      refine ih ⟨h.done, hscopes⟩ ?_
      rw [Stmt.isWellFormed, hcondition, hs, Bool.and_self]
    | block opened inner =>
      have hinner : ∀ r ∈ s :: inner, r.isWellFormed o = true :=
        List.forall_mem_cons.mpr ⟨hs, hc⟩
      exact ⟨⟨h.done, List.forall_mem_cons.mpr ⟨hinner, hscopes⟩⟩, rfl⟩
    | function head opened inner =>
      have hinner : ∀ r ∈ s :: inner, r.isWellFormed o = true :=
        List.forall_mem_cons.mpr ⟨hs, hc.2⟩
      exact ⟨⟨h.done, List.forall_mem_cons.mpr ⟨⟨hc.1, hinner⟩, hscopes⟩⟩, rfl⟩

/-! ## One token -/

theorem isTypeName_spelling {k : Keyword} (h : k.isType = true) :
    isTypeName (utf8 k.spelling) = true := by
  cases k with
  | float | vec3 | vec4 | void => decide
  | _ => cases h

/-- What starts an operand does not bring a vector to the front. -/
theorem StartsOperand.isWellBegun {o : Options} {host : Host} {frames : List Frame} {t : Token}
    {m : Mode} (h : StartsOperand host frames t m)
    (hh : host.isWellBegun frames .operand = true) : m.isWellBegun o = true := by
  cases host with
  | condition start => cases h <;> rfl
  | initial head => cases h <;> exact hh
  | statement start =>
    have hfirst : vectorFirst true frames = false := by
      simpa [Host.isWellBegun, Point.mayStartWithVector] using hh
    have hany := vectorFirst_eq_false hfirst
    cases h <;> simp [Mode.isWellBegun, Host.isWellBegun, hany]

/-- An expression that starts as before has still begun well. -/
theorem Host.isWellBegun_congr {host : Host} {frames inner : List Frame} {p q : Point}
    (h : vectorFirst q.mayStartWithVector inner = vectorFirst p.mayStartWithVector frames) :
    host.isWellBegun inner q = host.isWellBegun frames p := by
  cases host with
  | condition start | initial head => rfl
  | statement start => simp only [Host.isWellBegun, h]

theorem Point.mayStartWithVector_value {p : Point} {e : Expr} (h : p.value? = some e) :
    e.startsWithVector = p.mayStartWithVector := by
  cases p with
  | operand | firstArgument | field _ _ | vector _ _ => cases h
  | name _ _ | member _ _ _ | complete _ =>
    cases h
    rfl

/-- A token after an operand completes well-formed statements only. -/
theorem TakesAfter.isWellBegun {o : Options} {done : List Stmt} {scopes : List Scope}
    {next : State} {host : Host} {frames : List Frame} {p : Point} {e : Expr} {t : Token}
    (h : TakesAfter o ⟨done, scopes, .expression host frames p⟩ host frames e t next)
    (hp : p.value? = some e) (hf : WellFormedFrames o frames) (he : e.isWellFormed o = true)
    (hb : e.isBinary = false) (hh : host.isWellBegun frames p = true)
    (henc : EnclosedWell o done scopes) : next.IsWellBegun o := by
  have hfit : e.fitsIn o frames = true := Expr.fitsIn_of_not_isBinary hb
  have hstart := Point.mayStartWithVector_value hp
  cases h with
  | operator _ _ hg | nextArgument _ _ hg | parenEnd _ hg | callEnd _ hg | constructEnd _ hg
  | nextComponent _ hg =>
    have hfirst := vectorFirst_group hg
    rw [hstart] at hfirst
    refine ⟨henc, (Host.isWellBegun_congr ?_).trans hh⟩
    exact hfirst
  | @statementEnd start v _ hhost hg =>
    have hv := (hf.group he hfit hg).1
    have hfirst := vectorFirst_group hg
    rw [hstart] at hfirst
    have hplain : v.startsWithVector = false := by
      rw [hhost] at hh
      simpa [Host.isWellBegun, ← hfirst] using hh
    refine henc.addStatement ?_
    rw [Stmt.isWellFormed, hv, hplain]
    rfl
  | declarationEnd _ hhost hg =>
    have hv := (hf.group he hfit hg).1
    refine henc.addStatement ?_
    rw [hhost] at hh
    rw [Stmt.isWellFormed, Option.all_some, hv, Bool.and_true]
    exact hh
  | conditionEnd _ _ hg =>
    have hv := (hf.group he hfit hg).1
    exact ⟨⟨henc.done, List.forall_mem_cons.mpr ⟨hv, henc.scopes⟩⟩, rfl⟩

/-- A member that is added keeps a struct within its bounds. -/
theorem OpenStruct.isWellBegun_add {o : Options} {s : OpenStruct} (h : s.isWellBegun o = true)
    (m : Member) : (s.add o m).isWellBegun o = true := by
  unfold OpenStruct.add
  split
  · next hadd =>
    cases ho : o.allMembers with
    | true => simp [OpenStruct.isWellBegun, ho]
    | false =>
      have hempty : s.members = [] := by simpa [ho] using hadd
      simp [OpenStruct.isWellBegun, hempty]
  · exact h

/-- A struct that may close has the members that it must have. -/
theorem OpenStruct.isWellFormed_close {o : Options} {s : OpenStruct}
    (h : s.isWellBegun o = true) (hs : s.members ≠ [] ∨ o.allMembers = true) :
    s.close.isWellFormed o = true := by
  cases ho : o.allMembers with
  | true => simp [OpenStruct.close, Stmt.isWellFormed, ho]
  | false =>
    have hle : s.members.length ≤ 1 := by simpa [OpenStruct.isWellBegun, ho] using h
    have hne : s.members ≠ [] := by simpa [ho] using hs
    have hpos := List.length_pos_iff.mpr hne
    have hone : s.members.length = 1 := by omega
    simp [OpenStruct.close, Stmt.isWellFormed, ho, hone]

/-- Every token that is taken completes well-formed statements only. -/
theorem Takes.isWellBegun {o : Options} {done : List Stmt} {scopes : List Scope} {t : Token}
    {mode : Mode} {next : State} (h : Takes o done scopes t mode next)
    (henc : EnclosedWell o done scopes) (hm : mode.isWellBegun o = true)
    (hx : mode.IsWellFormed o) : next.IsWellBegun o := by
  cases h with
  | directive _ => exact henc.addStatement rfl
  | openBlock _ =>
    have hinner : ∀ s ∈ ([] : List Stmt), s.isWellFormed o = true := by simp
    exact ⟨⟨henc.done, List.forall_mem_cons.mpr ⟨hinner, henc.scopes⟩⟩, rfl⟩
  | @closeBlock opened inner outer _ hs =>
    subst hs
    obtain ⟨hinner, houter⟩ := List.forall_mem_cons.mp henc.scopes
    refine EnclosedWell.addStatement ⟨henc.done, houter⟩ ?_
    rw [Stmt.isWellFormed, Stmt.areWellFormed_iff]
    exact fun s hs => hinner s (List.mem_reverse.mp hs)
  | @closeFunction head opened inner outer _ hs =>
    subst hs
    obtain ⟨⟨hhead, hinner⟩, houter⟩ := List.forall_mem_cons.mp henc.scopes
    refine EnclosedWell.addStatement ⟨henc.done, houter⟩ ?_
    rw [Stmt.isWellFormed, hhead, List.isEmpty_nil, Bool.and_self, Bool.true_and,
      Stmt.areWellFormed_iff]
    exact fun s hs => hinner s (List.mem_reverse.mp hs)
  | type _ hk | modifiedType _ hk =>
    refine ⟨henc, ?_⟩
    simp [Mode.isWellBegun, hk]
  | start hn hstart =>
    refine ⟨henc, ?_⟩
    cases hstart with
    | vector hs _ => exact absurd hs (hn _)
    | _ => rfl
  | declare _ =>
    refine ⟨henc, ?_⟩
    simp only [Mode.isWellBegun, Bool.and_eq_true] at hm
    simp only [Mode.isWellBegun, Head.isWellFormed, hm.1, isTypeName_spelling hm.2, Bool.and_self]
  | declared _ =>
    refine henc.addStatement ?_
    rw [Stmt.isWellFormed, Option.all_none, Bool.and_true]
    exact hm
  | openFunction _ =>
    have hinner : ∀ s ∈ ([] : List Stmt), s.isWellFormed o = true := by simp
    exact ⟨⟨henc.done, List.forall_mem_cons.mpr ⟨⟨hm, hinner⟩, henc.scopes⟩⟩, rfl⟩
  | openStruct _ =>
    refine ⟨henc, ?_⟩
    simp [Mode.isWellBegun, OpenStruct.isWellBegun]
  | closeStruct _ hs => exact henc.addStatement (OpenStruct.isWellFormed_close hm hs)
  | memberEnd _ => exact ⟨henc, OpenStruct.isWellBegun_add hm _⟩
  | operand hp hstart =>
    refine ⟨henc, hstart.isWellBegun ?_⟩
    rcases hp with rfl | rfl <;> exact hm
  | emptyCall _ | emptyConstruct _ | colon _ | field _ | openConstruct _ =>
    exact ⟨henc, (Host.isWellBegun_congr rfl).trans hm⟩
  | openCall _ hp =>
    refine ⟨henc, (Host.isWellBegun_congr ?_).trans hm⟩
    cases hp <;> rfl
  | after hp hn =>
    obtain ⟨he, hb⟩ := Point.isWellFormed_value hx.2.1 hp
    exact hn.isWellBegun hp hx.1 he hb hm henc
  | cond _ | input _ | struct _ | openCondition _ | initial _ | openParameters _
  | closeParameters _ | structName _ | memberName _ | memberColon _ | memberType _ =>
    exact ⟨henc, hm⟩

/-- A row of tokens that is taken completes well-formed statements only. -/
theorem State.isWellBegun_of_takeAll? {o : Options} {s next : State} {ts : List Token}
    (h : s.takeAll? o ts = some next) (hs : s.IsWellBegun o) (hx : s.mode.IsWellFormed o) :
    next.IsWellBegun o := by
  induction ts generalizing s with
  | nil =>
    cases h
    exact hs
  | cons t ts ih =>
    obtain ⟨mid, ht, hts⟩ := Option.bind_eq_some_iff.mp h
    have htakes := State.takes_of_take? ht
    exact ih hts (htakes.isWellBegun hs.enclosed hs.begun hx) (htakes.isWellFormed hx)

/-! ## The shape of a node -/

/-- How tightly the operator binds that makes the expression, if one between two operands
does. -/
def Expr.level? : Expr → Option Nat
  | .binary op _ _ _ => op.level?
  | _ => none

/-- Does an operator before its operand make the expression? -/
def Expr.isUnary : Expr → Bool
  | .unary _ _ _ => true
  | _ => false

/-- Is the expression a vector? -/
def Expr.isVector : Expr → Bool
  | .construct _ _ _ => true
  | _ => false

/-- The operand that comes first in an expression, with the operators before it. -/
def Expr.firstOperand : Expr → Expr
  | .binary _ left _ _ => left.firstOperand
  | e => e

/-- The operand that comes first in an expression, without the operators before it. -/
def Expr.firstPrimary : Expr → Expr
  | .binary _ left _ _ => left.firstPrimary
  | .unary _ operand _ => operand.firstPrimary
  | e => e

/-- The operands of an operator of the given level bind tightly enough: the left one at
least as tightly, the right one more tightly; the other way round where assignments group
to the right. -/
def OperandsBind (right : Bool) (level : Nat) (l r : Expr) : Prop :=
  if right then (∀ m ∈ l.level?, level < m) ∧ ∀ m ∈ r.level?, level ≤ m
  else (∀ m ∈ l.level?, level ≤ m) ∧ ∀ m ∈ r.level?, level < m

/-- The modifiers and the type of a declaration are such as can be written. -/
def Head.HasShape (h : Head) : Prop :=
  (h.modifiers = [] ∨ h.modifiers = [.input]) ∧
    h.type ∈ [utf8 "float", utf8 "vec3", utf8 "vec4", utf8 "void"]

/-- The node is such as a program that is read can have, as far as it and its children
go. -/
def Node.HasShape (o : Options) : Node → Prop
  | .expr (.binary op left right _) =>
    ∃ n, op.level? = some n ∧ OperandsBind (o.assignRight && op = .assign) n left right
  | .expr (.unary op operand _) => (op = .not ∨ op = .minus) ∧ operand.isBinary = false
  | .expr (.call callee args _) =>
    callee.isCallee = true ∧ (o.manyArguments = false → args.length ≤ 1)
  | .expr (.construct type _ _) => type = utf8 "vec3" ∨ type = utf8 "vec4"
  | .stmt (.expr value _) => value.firstPrimary.isVector = true → value.firstOperand.isUnary = true
  | .stmt (.decl head _) => head.HasShape
  | .stmt (.directive _ params _) => params = []
  | .stmt (.function head params _ _) => head.HasShape ∧ params = []
  | .stmt (.struct attr _ members _) =>
    attr = [] ∧ (o.allMembers = false → members.length = 1)
  | .expr .hole | .stmt .hole => False
  | _ => True

/-- Is the node well formed? A member always is. -/
def Node.isWellFormed (o : Options) : Node → Bool
  | .stmt s => s.isWellFormed o
  | .expr e => e.isWellFormed o
  | .member _ => true

/-- The children of a well-formed node are well formed. -/
theorem Node.isWellFormed_children {o : Options} {n : Node} (h : n.isWellFormed o = true) :
    ∀ c ∈ n.children, c.2.isWellFormed o = true := by
  have hcallee : ∀ callee : Expr, callee.isCallee = true → callee.isWellFormed o = true := by
    intro callee hc
    cases callee with
    | ident _ _ | member _ _ _ => rfl
    | _ => cases hc
  cases n with
  | member m => simp [children]
  | stmt s =>
    cases s with
    | decl head init =>
      cases init <;> simp_all [Node.isWellFormed, Stmt.isWellFormed, children]
    | _ =>
      simp_all [Node.isWellFormed, Stmt.isWellFormed, children, Stmt.areWellFormed_iff]
  | expr e =>
    cases e <;>
      simp_all [Node.isWellFormed, Expr.isWellFormed, children, Expr.areWellFormed_iff]

/-- What an operator may have on its left binds tightly enough. -/
theorem Options.level_of_allowsLeft {o : Options} {op : Operator} {e : Expr} {n m : Nat}
    (h : o.allowsLeft op e = true) (hn : op.level? = some n) (hm : e.level? = some m) :
    if o.assignRight && op = .assign then n < m else n ≤ m := by
  cases e with
  | binary inner l r span =>
    simp only [Expr.level?] at hm
    simpa [allowsLeft, hn, hm] using h
  | _ => cases hm

/-- What an operator may have on its right binds tightly enough. -/
theorem Options.level_of_allowsRight {o : Options} {op : Operator} {e : Expr} {n m : Nat}
    (h : o.allowsRight op e = true) (hn : op.level? = some n) (hm : e.level? = some m) :
    if o.assignRight && op = .assign then n ≤ m else n < m := by
  cases e with
  | binary inner l r span =>
    simp only [Expr.level?] at hm
    simp only [allowsRight, hn, hm, Bool.or_eq_true, Bool.and_eq_true, decide_eq_true_eq] at h
    split
    · next hright =>
      rcases h with h | ⟨⟨-, rfl⟩, rfl⟩
      · exact Nat.le_of_lt h
      · rw [hn] at hm
        cases hm
        exact Nat.le_refl n
    · next hright =>
      rcases h with h | ⟨hassign, -⟩
      · exact h
      · simp [hassign] at hright
  | _ => cases hm

/-- An expression that does not start with the type of a vector has a vector first only
behind an operator with one operand. -/
theorem Expr.isUnary_firstOperand {e : Expr} (h : e.startsWithVector = false)
    (hv : e.firstPrimary.isVector = true) : e.firstOperand.isUnary = true := by
  induction e using Expr.firstOperand.induct with
  | case1 op left right span ih => exact ih h hv
  | case2 e hbinary =>
    cases e with
    | binary op left right span => exact absurd rfl (hbinary op left right span)
    | unary op operand span => rfl
    | construct type args span => cases h
    | _ => cases hv

theorem Head.hasShape_of_isWellFormed {h : Head} (hw : h.isWellFormed = true) : h.HasShape := by
  simp only [Head.isWellFormed, Bool.and_eq_true, Bool.or_eq_true, decide_eq_true_eq] at hw
  obtain ⟨k, hk, hspelling⟩ := exists_of_isTypeName hw.2
  refine ⟨hw.1, ?_⟩
  rw [← hspelling]
  cases k with
  | float | vec3 | vec4 | void => simp [Keyword.spelling]
  | _ => cases hk

/-- A well-formed expression has its shape. -/
theorem Expr.hasShape_of_isWellFormed {o : Options} {e : Expr} (h : e.isWellFormed o = true) :
    (Node.expr e).HasShape o := by
  cases e with
  | hole => cases h
  | binary op left right span =>
    simp only [Expr.isWellFormed, Bool.and_eq_true] at h
    obtain ⟨⟨⟨⟨hop, hleft⟩, hright⟩, -⟩, -⟩ := h
    obtain ⟨n, hn⟩ := Option.isSome_iff_exists.mp hop
    have hl := fun m hm => Options.level_of_allowsLeft (m := m) hleft hn hm
    have hr := fun m hm => Options.level_of_allowsRight (m := m) hright hn hm
    refine ⟨n, hn, ?_⟩
    unfold OperandsBind
    split
    · next hassign => exact ⟨by simpa [hassign] using hl, by simpa [hassign] using hr⟩
    · next hassign => exact ⟨by simpa [hassign] using hl, by simpa [hassign] using hr⟩
  | unary op operand span =>
    simp only [Expr.isWellFormed, Bool.and_eq_true, Bool.not_eq_true'] at h
    refine ⟨?_, h.1.2⟩
    cases op with
    | not => exact .inl rfl
    | minus => exact .inr rfl
    | _ => cases h.1.1
  | call callee args span =>
    simp only [Expr.isWellFormed, Bool.and_eq_true, Bool.or_eq_true, decide_eq_true_eq] at h
    refine ⟨h.1.1, fun hmany => ?_⟩
    simpa [hmany] using h.1.2
  | construct type args span =>
    simp only [Expr.isWellFormed, Bool.and_eq_true] at h
    obtain ⟨k, hk, rfl⟩ := exists_of_isVectorName h.1
    cases k with
    | vec3 => exact .inl rfl
    | vec4 => exact .inr rfl
    | _ => cases hk
  | _ => trivial

/-- A well-formed statement has its shape. -/
theorem Stmt.hasShape_of_isWellFormed {o : Options} {s : Stmt} (h : s.isWellFormed o = true) :
    (Node.stmt s).HasShape o := by
  cases s with
  | hole => cases h
  | expr value span =>
    simp only [Stmt.isWellFormed, Bool.and_eq_true, Bool.not_eq_true'] at h
    exact Expr.isUnary_firstOperand h.2
  | decl head init =>
    simp only [Stmt.isWellFormed, Bool.and_eq_true] at h
    exact Head.hasShape_of_isWellFormed h.1
  | directive name params span => exact List.isEmpty_iff.mp h
  | function head params body span =>
    simp only [Stmt.isWellFormed, Bool.and_eq_true] at h
    exact ⟨Head.hasShape_of_isWellFormed h.1.1, List.isEmpty_iff.mp h.1.2⟩
  | struct attr name members span =>
    simp only [Stmt.isWellFormed, Bool.and_eq_true, Bool.or_eq_true, decide_eq_true_eq] at h
    refine ⟨List.isEmpty_iff.mp h.1, fun hall => ?_⟩
    simpa [hall] using h.2
  | cond _ _ _ | block _ _ => trivial

theorem Node.hasShape_of_isWellFormed {o : Options} {n : Node} (h : n.isWellFormed o = true) :
    n.HasShape o := by
  cases n with
  | stmt s => exact Stmt.hasShape_of_isWellFormed h
  | expr e => exact Expr.hasShape_of_isWellFormed h
  | member m => trivial

/-- All nodes below a well-formed one have their shape. -/
theorem Node.hasShape_of_mem_walk {o : Options} {n : Node} (h : n.isWellFormed o = true)
    {depth : Nat} {role : Role} {v : Visit} (hv : v ∈ n.walk depth role) : v.node.HasShape o := by
  induction n using Node.child_induction generalizing depth role with
  | step n ih =>
    rw [Node.walk_eq] at hv
    rcases List.mem_cons.mp hv with rfl | hv
    · exact Node.hasShape_of_isWellFormed h
    · obtain ⟨c, hc, hv⟩ := List.mem_flatMap.mp hv
      exact ih c hc (Node.isWellFormed_children h c hc) hv

/-! ## Programs that are read -/

/-- A program that is read is well formed. -/
theorem areWellFormed_of_parse {p : Parser} {program : List Stmt}
    (h : p.parse.1 = .ok program) : Stmt.areWellFormed p.options program = true := by
  obtain ⟨taken, rest, next, hcall⟩ := p.exists_callTakes
  obtain ⟨-, rfl⟩ := hcall.of_ok h
  have hstart : State.start.IsWellBegun p.options :=
    ⟨⟨by simp [State.start], by simp [State.start]⟩, rfl⟩
  have hnext := State.isWellBegun_of_takeAll? hcall.takeAll? hstart trivial
  rw [Stmt.areWellFormed_iff]
  exact fun s hs => hnext.enclosed.done s (List.mem_reverse.mp hs)

/-- Every node of a program that is read has its shape, however deep it lies. -/
theorem parse_shape (p : Parser) (program : List Stmt) (h : p.parse.1 = .ok program) :
    ∀ v ∈ walk program, v.node.HasShape p.options := by
  have hw := Stmt.areWellFormed_iff.mp (areWellFormed_of_parse h)
  intro v hv
  obtain ⟨s, hs, hv⟩ := List.mem_flatMap.mp hv
  exact Node.hasShape_of_mem_walk (n := .stmt s) (hw s hs) hv

/-- `if (a && b + c * d) x = y = -vec3(f(1));` -/
def guardedTokens : List Token :=
  [.keyword .cond, .punct .openParen, .ident [97], .operator .and, .ident [98], .operator .plus,
    .ident [99], .operator .times, .ident [100], .punct .closeParen, .ident [120],
    .operator .assign, .ident [121], .operator .assign, .operator .minus, .keyword .vec3,
    .punct .openParen, .ident [102], .punct .openParen, .number ⟨0x3ff0000000000000⟩,
    .punct .closeParen, .punct .closeParen, .punct .semicolon].map Symbol.token

/-- The condition of that statement. -/
def guardingSum : Expr :=
  .binary .and (.ident [97] (.startingAt .none))
    (.binary .plus (.ident [98] (.startingAt .none))
      (.binary .times (.ident [99] (.startingAt .none)) (.ident [100] (.startingAt .none))
        (.startingAt .none)) (.startingAt .none)) (.startingAt .none)

/-- The assignments of that statement, which group to the right. -/
def guardedAssignment : Expr :=
  .binary .assign (.ident [120] (.startingAt .none))
    (.binary .assign (.ident [121] (.startingAt .none))
      (.unary .minus
        (.construct (utf8 "vec3")
          [.call (.ident [102] (.startingAt .none))
            [.number ⟨0x3ff0000000000000⟩ (.startingAt .none)] (.startingAt .none)]
          (.startingAt .none)) (.startingAt .none)) (.startingAt .none)) (.startingAt .none)

/-- That statement. -/
def guardedStatement : Stmt :=
  .cond guardingSum (.expr guardedAssignment (.startingAt .none)) (.startingAt .none)

theorem parse_shape_guarded :
    (Parser.fresh ⟨false, false, true⟩ guardedTokens).parse.1 = .ok [guardedStatement] ∧
      ∀ v ∈ walk [guardedStatement], v.node.HasShape ⟨false, false, true⟩ := by
  have h : (Parser.fresh ⟨false, false, true⟩ guardedTokens).parse.1 = .ok [guardedStatement] := rfl
  exact ⟨h, parse_shape _ _ h⟩

/-- `-vec3(1);` -/
def negatedVectorTokens : List Token :=
  [.operator .minus, .keyword .vec3, .punct .openParen, .number ⟨0x3ff0000000000000⟩,
    .punct .closeParen, .punct .semicolon].map Symbol.token

/-- The operand that comes first in a statement may be a vector, if an operator stands
before it. -/
theorem parse_negatedVector_firstPrimary :
    ∃ value span, (Parser.fresh {} negatedVectorTokens).parse.1 = .ok [.expr value span] ∧
      value.firstPrimary.isVector = true :=
  ⟨_, _, rfl, rfl⟩

end ShaderFront
