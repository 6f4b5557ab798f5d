import ShaderFront.Proofs.Expressions
import ShaderFront.Proofs.Lossless

/-!
# Expressions that are read are well formed

Operators are grouped as the tokens come, so what waits in the frames must already be of
a form that every later token completes to a well-formed expression. In the frames around
an operand, an operator waits only for one that it may have on its right, and each list
holds no more than the grammar allows. This is kept by grouping, hence by every token.
-/

namespace ShaderFront

/-! ## What waits -/

/-- The frames around an operand, innermost first, can become well-formed expressions. -/
inductive WellFormedFrames (o : Options) : List Frame → Prop
  /-- There are none. -/
  | nil : WellFormedFrames o []
  /-- An operator stands before the operand. -/
  | unary {op : Operator} {start : Position} {frames : List Frame} (hop : op.isUnary = true)
    (h : WellFormedFrames o frames) : WellFormedFrames o (.unary op start :: frames)
  /-- An operator has taken its left operand, and nothing around takes that away. -/
  | binary {left : Expr} {op : Operator} {frames : List Frame} (hop : op.level?.isSome = true)
    (hl : o.allowsLeft op left = true) (hw : left.isWellFormed o = true)
    (hb : holdsBack o op frames = true) (h : WellFormedFrames o frames) :
    WellFormedFrames o (.binary left op :: frames)
  /-- A parenthesis is open. -/
  | paren {start : Position} {frames : List Frame} (h : WellFormedFrames o frames) :
    WellFormedFrames o (.paren start :: frames)
  /-- A call is open. -/
  | call {callee : Expr} {opened : Position} {args : List Expr} {frames : List Frame}
    (hc : callee.isCallee = true) (hm : o.manyArguments = true ∨ args = [])
    (ha : ∀ e ∈ args, e.isWellFormed o = true) (h : WellFormedFrames o frames) :
    WellFormedFrames o (.call callee opened args :: frames)
  /-- A vector is open. -/
  | construct {type : Keyword} {start : Position} {args : List Expr} {frames : List Frame}
    (ht : type.isVector = true) (ha : ∀ e ∈ args, e.isWellFormed o = true)
    (h : WellFormedFrames o frames) : WellFormedFrames o (.construct type start args :: frames)

/-- Can the operand become a well-formed expression that no operator makes? -/
def Point.isWellFormed (o : Options) : Point → Bool
  | .vector type _ => type.isVector
  | .complete value => value.isWellFormed o && !value.isBinary
  | _ => true

/-- The expression that is being read, if there is one, can become well formed. -/
def Mode.IsWellFormed (o : Options) : Mode → Prop
  | .expression _ frames p =>
    WellFormedFrames o frames ∧ p.isWellFormed o = true ∧ (p = .firstArgument → noArguments frames)
  | _ => True

theorem Expr.areWellFormed_iff {o : Options} {es : List Expr} :
    areWellFormed o es = true ↔ ∀ e ∈ es, e.isWellFormed o = true := by
  induction es with
  | nil => simp [areWellFormed]
  | cons e es ih => simp [areWellFormed, ih]

theorem isVectorName_spelling {k : Keyword} (h : k.isVector = true) :
    isVectorName (utf8 k.spelling) = true := by
  cases k with
  | vec3 | vec4 => decide
  | _ => cases h

/-- The value of an operand is well formed, and no operator makes it. -/
theorem Point.isWellFormed_value {o : Options} {p : Point} {e : Expr}
    (hp : p.isWellFormed o = true) (he : p.value? = some e) :
    e.isWellFormed o = true ∧ e.isBinary = false := by
  cases p with
  | operand | firstArgument | field _ _ | vector _ _ => cases he
  | name _ _ | member _ _ _ =>
    cases he
    exact ⟨rfl, rfl⟩
  | complete value =>
    cases he
    simpa [isWellFormed] using hp

/-! ## Grouping -/

/-- Assignment binds least tightly. -/
theorem Operator.one_lt_level {op : Operator} {n : Nat} (h : op.level? = some n)
    (hop : op ≠ .assign) : 1 < n := by
  cases op with
  | assign => exact absurd rfl hop
  | empty | not | unassigned _ => cases h
  | _ =>
    cases h
    decide

/-- An operator that does not wait may stand in the left operand of the next one. -/
theorem Options.allowsLeft_of_not_waits {o : Options} {op next : Operator} {left right : Expr}
    {span : Span} (hop : op.level?.isSome = true) (hnext : next.level?.isSome = true)
    (h : o.waits op next = false) : o.allowsLeft next (.binary op left right span) = true := by
  obtain ⟨i, hi⟩ := Option.isSome_iff_exists.mp hop
  obtain ⟨n, hn⟩ := Option.isSome_iff_exists.mp hnext
  simp only [waits, hi, hn, Bool.or_eq_false_iff, decide_eq_false_iff_not, Nat.not_lt] at h
  simp only [allowsLeft, hi, hn]
  split
  · next ha =>
    simp only [Bool.and_eq_true, decide_eq_true_eq] at ha
    obtain ⟨hright, rfl⟩ := ha
    have hne : op ≠ .assign := by
      rintro rfl
      simp [hright] at h
    cases hn
    exact decide_eq_true (Operator.one_lt_level hi hne)
  · exact decide_eq_true h.1

theorem Options.allowsLeft_of_not_isBinary {o : Options} {op : Operator} {e : Expr}
    (h : e.isBinary = false) : o.allowsLeft op e = true := by
  cases e with
  | binary inner l r span => cases h
  | _ => rfl

/-- An operator that waits for the next one may have it in its right operand. -/
theorem Expr.allowsRight_of_fitsIn {o : Options} {op : Operator} {left e : Expr}
    {frames : List Frame} (h : e.fitsIn o (.binary left op :: frames) = true) :
    o.allowsRight op e = true := by
  cases e with
  | binary inner l r span =>
    obtain ⟨p, n, hp, hn, hw⟩ := Options.waits_iff.mp h
    simp only [Options.allowsRight, hp, hn]
    simpa [and_assoc] using hw
  | _ => rfl

/-- Nothing that an operator makes stands after an operator with one operand. -/
theorem Expr.not_isBinary_of_fitsIn {o : Options} {op : Operator} {start : Position} {e : Expr}
    {frames : List Frame} (h : e.fitsIn o (.unary op start :: frames) = true) :
    e.isBinary = false := by
  cases e with
  | binary inner l r span => cases h
  | _ => rfl

/-- Grouping makes well-formed expressions, and what still waits stays as it was. -/
theorem WellFormedFrames.group {o : Options} {waits : Operator → Bool} {frames inner : List Frame}
    {e v : Expr} (hf : WellFormedFrames o frames) (he : e.isWellFormed o = true)
    (hfit : e.fitsIn o frames = true) (hg : group waits e frames = (v, inner)) :
    v.isWellFormed o = true ∧ WellFormedFrames o inner := by
  induction hf generalizing e with
  | nil =>
    cases hg
    exact ⟨he, .nil⟩
  | unary hop h ih =>
    refine ih ?_ rfl hg
    simp [Expr.isWellFormed, hop, he, Expr.not_isBinary_of_fitsIn hfit]
  | binary hop hl hw hb h ih =>
    rw [ShaderFront.group] at hg
    split at hg
    · cases hg
      exact ⟨he, .binary hop hl hw hb h⟩
    · refine ih (e := .binary _ _ _ _) ?_ hb hg
      simp [Expr.isWellFormed, hop, hl, hw, he, Expr.allowsRight_of_fitsIn hfit]
  | paren h =>
    cases hg
    exact ⟨he, .paren h⟩
  | call hc hm ha h =>
    cases hg
    exact ⟨he, .call hc hm ha h⟩
  | construct ht ha h =>
    cases hg
    exact ⟨he, .construct ht ha h⟩

/-- The left operand that an operator takes is one that it may have, and nothing that still
waits takes it away. -/
theorem WellFormedFrames.group_operator {o : Options} {op : Operator} {frames inner : List Frame}
    {e v : Expr} (hf : WellFormedFrames o frames) (hop : op.level?.isSome = true)
    (he : o.allowsLeft op e = true)
    (hg : ShaderFront.group (fun pending => o.waits pending op) e frames = (v, inner)) :
    o.allowsLeft op v = true ∧ holdsBack o op inner = true := by
  induction hf generalizing e with
  | nil =>
    cases hg
    exact ⟨he, rfl⟩
  | unary _ _ ih => exact ih rfl hg
  | binary hpending _ _ _ _ ih =>
    rw [ShaderFront.group] at hg
    split at hg
    · next hw =>
      cases hg
      exact ⟨he, hw⟩
    · next hw =>
      refine ih ?_ hg
      exact Options.allowsLeft_of_not_waits hpending hop (Bool.eq_false_iff.mpr hw)
  | paren _ | call _ _ _ _ | construct _ _ _ =>
    cases hg
    exact ⟨he, rfl⟩

/-! ## One token -/

/-- The first token of an operand can start a well-formed one. -/
theorem StartsOperand.isWellFormed {o : Options} {host : Host} {frames : List Frame} {t : Token}
    {m : Mode} (h : StartsOperand host frames t m) (hf : WellFormedFrames o frames) :
    m.IsWellFormed o := by
  cases h with
  | unary _ hu => exact ⟨.unary hu hf, rfl, nofun⟩
  | bool _ | number _ | string _ | name _ => exact ⟨hf, rfl, nofun⟩
  | paren _ => exact ⟨.paren hf, rfl, nofun⟩
  | vector _ hk => exact ⟨hf, hk, nofun⟩

/-- A complete operand that no operator makes may stand in any frames. -/
theorem Mode.IsWellFormed.value {o : Options} {host : Host} {frames : List Frame} {v : Expr}
    (hf : WellFormedFrames o frames) (hv : v.isWellFormed o = true) (hb : v.isBinary = false) :
    (Mode.expression host frames (.complete v)).IsWellFormed o :=
  ⟨hf, by simp [Point.isWellFormed, hv, hb], nofun⟩

theorem isWellFormed_addStatement (o : Options) (s : Stmt) (done : List Stmt)
    (scopes : List Scope) : (addStatement s done scopes).mode.IsWellFormed o := by
  rw [mode_addStatement]
  trivial

theorem areWellFormed_reverse {o : Options} {args : List Expr}
    (ha : ∀ e ∈ args, e.isWellFormed o = true) : Expr.areWellFormed o args.reverse = true :=
  Expr.areWellFormed_iff.mpr fun e he => ha e (List.mem_reverse.mp he)

/-- A call of what may be called is well formed, if it has as many arguments as the grammar
allows. -/
theorem isWellFormed_call {o : Options} {callee : Expr} {args : List Expr} {span : Span}
    (hc : callee.isCallee = true) (hm : o.manyArguments = true ∨ args.length ≤ 1)
    (ha : ∀ e ∈ args, e.isWellFormed o = true) :
    (Expr.call callee args.reverse span).isWellFormed o = true := by
  have hmany : (o.manyArguments || decide (args.reverse.length ≤ 1)) = true := by simpa using hm
  simp only [Expr.isWellFormed, hc, hmany, areWellFormed_reverse ha, Bool.and_self]

theorem isWellFormed_construct {o : Options} {type : Keyword} {args : List Expr} {span : Span}
    (ht : type.isVector = true) (ha : ∀ e ∈ args, e.isWellFormed o = true) :
    (Expr.construct (utf8 type.spelling) args.reverse span).isWellFormed o = true := by
  simp only [Expr.isWellFormed, isVectorName_spelling ht, areWellFormed_reverse ha, Bool.and_self]

/-- A token after a well-formed operand keeps the expression well formed. -/
theorem TakesAfter.isWellFormed {o : Options} {state next : State} {host : Host}
    {frames : List Frame} {e : Expr} {t : Token} (h : TakesAfter o state host frames e t next)
    (hf : WellFormedFrames o frames) (he : e.isWellFormed o = true) (hb : e.isBinary = false) :
    next.mode.IsWellFormed o := by
  have hfit : e.fitsIn o frames = true := Expr.fitsIn_of_not_isBinary hb
  cases h with
  | operator _ hop hg =>
    obtain ⟨hv, hinner⟩ := hf.group he hfit hg
    obtain ⟨hleft, hback⟩ := hf.group_operator hop (Options.allowsLeft_of_not_isBinary hb) hg
    exact ⟨.binary hop hleft hv hback hinner, rfl, nofun⟩
  | statementEnd _ _ _ | declarationEnd _ _ _ => exact isWellFormed_addStatement o _ _ _
  | conditionEnd _ _ _ => trivial
  | parenEnd _ hg =>
    obtain ⟨hv, hinner⟩ := hf.group he hfit hg
    cases hinner with
    | paren houter => exact .value houter hv rfl
  | callEnd _ hg =>
    obtain ⟨hv, hinner⟩ := hf.group he hfit hg
    cases hinner with
    | call hc hm ha houter =>
      refine .value houter
        (isWellFormed_call hc (hm.imp_right ?_) (List.forall_mem_cons.mpr ⟨hv, ha⟩)) rfl
      rintro rfl
      exact Nat.le_refl 1
  | constructEnd _ hg =>
    obtain ⟨hv, hinner⟩ := hf.group he hfit hg
    cases hinner with
    | construct ht ha houter =>
      exact .value houter
        (isWellFormed_construct ht (List.forall_mem_cons.mpr ⟨hv, ha⟩)) rfl
  | nextArgument _ ho hg =>
    obtain ⟨hv, hinner⟩ := hf.group he hfit hg
    cases hinner with
    | call hc hm ha houter =>
      exact ⟨.call hc (.inl ho) (List.forall_mem_cons.mpr ⟨hv, ha⟩) houter, rfl, nofun⟩
  | nextComponent _ hg =>
    obtain ⟨hv, hinner⟩ := hf.group he hfit hg
    cases hinner with
    | construct ht ha houter =>
      exact ⟨.construct ht (List.forall_mem_cons.mpr ⟨hv, ha⟩) houter, rfl, nofun⟩

/-- Every token that is taken keeps the expression well formed. -/
theorem Takes.isWellFormed {o : Options} {done : List Stmt} {scopes : List Scope} {t : Token}
    {mode : Mode} {next : State} (h : Takes o done scopes t mode next)
    (hm : mode.IsWellFormed o) : next.mode.IsWellFormed o := by
  cases h with
  | directive _ | closeBlock _ _ | closeFunction _ _ | declared _ | closeStruct _ _ =>
    exact isWellFormed_addStatement o _ _ _
  | start _ hstart => exact hstart.isWellFormed .nil
  | openCondition _ | initial _ => exact ⟨.nil, rfl, nofun⟩
  | operand _ hstart => exact hstart.isWellFormed hm.1
  | emptyCall _ =>
    obtain ⟨hf, -, hargs⟩ := hm
    cases hf with
    | call hc hm ha houter =>
      refine .value houter (isWellFormed_call hc (.inr ?_) ha) rfl
      rw [show _ = [] from hargs rfl]
      exact Nat.zero_le 1
  | emptyConstruct _ =>
    cases hm.1 with
    | construct ht ha houter =>
      exact .value houter (isWellFormed_construct ht ha) rfl
  | colon _ | field _ => exact ⟨hm.1, rfl, nofun⟩
  | openCall _ hp =>
    refine ⟨.call ?_ (.inr rfl) (by simp) hm.1, rfl, fun _ => rfl⟩
    cases hp <;> rfl
  | openConstruct _ => exact ⟨.construct hm.2.1 (by simp) hm.1, rfl, fun _ => rfl⟩
  | after hp hn =>
    obtain ⟨he, hb⟩ := Point.isWellFormed_value hm.2.1 hp
    exact hn.isWellFormed hm.1 he hb
  | _ => trivial

/-- A row of tokens that is taken keeps the expression well formed. -/
theorem State.isWellFormed_of_takeAll? {o : Options} {s next : State} {ts : List Token}
    (h : s.takeAll? o ts = some next) (hs : s.mode.IsWellFormed o) :
    next.mode.IsWellFormed o := by
  induction ts generalizing s with
  | nil =>
    cases h
    exact hs
  | cons t ts ih =>
    obtain ⟨mid, ht, hts⟩ := Option.bind_eq_some_iff.mp h
    exact ih hts ((State.takes_of_take? ht).isWellFormed hs)

end ShaderFront
