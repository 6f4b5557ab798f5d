import ShaderFront.Proofs.Run
import ShaderFront.Proofs.Shape
import ShaderFront.Proofs.Step
import ShaderFront.Proofs.Surface

/-!
# Reading expressions

The written form of a well-formed expression is read as that expression. Operators are
grouped late: after the last token of an expression some of its operators still wait
in frames. What is there then amounts to the expression all the same, because any
token that may follow completes exactly those operators.
-/

namespace ShaderFront

/-! ## Operators that wait -/

/-- The operators of an expression that may still wait after its last token: its own
and those of its right operand. -/
def Expr.spine : Expr → List Operator
  | .binary op _ right _ => op :: right.spine
  | _ => []

/-- Do the frames keep back an expression that the given operator makes? They do if
nothing in them takes its left operand away. -/
def holdsBack (o : Options) (op : Operator) : List Frame → Bool
  | .unary _ _ :: _ => false
  | .binary _ pending :: _ => o.waits pending op
  | _ => true

/-- May the expression be read inside these frames? -/
def Expr.fitsIn (o : Options) (frames : List Frame) : Expr → Bool
  | .binary op _ _ _ => holdsBack o op frames
  | _ => true

theorem Expr.fitsIn_of_not_isBinary {o : Options} {frames : List Frame} {e : Expr}
    (h : e.isBinary = false) : e.fitsIn o frames = true := by
  cases e with
  | binary op left right span => cases h
  | _ => rfl

theorem Expr.spine_of_not_isBinary {e : Expr} (h : e.isBinary = false) : e.spine = [] := by
  cases e with
  | binary op left right span => cases h
  | _ => rfl

/-- Frames that keep an operator back let the operand before it alone. -/
theorem group_of_holdsBack {o : Options} {op : Operator} {frames : List Frame} (e : Expr)
    (h : holdsBack o op frames = true) :
    group (fun pending => o.waits pending op) e frames = (e, frames) := by
  cases frames with
  | nil => rfl
  | cons f frames =>
    cases f with
    | unary op start => cases h
    | binary left pending =>
      rw [group, if_pos (show o.waits pending op = true from h)]
    | paren start => rfl
    | call callee opened args => rfl
    | construct type start args => rfl

/-- An operator that waits binds less tightly, or is an assignment before another one. -/
theorem Options.waits_iff {o : Options} {pending next : Operator} :
    o.waits pending next = true ↔ ∃ p n, pending.level? = some p ∧ next.level? = some n ∧
      (p < n ∨ (o.assignRight = true ∧ pending = .assign ∧ next = .assign)) := by
  unfold waits
  split
  · next p n hp hn => simp [hp, hn, and_assoc]
  · next h =>
    simp only [Bool.false_eq_true, false_iff]
    rintro ⟨p, n, hp, hn, -⟩
    exact h p n hp hn

/-- The right operand of an operator may be read while the operator waits. -/
theorem Expr.fitsIn_of_allowsRight {o : Options} {op : Operator} {left right : Expr}
    {frames : List Frame} (h : o.allowsRight op right = true) :
    right.fitsIn o (.binary left op :: frames) = true := by
  cases right with
  | binary inner l r span =>
    simp only [Options.allowsRight] at h
    split at h
    · next i n hi hn =>
      refine Options.waits_iff.mpr ⟨n, i, hn, hi, ?_⟩
      simpa [and_assoc] using h
    · cases h
  | _ => rfl

/-- The left operand of an operator may be read where the whole may be read. -/
theorem Expr.fitsIn_of_allowsLeft {o : Options} {op : Operator} {left : Expr}
    {frames : List Frame} (h : o.allowsLeft op left = true)
    (hf : holdsBack o op frames = true) : left.fitsIn o frames = true := by
  cases left with
  | binary inner l r span =>
    simp only [Options.allowsLeft] at h
    split at h
    · next i n hi hn =>
      cases frames with
      | nil => rfl
      | cons f frames =>
        cases f with
        | unary op start => cases hf
        | binary before pending =>
          obtain ⟨p, m, hp, hm, hw⟩ := Options.waits_iff.mp hf
          rw [hn] at hm
          cases hm
          refine Options.waits_iff.mpr ⟨p, i, hp, hi, .inl ?_⟩
          rcases hw with hw | ⟨ha, rfl, rfl⟩
          · split at h <;> simp at h <;> omega
          · cases hp
            cases hn
            simpa [ha] using h
        | paren start => rfl
        | call callee opened args => rfl
        | construct type start args => rfl
    · cases h
  | _ => rfl

/-- In a well-formed expression no operator on the right binds less tightly than the
outermost one. -/
theorem Expr.level_le_of_mem_spine {o : Options} {op : Operator} {left : Expr} {span : Span} :
    ∀ {right : Expr}, (Expr.binary op left right span).isWellFormed o = true →
      ∀ q ∈ op :: right.spine, ∃ n m, op.level? = some n ∧ q.level? = some m ∧ n ≤ m
  | right, h, q, hq => by
    simp only [isWellFormed, Bool.and_eq_true] at h
    obtain ⟨⟨⟨⟨hop, -⟩, hr⟩, -⟩, hw⟩ := h
    obtain ⟨n, hn⟩ := Option.isSome_iff_exists.mp hop
    rcases List.mem_cons.mp hq with rfl | hq
    · exact ⟨n, n, hn, hn, Nat.le_refl n⟩
    · match right with
      | .binary inner l r s =>
        obtain ⟨i, m, hi, hm, him⟩ := level_le_of_mem_spine hw q hq
        have hni : n ≤ i := by
          simp only [Options.allowsRight, hi, hn] at hr
          rcases Bool.or_eq_true_iff.mp hr with hr | hr
          · simp at hr
            omega
          · simp only [Bool.and_eq_true, decide_eq_true_eq] at hr
            obtain ⟨⟨-, rfl⟩, rfl⟩ := hr
            cases hn
            cases hi
            exact Nat.le_refl 1
        exact ⟨n, m, hn, hm, by omega⟩
      | .hole | .unary _ _ _ | .bool _ _ | .number _ _ | .string _ _ | .ident _ _ | .paren _ _
      | .member _ _ _ | .call _ _ _ | .construct _ _ _ => cases hq

/-- The operators of a left operand do not wait for the operator after it. -/
theorem Expr.not_waits_of_mem_spine {o : Options} {op : Operator} {left : Expr}
    (h : o.allowsLeft op left = true) (hw : left.isWellFormed o = true) :
    ∀ q ∈ left.spine, o.waits q op = false := by
  intro q hq
  cases left with
  | binary inner l r span =>
    obtain ⟨i, m, hi, hm, him⟩ := level_le_of_mem_spine hw q hq
    rw [Bool.eq_false_iff]
    intro hwait
    obtain ⟨p, n, hp, hn, hlt⟩ := Options.waits_iff.mp hwait
    rw [hm] at hp
    cases hp
    simp only [Options.allowsLeft, hi, hn] at h
    rcases hlt with hlt | ⟨ha, rfl, rfl⟩
    · split at h <;> simp at h <;> omega
    · simp only [ha, decide_true, Bool.and_self, if_true, decide_eq_true_eq] at h
      cases hm
      cases hn
      omega
  | _ => cases hq

/-! ## Reading an expression -/

/-- An operand inside the inner frames amounts to the expression inside the outer ones:
whatever completes the operators of the expression leaves the same of both, apart from
the stretches of text. -/
def Amounts (e : Expr) (outer inner : List Frame) (p : Point) : Prop :=
  ∃ v e', p.value? = some v ∧ e'.bare = e.bare ∧
    ∀ waits, (∀ q ∈ e.spine, waits q = false) → group waits v inner = group waits e' outer

/-- The written form of the expression is read, wherever the expression fits in, as
something that amounts to it. -/
def Expr.Reads (o : Options) (e : Expr) : Prop :=
  ∀ (done : List Stmt) (scopes : List Scope) (host : Host) (frames : List Frame)
    (ts : List Token), Spells e.surface ts → e.fitsIn o frames = true →
    ∃ inner p, Amounts e frames inner p ∧
      (⟨done, scopes, .expression host frames .operand⟩ : State).takeAll? o ts =
        some ⟨done, scopes, .expression host inner p⟩

/-- A value that no operator makes is complete as it is. -/
theorem amounts_of_value {e v : Expr} {p : Point} (frames : List Frame)
    (hp : p.value? = some v) (hb : v.bare = e.bare) : Amounts e frames frames p :=
  ⟨v, v, hp, hb, fun _ _ => rfl⟩

/-- What amounts to an expression inside a bracket is that expression for a token that
ends or continues the bracket. -/
theorem Amounts.groupAll {e : Expr} {outer inner : List Frame} {p : Point}
    (h : Amounts e outer inner p)
    (hb : ∀ e', ShaderFront.groupAll e' outer = (e', outer)) :
    ∃ v e', p.value? = some v ∧ e'.bare = e.bare ∧
      ShaderFront.groupAll v inner = (e', outer) := by
  obtain ⟨v, e', hv, he, hg⟩ := h
  refine ⟨v, e', hv, he, ?_⟩
  rw [ShaderFront.groupAll, hg _ (fun _ _ => rfl)]
  exact hb e'

/-- Taking a first token by a rule, and the others after it. -/
theorem takeAll?_of_takes {o : Options} {done : List Stmt} {scopes : List Scope} {mode : Mode}
    {t : Token} {ts : List Token} {next last : State} (h : Takes o done scopes t mode next)
    (hs : next.takeAll? o ts = some last) :
    (⟨done, scopes, mode⟩ : State).takeAll? o (t :: ts) = some last := by
  rw [State.takeAll?_cons, State.take?_of_takes h]
  exact hs

/-- Taking one token by a rule. -/
theorem takeAll?_singleton {o : Options} {done : List Stmt} {scopes : List Scope} {mode : Mode}
    {t : Token} {next : State} (h : Takes o done scopes t mode next) :
    (⟨done, scopes, mode⟩ : State).takeAll? o [t] = some next :=
  takeAll?_of_takes h rfl

/-- A literal is read as itself. -/
theorem Expr.reads_of_literal {o : Options} {e : Expr} {s : Symbol}
    (hs : e.surface = [.symbol s])
    (hm : ∀ (host : Host) (frames : List Frame) (t : Token), t.symbol = s → ∃ p v,
      p.value? = some v ∧ v.bare = e.bare ∧
        StartsOperand host frames t (.expression host frames p)) : e.Reads o := by
  intro done scopes host frames ts hts _
  rw [hs] at hts
  obtain ⟨t, rfl, ht⟩ := spells_singleton.mp hts
  obtain ⟨p, v, hp, hv, hstart⟩ := hm host frames t (by simpa using ht)
  exact ⟨frames, p, amounts_of_value frames hp hv, takeAll?_singleton (.operand (.inl rfl) hstart)⟩

/-- An operator before an operand is read with it. -/
theorem Expr.reads_unary {o : Options} {op : Operator} {operand : Expr} {span : Span}
    (hop : op.isUnary = true) (hb : operand.isBinary = false) (h : operand.Reads o) :
    (Expr.unary op operand span).Reads o := by
  intro done scopes host frames ts hts _
  obtain ⟨t, us, rfl, ht, hus⟩ := spells_cons.mp hts
  have hs : t.symbol = .operator op := by simpa using ht
  obtain ⟨inner, p, ⟨v, e', hv, he, hg⟩, hread⟩ :=
    h done scopes host (.unary op t.pos :: frames) us hus (fitsIn_of_not_isBinary hb)
  refine ⟨inner, p, ⟨v, .unary op e' (.startingAt t.pos), hv, ?_, ?_⟩, ?_⟩
  · simp only [bare, he]
  · intro waits _
    rw [hg waits (by simp [spine_of_not_isBinary hb]), group]
  · exact takeAll?_of_takes (.operand (.inl rfl) (.unary hs hop)) hread

/-- Two operands are read with the operator between them. -/
theorem Expr.reads_binary {o : Options} {op : Operator} {left right : Expr} {span : Span}
    (hw : (Expr.binary op left right span).isWellFormed o = true) (hl : left.Reads o)
    (hr : right.Reads o) : (Expr.binary op left right span).Reads o := by
  intro done scopes host frames ts hts hfit
  simp only [isWellFormed, Bool.and_eq_true] at hw
  obtain ⟨⟨⟨⟨hop, hal⟩, har⟩, hwl⟩, -⟩ := hw
  have hback : holdsBack o op frames = true := hfit
  obtain ⟨us, vs, rfl, hus, hvs⟩ := spells_append.mp hts
  obtain ⟨t, ws, rfl, ht, hws⟩ := spells_cons.mp hvs
  have hs : t.symbol = .operator op := by simpa using ht
  obtain ⟨inner, p, ⟨v, l, hv, hlb, hg⟩, hread⟩ :=
    hl done scopes host frames us hus (fitsIn_of_allowsLeft hal hback)
  -- The operator completes the left operand and nothing else.
  have hleft : group (fun pending => o.waits pending op) v inner = (l, frames) := by
    rw [hg _ (not_waits_of_mem_spine hal hwl), group_of_holdsBack l hback]
  obtain ⟨inner', p', ⟨v', r, hv', hrb, hg'⟩, hread'⟩ :=
    hr done scopes host (.binary l op :: frames) ws hws (fitsIn_of_allowsRight har)
  refine ⟨inner', p', ⟨v', .binary op l r l.span, hv', ?_, ?_⟩, ?_⟩
  · simp only [bare, hlb, hrb]
  · intro waits hq
    rw [hg' waits (fun q h => hq q (List.mem_cons_of_mem op h)), group,
      if_neg (by simp [hq op (List.mem_cons_self)])]
  · refine State.takeAll?_trans hread ?_
    exact takeAll?_of_takes (.after hv (.operator hs hop hleft)) hread'

/-- Parentheses are read with what they enclose. -/
theorem Expr.reads_paren {o : Options} {inner : Expr} {span : Span} (h : inner.Reads o) :
    (Expr.paren inner span).Reads o := by
  intro done scopes host frames ts hts _
  obtain ⟨t, us, rfl, ht, hus⟩ := spells_cons.mp hts
  obtain ⟨vs, ws, rfl, hvs, hws⟩ := spells_append.mp hus
  obtain ⟨u, rfl, hu⟩ := spells_singleton.mp hws
  have hfit : inner.fitsIn o (.paren t.pos :: frames) = true := by
    cases inner <;> rfl
  obtain ⟨deep, p, hamount, hread⟩ :=
    h done scopes host (.paren t.pos :: frames) vs hvs hfit
  obtain ⟨v, e', hv, he, hg⟩ := hamount.groupAll (fun _ => rfl)
  refine ⟨frames, .complete (.paren e' (.startingAt t.pos)), amounts_of_value frames rfl ?_, ?_⟩
  · simp only [bare, he]
  · refine takeAll?_of_takes (.operand (.inl rfl) (.paren (by simpa using ht))) ?_
    refine State.takeAll?_trans hread (takeAll?_singleton ?_)
    exact .after hv (.parenEnd (by simpa using hu) hg)

/-! ## Reading arguments -/

/-- A token that starts an operand starts a first argument as well. -/
theorem takeAll?_firstArgument {o : Options} {done : List Stmt} {scopes : List Scope}
    {host : Host} {frames : List Frame} {t : Token} {ts : List Token} {last : State}
    (h : (⟨done, scopes, .expression host frames .operand⟩ : State).takeAll? o (t :: ts) =
      some last) :
    (⟨done, scopes, .expression host frames .firstArgument⟩ : State).takeAll? o (t :: ts) =
      some last := by
  obtain ⟨mid, ht, hts⟩ := Option.bind_eq_some_iff.mp h
  refine takeAll?_of_takes ?_ hts
  cases State.takes_of_take? ht with
  | operand hp hm => exact .operand (.inr rfl) hm
  | openCall h hp => cases hp
  | after hp hn => cases hp

/-- A frame that takes a list of expressions, and the value that it makes of them. -/
structure ListFrame (o : Options) (bracket : List Expr → Frame) (value : List Expr → Expr) :
    Prop where
  /-- Nothing inside the list reaches what is outside. -/
  closed : ∀ (e : Expr) (args : List Expr) (frames : List Frame),
    groupAll e (bracket args :: frames) = (e, bracket args :: frames)
  /-- Every operator may stand inside the list. -/
  admits : ∀ (op : Operator) (args : List Expr) (frames : List Frame),
    holdsBack o op (bracket args :: frames) = true
  /-- A parenthesis may close the list before its first expression. -/
  empty : ∀ (done : List Stmt) (scopes : List Scope) (host : Host) (frames : List Frame)
    (t : Token), t.symbol = .punct .closeParen →
    Takes o done scopes t (.expression host (bracket [] :: frames) .firstArgument)
      ⟨done, scopes, .expression host frames (.complete (value []))⟩
  /-- A parenthesis closes the list after an expression. -/
  ends : ∀ (state : State) (host : Host) (frames inner : List Frame) (args : List Expr)
    (e v : Expr) (t : Token), t.symbol = .punct .closeParen →
    groupAll v inner = (e, bracket args :: frames) →
    TakesAfter o state host inner v t
      (state.withMode (.expression host frames (.complete (value (e :: args).reverse))))

/-- A comma continues the list. -/
def Continues (o : Options) (bracket : List Expr → Frame) : Prop :=
  ∀ (state : State) (host : Host) (frames inner : List Frame) (args : List Expr) (e v : Expr)
    (t : Token), t.symbol = .punct .comma → groupAll v inner = (e, bracket args :: frames) →
    TakesAfter o state host inner v t
      (state.withMode (.expression host (bracket (e :: args) :: frames) .operand))

theorem Expr.surfaceMore_cons (e : Expr) (es : List Expr) :
    surfaceMore (e :: es) = Piece.mark .comma :: surfaceArgs (e :: es) := rfl

/-- A list of expressions is read up to its closing parenthesis. -/
theorem reads_args {o : Options} {bracket : List Expr → Frame} {value : List Expr → Expr}
    (hb : ListFrame o bracket value)
    (done : List Stmt) (scopes : List Scope) (host : Host) (frames : List Frame)
    {es : List Expr} (hes : ∀ e ∈ es, e.Reads o) (hc : es.length ≤ 1 ∨ Continues o bracket)
    (hne : es ≠ []) (args : List Expr) (ts : List Token) (hts : Spells (Expr.surfaceArgs es) ts) :
    ∃ inner p v e args', p.value? = some v ∧ groupAll v inner = (e, bracket args' :: frames) ∧
      (e :: args').reverse.map Expr.bare = args.reverse.map Expr.bare ++ es.map Expr.bare ∧
      (⟨done, scopes, .expression host (bracket args :: frames) .operand⟩ : State).takeAll? o ts =
        some ⟨done, scopes, .expression host inner p⟩ := by
  induction es generalizing args ts with
  | nil => exact absurd rfl hne
  | cons e es ih =>
    obtain ⟨us, vs, rfl, hus, hvs⟩ := spells_append.mp hts
    have hfit : e.fitsIn o (bracket args :: frames) = true := by
      cases e with
      | binary op l r span => exact hb.admits op args frames
      | _ => rfl
    obtain ⟨inner, p, hamount, hread⟩ :=
      hes e List.mem_cons_self done scopes host (bracket args :: frames) us hus hfit
    obtain ⟨v, e', hv, he, hg⟩ := hamount.groupAll (fun x => hb.closed x args frames)
    cases es with
    | nil =>
      rw [spells_nil.mp hvs, List.append_nil]
      exact ⟨inner, p, v, e', args, hv, hg, by simp [he], hread⟩
    | cons f fs =>
      rw [Expr.surfaceMore_cons] at hvs
      obtain ⟨t, ws, rfl, ht, hws⟩ := spells_cons.mp hvs
      have hcont : Continues o bracket := by
        rcases hc with hc | hc
        · simp at hc
        · exact hc
      obtain ⟨inner', p', v', e'', args', hv', hg', hargs, hread'⟩ :=
        ih (fun x hx => hes x (List.mem_cons_of_mem e hx)) (.inr hcont) (by simp) (e' :: args)
          ws hws
      refine ⟨inner', p', v', e'', args', hv', hg', ?_, ?_⟩
      · rw [hargs]
        simp [he]
      · refine State.takeAll?_trans hread ?_
        exact takeAll?_of_takes
          (.after hv (hcont _ host frames inner args e' v t (by simpa using ht) hg)) hread'

/-- A list of expressions is read from its opening to its closing parenthesis. -/
theorem reads_list {o : Options} {bracket : List Expr → Frame} {value : List Expr → Expr}
    (hb : ListFrame o bracket value) (done : List Stmt) (scopes : List Scope) (host : Host)
    (frames : List Frame) {es : List Expr} (hes : ∀ e ∈ es, e.Reads o)
    (hc : es.length ≤ 1 ∨ Continues o bracket) (ts : List Token)
    (hts : Spells (Expr.surfaceArgs es ++ [Piece.mark .closeParen]) ts) :
    ∃ es' : List Expr, es'.map Expr.bare = es.map Expr.bare ∧
      (⟨done, scopes, .expression host (bracket [] :: frames) .firstArgument⟩ : State).takeAll? o
        ts = some ⟨done, scopes, .expression host frames (.complete (value es'))⟩ := by
  obtain ⟨us, vs, rfl, hus, hvs⟩ := spells_append.mp hts
  obtain ⟨t, rfl, ht⟩ := spells_singleton.mp hvs
  have hs : t.symbol = .punct .closeParen := by simpa using ht
  by_cases hne : es = []
  · subst hne
    rw [spells_nil.mp hus, List.nil_append]
    exact ⟨[], rfl, takeAll?_singleton (hb.empty done scopes host frames t hs)⟩
  · obtain ⟨inner, p, v, e, args, hv, hg, hargs, hread⟩ :=
      reads_args hb done scopes host frames hes hc hne [] us hus
    refine ⟨(e :: args).reverse, by simpa using hargs, ?_⟩
    have hfirst : (⟨done, scopes, .expression host (bracket [] :: frames) .firstArgument⟩ :
        State).takeAll? o us = some ⟨done, scopes, .expression host inner p⟩ := by
      cases us with
      | nil =>
        cases hread
        cases hv
      | cons u us => exact takeAll?_firstArgument hread
    refine State.takeAll?_trans hfirst (takeAll?_singleton ?_)
    exact .after hv (hb.ends _ host frames inner args e v t hs hg)

theorem listFrame_call (o : Options) (callee : Expr) (opened : Position) :
    ListFrame o (.call callee opened) (fun args => .call callee args callee.span) where
  closed _ _ _ := rfl
  admits _ _ _ := rfl
  empty _ _ _ _ _ hs := .emptyCall hs
  ends _ _ _ _ _ _ _ _ hs hg := .callEnd hs hg

theorem listFrame_construct (o : Options) (type : Keyword) (start : Position) :
    ListFrame o (.construct type start)
      (fun args => .construct (utf8 type.spelling) args (.startingAt start)) where
  closed _ _ _ := rfl
  admits _ _ _ := rfl
  empty _ _ _ _ _ hs := .emptyConstruct hs
  ends _ _ _ _ _ _ _ _ hs hg := .constructEnd hs hg

/-! ## Reading names, calls and vectors -/

/-- What may be called is a complete operand. -/
theorem Callee.value?_eq {p : Point} {c : Expr} (h : Callee p c) : p.value? = some c := by
  cases h <;> rfl

/-- What may be called is read as such. -/
theorem reads_callee {o : Options} {callee : Expr} (hcallee : callee.isCallee = true)
    (done : List Stmt) (scopes : List Scope) (host : Host) (frames : List Frame)
    (ts : List Token) (hts : Spells callee.surface ts) :
    ∃ p c, Callee p c ∧ c.bare = callee.bare ∧
      (⟨done, scopes, .expression host frames .operand⟩ : State).takeAll? o ts =
        some ⟨done, scopes, .expression host frames p⟩ := by
  cases callee with
  | ident name span =>
    obtain ⟨t, rfl, ht⟩ := spells_singleton.mp hts
    refine ⟨.name name t.pos, _, .name name t.pos, rfl, takeAll?_singleton ?_⟩
    exact .operand (.inl rfl) (.name (by simpa using ht))
  | member container field span =>
    obtain ⟨t, us, rfl, ht, hus⟩ := spells_cons.mp hts
    obtain ⟨u, vs, rfl, hu, hvs⟩ := spells_cons.mp hus
    obtain ⟨v, rfl, hv⟩ := spells_singleton.mp hvs
    refine ⟨.member container field t.pos, _, .member container field t.pos, rfl, ?_⟩
    refine takeAll?_of_takes (.operand (.inl rfl) (.name (by simpa using ht))) ?_
    refine takeAll?_of_takes (.colon (by simpa using hu)) ?_
    exact takeAll?_singleton (.field (by simpa using hv))
  | _ => cases hcallee

/-- A name or a field is read as itself. -/
theorem Expr.reads_of_isCallee {o : Options} {callee : Expr} (h : callee.isCallee = true) :
    callee.Reads o := by
  intro done scopes host frames ts hts _
  obtain ⟨p, c, hp, hc, hread⟩ := reads_callee h done scopes host frames ts hts
  exact ⟨frames, p, amounts_of_value frames hp.value?_eq hc, hread⟩

/-- A call is read with its arguments. -/
theorem Expr.reads_call {o : Options} {callee : Expr} {args : List Expr} {span : Span}
    (hcallee : callee.isCallee = true) (hmany : o.manyArguments = true ∨ args.length ≤ 1)
    (hargs : ∀ e ∈ args, e.Reads o) : (Expr.call callee args span).Reads o := by
  intro done scopes host frames ts hts _
  obtain ⟨us, vs, rfl, hus, hvs⟩ := spells_append.mp hts
  obtain ⟨t, ws, rfl, ht, hws⟩ := spells_cons.mp hvs
  obtain ⟨p, c, hp, hc, hread⟩ := reads_callee hcallee done scopes host frames us hus
  have hcont : args.length ≤ 1 ∨ Continues o (.call c t.pos) := by
    rcases hmany with hmany | hlen
    · exact .inr fun _ _ _ _ _ _ _ _ hs hg => .nextArgument hs hmany hg
    · exact .inl hlen
  obtain ⟨args', hbare, hread'⟩ :=
    reads_list (listFrame_call o c t.pos) done scopes host frames hargs hcont ws hws
  refine ⟨frames, _, amounts_of_value frames rfl ?_, State.takeAll?_trans hread
    (takeAll?_of_takes (.openCall (by simpa using ht) hp) hread')⟩
  simp only [bare, bareAll_eq_map, hc, hbare]

/-- A vector is read with its components. -/
theorem Expr.reads_construct {o : Options} {type : Bytes} {args : List Expr} {span : Span}
    (htype : isVectorName type = true) (hargs : ∀ e ∈ args, e.Reads o) :
    (Expr.construct type args span).Reads o := by
  intro done scopes host frames ts hts _
  obtain ⟨k, hk, rfl⟩ := exists_of_isVectorName htype
  rw [surface, Piece.typeWord_spelling] at hts
  obtain ⟨t, us, rfl, ht, hus⟩ := spells_cons.mp hts
  obtain ⟨u, vs, rfl, hu, hvs⟩ := spells_cons.mp hus
  have hcont : Continues o (.construct k t.pos) :=
    fun _ _ _ _ _ _ _ _ hs hg => .nextComponent hs hg
  obtain ⟨args', hbare, hread⟩ :=
    reads_list (listFrame_construct o k t.pos) done scopes host frames hargs (.inr hcont) vs hvs
  refine ⟨frames, _, amounts_of_value frames rfl ?_, takeAll?_of_takes
    (.operand (.inl rfl) (.vector (by simpa using ht) hk))
    (takeAll?_of_takes (.openConstruct (by simpa using hu)) hread)⟩
  simp only [bare, bareAll_eq_map, hbare]

mutual

/-- Every well-formed expression is read as itself. -/
theorem Expr.reads {o : Options} : ∀ e : Expr, e.isWellFormed o = true → e.Reads o
  | .hole, h => by cases h
  | .binary op left right span, h => by
    have hw := h
    simp only [isWellFormed, Bool.and_eq_true] at hw
    exact reads_binary h (reads left hw.1.2) (reads right hw.2)
  | .unary op operand span, h => by
    simp only [isWellFormed, Bool.and_eq_true, Bool.not_eq_true'] at h
    exact reads_unary h.1.1 h.1.2 (reads operand h.2)
  | .bool value span, _ =>
    reads_of_literal rfl fun _ _ t ht => ⟨_, .bool value t.span, rfl, rfl, .bool ht⟩
  | .number value span, _ =>
    reads_of_literal rfl fun _ _ t ht => ⟨_, .number value t.span, rfl, rfl, .number ht⟩
  | .string value span, _ =>
    reads_of_literal rfl fun _ _ t ht => ⟨_, .string value t.span, rfl, rfl, .string ht⟩
  | .ident name span, _ => reads_of_isCallee rfl
  | .member container field span, _ => reads_of_isCallee rfl
  | .paren inner span, h => reads_paren (reads inner h)
  | .call callee args span, h => by
    simp only [isWellFormed, Bool.and_eq_true, Bool.or_eq_true, decide_eq_true_eq] at h
    exact reads_call h.1.1 h.1.2 (readsAll args h.2)
  | .construct type args span, h => by
    simp only [isWellFormed, Bool.and_eq_true] at h
    exact reads_construct h.1 (readsAll args h.2)

/-- All well-formed expressions are read as themselves. -/
theorem Expr.readsAll {o : Options} :
    ∀ es : List Expr, areWellFormed o es = true → ∀ e ∈ es, e.Reads o
  | [], _ => by simp
  | e :: es, h => by
    simp only [areWellFormed, Bool.and_eq_true] at h
    have he := reads e h.1
    have hes := readsAll es h.2
    intro f hf
    rcases List.mem_cons.mp hf with rfl | hf
    · exact he
    · exact hes f hf

end

end ShaderFront
