import ShaderFront.Proofs.Expressions

/-!
# Every well-formed program can be read

The written form of a well-formed program is read as that program, apart from the
stretches of text that its nodes record. This holds for every row of tokens that the
written form allows, wherever the tokens stand, and no matter what follows the end.
-/

namespace ShaderFront

/-! ## Expressions of statements -/

/-- Nothing but a statement encloses the outermost operator of its expression. -/
theorem Expr.fitsIn_nil (o : Options) (e : Expr) : e.fitsIn o [] = true := by
  cases e <;> rfl

/-- The expression of a statement is read up to the token that ends it. -/
theorem Expr.Reads.hosted {o : Options} {e : Expr} (h : e.Reads o) (done : List Stmt)
    (scopes : List Scope) (host : Host) (ts : List Token) (hts : Spells e.surface ts) :
    ∃ inner p v e', p.value? = some v ∧ e'.bare = e.bare ∧ groupAll v inner = (e', []) ∧
      (⟨done, scopes, .expression host [] .operand⟩ : State).takeAll? o ts =
        some ⟨done, scopes, .expression host inner p⟩ := by
  obtain ⟨inner, p, hamount, hread⟩ := h done scopes host [] ts hts (e.fitsIn_nil o)
  obtain ⟨v, e', hv, he, hg⟩ := hamount.groupAll (fun _ => rfl)
  exact ⟨inner, p, v, e', hv, he, hg, hread⟩

/-- A well-formed expression starts with a word only if that is the type of a vector. -/
theorem Expr.head_surface {o : Options} : ∀ {e : Expr}, e.isWellFormed o = true →
    e.startsWithVector = false →
    ∃ p ps, e.surface = p :: ps ∧ ∀ k, p.fits (.keyword k) = false
  | .hole, h, _ => by cases h
  | .binary op left right span, h, hv => by
    simp only [isWellFormed, Bool.and_eq_true] at h
    obtain ⟨p, ps, hs, hp⟩ := head_surface h.1.2 hv
    exact ⟨p, ps ++ Piece.op op :: right.surface, by rw [surface, hs, List.cons_append], hp⟩
  | .unary _ _ _, _, _ | .bool _ _, _, _ | .number _ _, _, _ | .string _ _, _, _
  | .ident _ _, _, _ | .member _ _ _, _, _ | .paren _ _, _, _ => ⟨_, _, rfl, fun _ => rfl⟩
  | .call callee args span, h, _ => by
    simp only [isWellFormed, Bool.and_eq_true] at h
    cases callee with
    | ident name s => exact ⟨_, _, rfl, fun _ => rfl⟩
    | member container field s => exact ⟨_, _, rfl, fun _ => rfl⟩
    | _ => simp [isCallee] at h
  | .construct type args span, _, hv => by cases hv

/-- What starts an expression starts a statement, unless it is a word. -/
theorem takeAll?_statement {o : Options} {done : List Stmt} {scopes : List Scope} {t : Token}
    {ts : List Token} {last : State} (hk : ∀ k, t.symbol ≠ .keyword k)
    (h : (⟨done, scopes, .expression (.statement t.pos) [] .operand⟩ : State).takeAll? o
      (t :: ts) = some last) :
    (⟨done, scopes, .statement⟩ : State).takeAll? o (t :: ts) = some last := by
  obtain ⟨mid, ht, hts⟩ := Option.bind_eq_some_iff.mp h
  refine takeAll?_of_takes ?_ hts
  cases State.takes_of_take? ht with
  | operand hp hm => exact .start hk hm
  | openCall h hp => cases hp
  | after hp hn => cases hp

/-! ## Statements -/

/-- The written form of the statement is read as that statement, whatever encloses it. -/
def Stmt.Reads (o : Options) (s : Stmt) : Prop :=
  ∀ (done : List Stmt) (scopes : List Scope) (ts : List Token), Spells s.surface ts →
    ∃ s', s'.bare = s.bare ∧
      (⟨done, scopes, .statement⟩ : State).takeAll? o ts = some (addStatement s' done scopes)

namespace Stmt

/-- An expression is read as a statement. -/
theorem reads_expr {o : Options} {value : Expr} {span : Span}
    (hw : value.isWellFormed o = true) (hv : value.startsWithVector = false) :
    (Stmt.expr value span).Reads o := by
  intro done scopes ts hts
  obtain ⟨us, ws, rfl, hus, hws⟩ := spells_append.mp hts
  obtain ⟨u, rfl, hu⟩ := spells_singleton.mp hws
  obtain ⟨piece, ps, hsurface, hpiece⟩ := value.head_surface hw hv
  obtain ⟨t, vs, rfl, ht, -⟩ := spells_cons.mp (hsurface ▸ hus)
  have hk : ∀ k, t.symbol ≠ .keyword k := by
    intro k hk
    rw [hk, hpiece k] at ht
    cases ht
  obtain ⟨inner, p, v, e', hp, he, hg, hread⟩ :=
    (value.reads hw).hosted done scopes (.statement t.pos) (t :: vs) hus
  refine ⟨.expr e' (.startingAt t.pos), by simp only [bare, he], ?_⟩
  refine State.takeAll?_trans (takeAll?_statement hk hread) (takeAll?_singleton ?_)
  exact .after hp (.statementEnd (by simpa using hu) rfl hg)

/-- A condition is read with the statement that it guards. -/
theorem reads_cond {o : Options} {condition : Expr} {body : Stmt} {span : Span}
    (hc : condition.Reads o) (hb : body.Reads o) : (Stmt.cond condition body span).Reads o := by
  intro done scopes ts hts
  obtain ⟨t, us, rfl, ht, hus⟩ := spells_cons.mp hts
  obtain ⟨u, vs, rfl, hu, hvs⟩ := spells_cons.mp hus
  obtain ⟨ws, xs, rfl, hws, hxs⟩ := spells_append.mp hvs
  obtain ⟨x, ys, rfl, hx, hys⟩ := spells_cons.mp hxs
  obtain ⟨inner, p, v, e', hp, he, hg, hread⟩ := hc.hosted done scopes (.condition t.pos) ws hws
  obtain ⟨b, hbare, hbody⟩ := hb done (.guard t.pos e' :: scopes) ys hys
  refine ⟨.cond e' b (.startingAt t.pos), by simp only [bare, he, hbare], ?_⟩
  refine takeAll?_of_takes (.cond (by simpa using ht)) ?_
  refine takeAll?_of_takes (.openCondition (by simpa using hu)) ?_
  refine State.takeAll?_trans hread ?_
  exact takeAll?_of_takes (.after hp (.conditionEnd (by simpa using hx) rfl hg)) hbody

/-- A directive is read as itself. -/
theorem reads_directive {o : Options} {name : Bytes} {params : List Expr} {span : Span}
    (hp : params.isEmpty = true) : (Stmt.directive name params span).Reads o := by
  intro done scopes ts hts
  obtain ⟨t, rfl, ht⟩ := spells_singleton.mp hts
  rw [List.isEmpty_iff] at hp
  subst hp
  exact ⟨.directive name [] t.span, rfl, takeAll?_singleton (.directive (by simpa using ht))⟩

end Stmt

/-- The modifiers, the type and the name of a declaration are read as such. -/
theorem Head.reads {o : Options} {head : Head} (h : head.isWellFormed = true)
    (done : List Stmt) (scopes : List Scope) (ts : List Token) (hts : Spells head.surface ts) :
    ∃ head' : Head, head'.bare = head.bare ∧
      (⟨done, scopes, .statement⟩ : State).takeAll? o ts =
        some ⟨done, scopes, .declared head'⟩ := by
  obtain ⟨modifiers, type, name, span⟩ := head
  simp only [isWellFormed, Bool.and_eq_true, Bool.or_eq_true, decide_eq_true_eq] at h
  obtain ⟨hm, htype⟩ := h
  obtain ⟨k, hk, rfl⟩ := exists_of_isTypeName htype
  simp only [surface, Piece.typeWord_spelling] at hts
  rcases hm with rfl | rfl
  · obtain ⟨t, us, rfl, ht, hus⟩ := spells_cons.mp hts
    obtain ⟨u, rfl, hu⟩ := spells_singleton.mp hus
    refine ⟨⟨[], utf8 k.spelling, name, .startingAt t.pos⟩, rfl, ?_⟩
    refine takeAll?_of_takes (.type (by simpa using ht) hk) ?_
    exact takeAll?_singleton (.declare (by simpa using hu))
  · obtain ⟨t, us, rfl, ht, hus⟩ := spells_cons.mp hts
    obtain ⟨u, vs, rfl, hu, hvs⟩ := spells_cons.mp hus
    obtain ⟨v, rfl, hv⟩ := spells_singleton.mp hvs
    refine ⟨⟨[.input], utf8 k.spelling, name, .startingAt t.pos⟩, rfl, ?_⟩
    refine takeAll?_of_takes (.input (by simpa using ht)) ?_
    refine takeAll?_of_takes (.modifiedType (by simpa using hu) hk) ?_
    exact takeAll?_singleton (.declare (by simpa using hv))

/-- A variable is read with its initial value, if it has one. -/
theorem Stmt.reads_decl {o : Options} {head : Head} {init : Option Expr}
    (hh : head.isWellFormed = true) (hi : ∀ e ∈ init, e.Reads o) :
    (Stmt.decl head init).Reads o := by
  intro done scopes ts hts
  obtain ⟨us, ws, rfl, hus, hws⟩ := spells_append.mp hts
  obtain ⟨u, rfl, hu⟩ := spells_singleton.mp hws
  obtain ⟨vs, xs, rfl, hvs, hxs⟩ := spells_append.mp hus
  obtain ⟨head', hbare, hread⟩ := head.reads hh done scopes vs hvs
  cases init with
  | none =>
    rw [spells_nil.mp hxs, List.append_nil]
    refine ⟨.decl head' none, by simp [bare, hbare], ?_⟩
    exact State.takeAll?_trans hread (takeAll?_singleton (.declared (by simpa using hu)))
  | some e =>
    obtain ⟨x, ys, rfl, hx, hys⟩ := spells_cons.mp hxs
    obtain ⟨inner, p, v, e', hp, he, hg, hread'⟩ :=
      (hi e rfl).hosted done scopes (.initial head') ys hys
    refine ⟨.decl head' (some e'), by simp [bare, hbare, he], ?_⟩
    rw [List.append_assoc, List.cons_append]
    refine State.takeAll?_trans hread ?_
    refine takeAll?_of_takes (.initial (by simpa using hx)) ?_
    refine State.takeAll?_trans hread' (takeAll?_singleton ?_)
    exact .after hp (.declarationEnd (by simpa using hu) rfl hg)

/-! ## Structs -/

/-- The struct keeps a member that is read next. -/
theorem OpenStruct.add_eq {o : Options} {s : OpenStruct} (m : Member)
    (h : o.allMembers = true ∨ s.members = []) :
    s.add o m = ⟨s.name, s.start, m :: s.members⟩ := by
  rcases h with h | h <;> simp [OpenStruct.add, h]

/-- The members of a struct are read as such. -/
theorem reads_members {o : Options} (done : List Stmt) (scopes : List Scope) {ms : List Member}
    (s : OpenStruct) (h : o.allMembers = true ∨ s.members.length + ms.length ≤ 1)
    (ts : List Token) (hts : Spells (ms.flatMap Member.surface) ts) :
    ∃ ms' : List Member, ms'.map Member.bare = ms.map Member.bare ∧
      (⟨done, scopes, .members s⟩ : State).takeAll? o ts =
        some ⟨done, scopes, .members ⟨s.name, s.start, ms'.reverse ++ s.members⟩⟩ := by
  induction ms generalizing s ts with
  | nil =>
    rw [spells_nil.mp hts]
    exact ⟨[], rfl, rfl⟩
  | cons m ms ih =>
    rw [List.flatMap_cons] at hts
    obtain ⟨us, rest, rfl, hus, hrest⟩ := spells_append.mp hts
    obtain ⟨t, vs, rfl, ht, hvs⟩ := spells_cons.mp hus
    obtain ⟨u, ws, rfl, hu, hws⟩ := spells_cons.mp hvs
    obtain ⟨v, xs, rfl, hv, hxs⟩ := spells_cons.mp hws
    obtain ⟨w, rfl, hw⟩ := spells_singleton.mp hxs
    have hkept : o.allMembers = true ∨ s.members = [] := by
      refine h.imp_right fun hlen => ?_
      rw [List.length_cons] at hlen
      exact List.length_eq_zero_iff.mp (by omega)
    have hnext : o.allMembers = true ∨
        (⟨m.name, m.type, .startingAt t.pos⟩ :: s.members).length + ms.length ≤ 1 := by
      refine h.imp_right fun hlen => ?_
      simp only [List.length_cons] at hlen ⊢
      omega
    obtain ⟨ms', hbare, hread⟩ :=
      ih ⟨s.name, s.start, ⟨m.name, m.type, .startingAt t.pos⟩ :: s.members⟩ hnext rest hrest
    refine ⟨⟨m.name, m.type, .startingAt t.pos⟩ :: ms', by simp [hbare, Member.bare], ?_⟩
    refine takeAll?_of_takes (.memberName (by simpa using ht)) ?_
    refine takeAll?_of_takes (.memberColon (by simpa using hu)) ?_
    refine takeAll?_of_takes (.memberType (by simpa using hv)) ?_
    refine takeAll?_of_takes (.memberEnd (by simpa using hw)) ?_
    rw [OpenStruct.add_eq _ hkept, List.reverse_cons, List.append_assoc]
    exact hread

/-- A struct is read with its members. -/
theorem Stmt.reads_struct {o : Options} {attr name : Bytes} {members : List Member} {span : Span}
    (ha : attr.isEmpty = true) (hm : o.allMembers = true ∨ members.length = 1) :
    (Stmt.struct attr name members span).Reads o := by
  intro done scopes ts hts
  rw [List.isEmpty_iff] at ha
  subst ha
  obtain ⟨t, us, rfl, ht, hus⟩ := spells_cons.mp hts
  obtain ⟨u, vs, rfl, hu, hvs⟩ := spells_cons.mp hus
  obtain ⟨v, ws, rfl, hv, hws⟩ := spells_cons.mp hvs
  obtain ⟨xs, ys, rfl, hxs, hys⟩ := spells_append.mp hws
  obtain ⟨y, rfl, hy⟩ := spells_singleton.mp hys
  have hlen : o.allMembers = true ∨ ([] : List Member).length + members.length ≤ 1 :=
    hm.imp_right fun h => by simp [h]
  obtain ⟨ms, hbare, hread⟩ := reads_members done scopes ⟨name, t.pos, []⟩ hlen xs hxs
  have hclose : ms.reverse ≠ [] ∨ o.allMembers = true := by
    rcases hm with hm | hm
    · exact .inr hm
    · left
      intro he
      have hl := congrArg List.length hbare
      simp [List.reverse_eq_nil_iff.mp he, hm] at hl
  refine ⟨.struct [] name ms (.startingAt t.pos), by simp [bare, hbare], ?_⟩
  refine takeAll?_of_takes (.struct (by simpa using ht)) ?_
  refine takeAll?_of_takes (.structName (by simpa using hu)) ?_
  refine takeAll?_of_takes (.openStruct (by simpa using hv)) ?_
  have hlast : Takes o done scopes y (.members ⟨name, t.pos, ms.reverse⟩)
      (addStatement (.struct [] name ms.reverse.reverse (.startingAt t.pos)) done scopes) :=
    .closeStruct (by simpa using hy) hclose
  rw [List.reverse_reverse] at hlast
  rw [List.append_nil] at hread
  exact State.takeAll?_trans hread (takeAll?_singleton hlast)

/-! ## Lists of statements -/

/-- A place that collects statements, with those in it so far, newest first. -/
structure Collects (place : List Stmt → State) : Prop where
  /-- Statements may start there. -/
  mode_eq : ∀ inner, (place inner).mode = .statement
  /-- A complete statement is added to the others. -/
  add_eq : ∀ s inner, addStatement s (place inner).finished (place inner).scopes =
    place (s :: inner)

/-- Statements in a row are read as such. -/
theorem reads_statements {o : Options} {place : List Stmt → State} (hp : Collects place)
    {ss : List Stmt} (hss : ∀ s ∈ ss, s.Reads o) (inner : List Stmt) (ts : List Token)
    (hts : Spells (surface ss) ts) :
    ∃ ss' : List Stmt, bare ss' = bare ss ∧
      (place inner).takeAll? o ts = some (place (ss'.reverse ++ inner)) := by
  induction ss generalizing inner ts with
  | nil =>
    rw [spells_nil.mp hts]
    exact ⟨[], rfl, rfl⟩
  | cons s ss ih =>
    obtain ⟨us, vs, rfl, hus, hvs⟩ := spells_append.mp hts
    obtain ⟨s', hs', hread⟩ :=
      hss s List.mem_cons_self (place inner).finished (place inner).scopes us hus
    rw [← hp.mode_eq inner, hp.add_eq] at hread
    obtain ⟨ss', hbare, hread'⟩ :=
      ih (fun r hr => hss r (List.mem_cons_of_mem s hr)) (s' :: inner) vs hvs
    refine ⟨s' :: ss', by simp only [bare, hs', hbare], ?_⟩
    rw [List.reverse_cons, List.append_assoc]
    exact State.takeAll?_trans hread hread'

namespace Stmt

/-- A block is read with its statements. -/
theorem reads_block {o : Options} {body : List Stmt} {span : Span}
    (hb : ∀ s ∈ body, s.Reads o) : (Stmt.block body span).Reads o := by
  intro done scopes ts hts
  obtain ⟨t, us, rfl, ht, hus⟩ := spells_cons.mp hts
  obtain ⟨vs, ws, rfl, hvs, hws⟩ := spells_append.mp hus
  obtain ⟨w, rfl, hw⟩ := spells_singleton.mp hws
  have hplace : Collects fun inner => ⟨done, .block t.pos inner :: scopes, .statement⟩ :=
    ⟨fun _ => rfl, fun _ _ => rfl⟩
  obtain ⟨body', hbare, hread⟩ := reads_statements hplace hb [] vs hvs
  refine ⟨.block body' (.startingAt t.pos), by simp only [Stmt.bare, hbare], ?_⟩
  have hlast : Takes o done (.block t.pos body'.reverse :: scopes) w .statement
      (addStatement (.block body'.reverse.reverse (.startingAt t.pos)) done scopes) :=
    .closeBlock (by simpa using hw) rfl
  rw [List.reverse_reverse] at hlast
  rw [List.append_nil] at hread
  refine takeAll?_of_takes (.openBlock (by simpa using ht)) ?_
  exact State.takeAll?_trans hread (takeAll?_singleton hlast)

/-- A function is read with its statements. -/
theorem reads_function {o : Options} {head : Head} {params : List Bytes} {body : List Stmt}
    {span : Span} (hh : head.isWellFormed = true) (hp : params.isEmpty = true)
    (hb : ∀ s ∈ body, s.Reads o) : (Stmt.function head params body span).Reads o := by
  intro done scopes ts hts
  rw [List.isEmpty_iff] at hp
  subst hp
  obtain ⟨hs, xs, rfl, hhs, hxs⟩ := spells_append.mp hts
  obtain ⟨t, us, rfl, ht, hus⟩ := spells_cons.mp hxs
  obtain ⟨u, vs, rfl, hu, hvs⟩ := spells_cons.mp hus
  obtain ⟨v, ws, rfl, hv, hws⟩ := spells_cons.mp hvs
  obtain ⟨ys, zs, rfl, hys, hzs⟩ := spells_append.mp hws
  obtain ⟨z, rfl, hz⟩ := spells_singleton.mp hzs
  obtain ⟨head', hhead, hread⟩ := head.reads hh done scopes hs hhs
  have hplace : Collects fun inner =>
      ⟨done, .function head' v.pos inner :: scopes, .statement⟩ :=
    ⟨fun _ => rfl, fun _ _ => rfl⟩
  obtain ⟨body', hbare, hread'⟩ := reads_statements hplace hb [] ys hys
  refine ⟨.function head' [] body' (.startingAt v.pos), ?_, ?_⟩
  · simp only [Stmt.bare, hhead, hbare]
  · have hlast : Takes o done (.function head' v.pos body'.reverse :: scopes) z .statement
        (addStatement (.function head' [] body'.reverse.reverse (.startingAt v.pos)) done
          scopes) :=
      .closeFunction (by simpa using hz) rfl
    rw [List.reverse_reverse] at hlast
    rw [List.append_nil] at hread'
    refine State.takeAll?_trans hread ?_
    refine takeAll?_of_takes (.openParameters (by simpa using ht)) ?_
    refine takeAll?_of_takes (.closeParameters (by simpa using hu)) ?_
    refine takeAll?_of_takes (.openFunction (by simpa using hv)) ?_
    exact State.takeAll?_trans hread' (takeAll?_singleton hlast)

end Stmt

mutual

/-- Every well-formed statement is read as itself. -/
theorem Stmt.reads {o : Options} : ∀ s : Stmt, s.isWellFormed o = true → s.Reads o
  | .hole, h => by cases h
  | .expr value span, h => by
    simp only [isWellFormed, Bool.and_eq_true, Bool.not_eq_true'] at h
    exact reads_expr h.1 h.2
  | .cond condition body span, h => by
    simp only [isWellFormed, Bool.and_eq_true] at h
    exact reads_cond (condition.reads h.1) (reads body h.2)
  | .block body span, h => reads_block (readsAll body h)
  | .decl head init, h => by
    simp only [isWellFormed, Bool.and_eq_true] at h
    refine reads_decl h.1 fun e he => e.reads ?_
    cases he
    exact h.2
  | .directive name params span, h => reads_directive h
  | .function head params body span, h => by
    simp only [isWellFormed, Bool.and_eq_true] at h
    exact reads_function h.1.1 h.1.2 (readsAll body h.2)
  | .struct attr name members span, h => by
    simp only [isWellFormed, Bool.and_eq_true, Bool.or_eq_true, decide_eq_true_eq] at h
    exact reads_struct h.1 h.2

/-- All well-formed statements are read as themselves. -/
theorem Stmt.readsAll {o : Options} :
    ∀ ss : List Stmt, areWellFormed o ss = true → ∀ s ∈ ss, s.Reads o
  | [], _ => by simp
  | s :: ss, h => by
    simp only [areWellFormed, Bool.and_eq_true] at h
    have hs := reads s h.1
    have hss := readsAll ss h.2
    intro r hr
    rcases List.mem_cons.mp hr with rfl | hr
    · exact hs
    · exact hss r hr

end

/-! ## Programs -/

/-- Every written form is spelled by some row of tokens. -/
theorem exists_spells (pieces : List Piece) : ∃ ts, Spells pieces ts := by
  induction pieces with
  | nil => exact ⟨[], spells_nil.mpr rfl⟩
  | cons p ps ih =>
    obtain ⟨ts, hts⟩ := ih
    cases p with
    | symbol s =>
      exact ⟨s.token :: ts, spells_cons.mpr ⟨s.token, ts, rfl, by simp [Symbol.token], hts⟩⟩
    | memberType name =>
      refine ⟨Symbol.token (.ident name) :: ts, spells_cons.mpr ⟨_, ts, rfl, ?_, hts⟩⟩
      simp [Symbol.token, memberTypeName?, Symbol.name?]

/-- Every well-formed program has a written form that can be spelled, and every row of
tokens that spells it is read as that program, up to the stretches of text: all of its
tokens are taken, whatever follows the end. -/
theorem parse_surface (o : Options) (program : List Stmt)
    (hw : Stmt.areWellFormed o program = true) :
    (∃ ts, Spells (surface program) ts) ∧
      ∀ ts rest : List Token, Spells (surface program) ts → headSymbol rest = .eof →
        ∃ result, bare result = bare program ∧
          (Parser.fresh o (ts ++ rest)).parse =
            (.ok result, { Parser.fresh o (ts ++ rest) with cursor := ts.length }) := by
  refine ⟨exists_spells _, fun ts rest hts hr => ?_⟩
  have hplace : Collects fun inner => ⟨inner, [], .statement⟩ :=
    ⟨fun _ => rfl, fun _ _ => rfl⟩
  obtain ⟨result, hbare, hread⟩ :=
    reads_statements hplace (Stmt.readsAll program hw) [] ts hts
  have hstart : State.start.takeAll? o ts = some ⟨result.reverse ++ [], [], .statement⟩ := hread
  have hend : beforeEnd (ts ++ rest) = ts :=
    beforeEnd_append (State.symbol_ne_eof_of_takeAll? hstart) hr
  have hparse := parse_of_takeAll? (hend.symm ▸ hstart) rfl
  refine ⟨result, hbare, ?_⟩
  rw [hparse, hend]
  simp

/-- `a = b = f(-x, y:z) * "";`, where assignments group to the right. -/
def chainedAssignment : Stmt :=
  .expr (.binary .assign (.ident [97] .nowhere) (.binary .assign (.ident [98] .nowhere)
    (.binary .times (.call (.ident [102] .nowhere) [.unary .minus (.ident [120] .nowhere) .nowhere,
      .member [121] [122] .nowhere] .nowhere) (.string [] .nowhere) .nowhere) .nowhere)
        .nowhere) .nowhere

/-- The tokens of that statement. -/
def chainedTokens : List Token :=
  [.ident [97], .operator .assign, .ident [98], .operator .assign, .ident [102],
    .punct .openParen, .operator .minus, .ident [120], .punct .comma, .ident [121],
    .punct .colon, .ident [122], .punct .closeParen, .operator .times, .string [],
    .punct .semicolon].map Symbol.token

theorem parse_surface_chainedAssignment :
    Stmt.areWellFormed ⟨false, true, true⟩ [chainedAssignment] = true ∧
      Spells (surface [chainedAssignment]) chainedTokens ∧
      ∃ result, bare result = bare [chainedAssignment] ∧
        (Parser.fresh ⟨false, true, true⟩ (chainedTokens ++ [Token.eof .none])).parse =
          (.ok result, { Parser.fresh ⟨false, true, true⟩ (chainedTokens ++ [Token.eof .none])
            with cursor := 16 }) := by
  have hw : Stmt.areWellFormed ⟨false, true, true⟩ [chainedAssignment] = true := by decide
  have hs : Spells (surface [chainedAssignment]) chainedTokens := by decide
  exact ⟨hw, hs, (parse_surface ⟨false, true, true⟩ [chainedAssignment] hw).2 _ _ hs rfl⟩

end ShaderFront
