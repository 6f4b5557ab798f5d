import Mathlib.Control.Monad.Basic
import ShaderFront.Proofs.LockstepStatements
import ShaderFront.Proofs.Relocation
import ShaderFront.Proofs.Step
import ShaderFront.Token.Record

/-!
# What the grammar sees of a token

Two tokens of the same sort, with the same text or value where the sort has one, are the
same to the grammar. Rows of such tokens are read alike, wherever the tokens stand and
however they were written. The only trace of the places is the message about a call with
several arguments, which tells where the parenthesis of the call stands.
-/

namespace ShaderFront

/-! ## Numbering -/

/-- The row in which every token stands at a position that tells its index, counted from
the given one, and has nothing else to it than its symbol. -/
def numbered (k : Nat) : List Token → List Token
  | [] => []
  | t :: ts => ⟨t.symbol, [], ⟨k, 1⟩⟩ :: numbered (k + 1) ts

/-- The relocation that takes every index of a row to where the token stands. -/
def Relocation.onto (ts : List Token) : Relocation where
  move p := if p.column = 1 then ((ts[p.line.toNat]?).map Token.pos).getD .none else .none
  move_none := rfl

theorem Relocation.onto_index {ts : List Token} {k : Nat} {t : Token} (h : ts[k]? = some t) :
    (Relocation.onto ts).move ⟨k, 1⟩ = t.pos := by
  simp [Relocation.onto, h]

/-- Moving the numbered row gives the row back. -/
theorem moves_numbered (before ts : List Token) :
    List.Forall₂ (Moves (.onto (before ++ ts))) (numbered before.length ts) ts := by
  induction ts generalizing before with
  | nil => exact .nil
  | cons t ts ih =>
    have ht : (before ++ t :: ts)[before.length]? = some t := by simp
    refine .cons ⟨rfl, (Relocation.onto_index ht).symm⟩ ?_
    simpa using ih (before ++ [t])

/-- Rows with the same symbols are numbered alike. -/
theorem numbered_congr {ts ts' : List Token} (h : ts.map Token.symbol = ts'.map Token.symbol)
    (k : Nat) : numbered k ts = numbered k ts' := by
  induction ts generalizing ts' k with
  | nil =>
    cases ts' with
    | nil => rfl
    | cons t' ts' => simp at h
  | cons t ts ih =>
    cases ts' with
    | nil => simp at h
    | cons t' ts' =>
      simp only [List.map_cons, List.cons.injEq] at h
      rw [numbered, numbered, h.1, ih h.2]

/-- Every token of the numbered row tells the index of one with its symbol. -/
theorem exists_of_mem_numbered {ts : List Token} {k : Nat} {t : Token} (h : t ∈ numbered k ts) :
    ∃ i u, ts[i]? = some u ∧ u.symbol = t.symbol ∧ t.pos = ⟨(k + i : Nat), 1⟩ := by
  induction ts generalizing k with
  | nil => cases h
  | cons u ts ih =>
    rcases List.mem_cons.mp h with rfl | h
    · exact ⟨0, u, rfl, rfl, rfl⟩
    · obtain ⟨i, v, hv, hs, hp⟩ := ih h
      have hi : k + 1 + i = k + (i + 1) := by omega
      exact ⟨i + 1, v, hv, hs, by rw [hp, hi]⟩

/-! ## Where calls are open -/

/-- Where the parenthesis of the call stands, if it is a call that waits. -/
def Frame.opened? : Frame → Option Position
  | .call _ opened _ => some opened
  | _ => none

/-- Where the parentheses of the open calls stand, innermost first. -/
def Mode.openCalls : Mode → List Position
  | .expression _ frames _ => frames.filterMap Frame.opened?
  | _ => []

theorem group_suffix (waits : Operator → Bool) (e : Expr) (frames : List Frame) :
    (group waits e frames).2 <:+ frames := by
  induction frames generalizing e with
  | nil => exact List.suffix_refl _
  | cons frame frames ih =>
    cases frame with
    | unary op start => exact (ih _).trans (List.suffix_cons _ _)
    | binary left op =>
      simp only [group]
      split
      · exact List.suffix_refl _
      · exact (ih _).trans (List.suffix_cons _ _)
    | _ => exact List.suffix_refl _

theorem StartsOperand.openCalls_eq {host : Host} {frames : List Frame} {t : Token} {m : Mode}
    (h : StartsOperand host frames t m) : m.openCalls = frames.filterMap Frame.opened? := by
  cases h <;> rfl

/-- What follows an operand opens no call. -/
theorem TakesAfter.openCalls_subset {o : Options} {state next : State} {host : Host}
    {frames : List Frame} {e : Expr} {t : Token} (h : TakesAfter o state host frames e t next) :
    next.mode.openCalls ⊆ frames.filterMap Frame.opened? := by
  have hgroup : ∀ {waits : Operator → Bool} {v : Expr} {outer : List Frame},
      group waits e frames = (v, outer) →
        outer.filterMap Frame.opened? ⊆ frames.filterMap Frame.opened? := by
    intro waits v outer hg
    have hs := group_suffix waits e frames
    rw [hg] at hs
    exact (hs.sublist.filterMap _).subset
  cases h with
  | statementEnd h hh hg | declarationEnd h hh hg =>
    simp [State.complete, mode_addStatement, Mode.openCalls]
  | conditionEnd h hh hg => simp [State.enter, Mode.openCalls]
  | callEnd h hg =>
    have houter := hgroup hg
    exact fun p hp => houter (List.mem_cons_of_mem _ hp)
  | operator h hl hg | parenEnd h hg | constructEnd h hg | nextArgument h ho hg
  | nextComponent h hg =>
    have houter := hgroup hg
    exact houter

/-- A token opens at most one call, and then it is the parenthesis. -/
theorem Takes.mem_openCalls {o : Options} {done : List Stmt} {scopes : List Scope} {t : Token}
    {mode : Mode} {next : State} (h : Takes o done scopes t mode next) :
    ∀ p ∈ next.mode.openCalls, p ∈ mode.openCalls ∨ t.symbol = .punct .openParen ∧ t.pos = p := by
  intro p hp
  cases h with
  | operand hpoint hm =>
    rw [hm.openCalls_eq] at hp
    exact .inl hp
  | openCall h hcallee =>
    rcases List.mem_cons.mp hp with rfl | hp
    · exact .inr ⟨h, rfl⟩
    · exact .inl hp
  | after hvalue hn => exact .inl (hn.openCalls_subset hp)
  | emptyCall h => exact .inl (List.mem_cons_of_mem _ hp)
  | emptyConstruct h => exact .inl hp
  | colon h => exact .inl hp
  | field h => exact .inl hp
  | openConstruct h => exact .inl hp
  | start hn hm =>
    rw [hm.openCalls_eq] at hp
    cases hp
  | directive h => simp [mode_addStatement, Mode.openCalls] at hp
  | closeBlock h hs => simp [mode_addStatement, Mode.openCalls] at hp
  | closeFunction h hs => simp [mode_addStatement, Mode.openCalls] at hp
  | declared h => simp [mode_addStatement, Mode.openCalls] at hp
  | closeStruct h hs => simp [mode_addStatement, Mode.openCalls] at hp
  | _ => cases hp

/-- A call that is open after a row was open before it or was opened in it. -/
theorem State.mem_openCalls_of_takeAll? {o : Options} {s next : State} {ts : List Token}
    (h : s.takeAll? o ts = some next) :
    ∀ p ∈ next.mode.openCalls,
      p ∈ s.mode.openCalls ∨ ∃ t ∈ ts, t.symbol = .punct .openParen ∧ t.pos = p := by
  intro p hp
  induction ts generalizing s with
  | nil =>
    cases h
    exact .inl hp
  | cons t ts ih =>
    obtain ⟨mid, ht, hts⟩ := Option.bind_eq_some_iff.mp h
    rcases ih hts with hmid | ⟨u, hu, hopen⟩
    · rcases (State.takes_of_take? ht).mem_openCalls p hmid with hs | hopen
      · exact .inl hs
      · exact .inr ⟨t, List.mem_cons_self, hopen⟩
    · exact .inr ⟨u, List.mem_cons_of_mem t hu, hopen⟩

/-- The call with several arguments is an open one. -/
theorem mem_of_refusalAfter {host : Host} {got : Symbol} {frames : List Frame} {p : Position}
    (h : refusalAfter host got frames = .severalArguments p) :
    p ∈ frames.filterMap Frame.opened? := by
  induction frames with
  | nil => cases host <;> cases h
  | cons frame frames ih =>
    cases frame with
    | unary op start => exact ih h
    | binary left op => exact ih h
    | paren start => cases h
    | call callee opened args =>
      simp only [refusalAfter] at h
      split at h
      · cases h
        exact List.mem_cons_self
      · cases h
    | construct type start args => cases h

theorem State.mem_openCalls_of_refusal {s : State} {got : Symbol} {p : Position}
    (h : s.refusal got = .severalArguments p) : p ∈ s.mode.openCalls := by
  obtain ⟨done, scopes, mode⟩ := s
  cases mode with
  | expression host frames point =>
    cases point with
    | name n start => exact mem_of_refusalAfter h
    | member container f start => exact mem_of_refusalAfter h
    | complete e => exact mem_of_refusalAfter h
    | _ => cases h
  | statement =>
    simp only [State.refusal] at h
    unfold refusalAtStatement at h
    split at h
    · split at h <;> cases h
    · split at h <;> cases h
    · cases h
  | members s =>
    simp only [State.refusal] at h
    unfold refusalAtMember at h
    split at h <;> cases h
  | _ => cases h

/-- A run that ends at a call with several arguments has met the parenthesis of the call. -/
theorem exists_of_severalArguments {o : Options} {last p q : Position} {ts : List Token}
    (h : (State.start.run o last ts).result = .error ⟨.severalArguments p, q⟩) :
    ∃ t ∈ ts, t.symbol = .punct .openParen ∧ t.pos = p := by
  obtain ⟨taken, rest, next, rfl, htaken, hstop⟩ := State.start.exists_stop o ts
  rw [State.run_eq htaken hstop] at h
  have hcause : next.refusal (headSymbol rest) = .severalArguments p := by
    simp only [State.verdict] at h
    split at h
    · cases h
    · exact congrArg Fault.cause (Except.error.inj h)
  rcases State.mem_openCalls_of_takeAll? htaken p (State.mem_openCalls_of_refusal hcause) with
    hstart | ⟨t, ht, hopen⟩
  · cases hstart
  · exact ⟨t, List.mem_append_left _ ht, hopen⟩

/-! ## Rows that agree -/

/-- Two records that are the same to the grammar: their sorts agree, and so does the field
that belongs to the sort. -/
structure TokenRecord.Agrees (x y : TokenRecord) : Prop where
  /-- They are of the same sort. -/
  kind : x.kind = y.kind
  /-- Operators agree. -/
  op : x.kind = .operator → x.op = y.op
  /-- Truth values agree. -/
  bool : x.kind = .bool → x.bool = y.bool
  /-- Numbers agree. -/
  number : x.kind = .number → x.number = y.number
  /-- The texts of strings, names and attributes agree. -/
  text : x.kind = .string ∨ x.kind = .ident ∨ x.kind = .attr → x.text = y.text

theorem TokenRecord.kind_symbol (x : TokenRecord) : x.symbol.kind = x.kind := by
  unfold TokenRecord.symbol
  split <;> simp_all [Symbol.kind]

theorem Token.symbol_toRecord (t : Token) : t.toRecord.symbol = t.symbol :=
  congrArg Token.symbol t.ofRecord_toRecord

/-- They are those that stand for the same symbol. -/
theorem TokenRecord.agrees_iff {x y : TokenRecord} : x.Agrees y ↔ x.symbol = y.symbol := by
  constructor
  · rintro ⟨hkind, hop, hbool, hnumber, htext⟩
    unfold TokenRecord.symbol
    rw [← hkind]
    cases hk : x.kind <;> simp_all
  · intro h
    have hkind : x.kind = y.kind := by rw [← x.kind_symbol, h, y.kind_symbol]
    simp only [TokenRecord.symbol, ← hkind] at h
    refine ⟨hkind, fun hk => ?_, fun hk => ?_, fun hk => ?_, ?_⟩
    · simpa [hk] using h
    · simpa [hk] using h
    · simpa [hk] using h
    · rintro (hk | hk | hk) <;> simpa [hk] using h

/-- Two rows are related index by index if what is related has the same image. -/
theorem forall₂_iff_map_eq {α β : Type} {R : α → α → Prop} {f : α → β}
    (h : ∀ x y, R x y ↔ f x = f y) {xs ys : List α} :
    List.Forall₂ R xs ys ↔ xs.map f = ys.map f := by
  have hR : R = fun x y => f x = f y := by
    funext x y
    exact propext (h x y)
  rw [← List.forall₂_eq_eq_eq, List.forall₂_map_left_iff, List.forall₂_map_right_iff, hR]

/-- Rows of records agree if they stand for the same symbols. -/
theorem forall₂_agrees_iff {xs ys : List TokenRecord} :
    List.Forall₂ TokenRecord.Agrees xs ys ↔
      xs.map TokenRecord.symbol = ys.map TokenRecord.symbol := by
  apply forall₂_iff_map_eq
  exact fun _ _ => TokenRecord.agrees_iff

instance (xs ys : List TokenRecord) : Decidable (List.Forall₂ TokenRecord.Agrees xs ys) :=
  decidable_of_iff _ forall₂_agrees_iff.symm

/-- What becomes of two rows that agree. -/
inductive ReadAlike (tokens tokens' : List Token) :
    Except Diagnostic (List Stmt) → Except Diagnostic (List Stmt) → Prop
  /-- Both are read, as programs of the same shape. -/
  | read {program program' : List Stmt} (h : bare program = bare program') :
    ReadAlike tokens tokens' (.ok program) (.ok program')
  /-- Both are refused, for the same reason and in the same words. -/
  | refused {d d' : Diagnostic} (hkind : d.kind ≠ .unsupportedArguments)
    (hkinds : d.kind = d'.kind) (hmessages : d.message = d'.message) :
    ReadAlike tokens tokens' (.error d) (.error d')
  /-- Both have a call with several arguments. Either message tells where the parenthesis
  of that call stands in the row, which is the same one in both. -/
  | severalArguments {d d' : Diagnostic} {k : Nat} {t t' : Token}
    (hkind : d.kind = .unsupportedArguments) (hkind' : d'.kind = .unsupportedArguments)
    (ht : tokens[k]? = some t) (ht' : tokens'[k]? = some t')
    (hs : t.symbol = .punct .openParen) (hs' : t'.symbol = .punct .openParen)
    (hmessage : d.message = (Cause.severalArguments t.pos).message)
    (hmessage' : d'.message = (Cause.severalArguments t'.pos).message) :
    ReadAlike tokens tokens' (.error d) (.error d')

/-- What a parser does with a row is what it does with the numbered row, moved back. -/
theorem parse_eq_moved (o : Options) (cursor : Nat) (ts : List Token) :
    (Parser.mk ts o cursor).parse =
      let x := State.start.run o (lastPosition (numbered 0 ts)) ((numbered 0 ts).drop cursor)
      ((x.moved (.onto ts)).result.mapError Fault.diagnostic,
        ⟨ts, o, cursor + x.taken⟩) := by
  have hmoves : List.Forall₂ (Moves (.onto ts)) (numbered 0 ts) ts := moves_numbered [] ts
  have hrun := State.run_moved (List.forall₂_drop cursor hmoves) o
    (lastPosition (numbered 0 ts)) .start
  rw [← lastPosition_moves hmoves] at hrun
  change State.start.run o (lastPosition ts) (ts.drop cursor) = _ at hrun
  simp only [Parser.parse, hrun]
  rfl

/-- Two rows with the same symbols are read alike, and equally far. -/
theorem parse_congr (o : Options) (cursor : Nat) {ts ts' : List Token}
    (h : ts.map Token.symbol = ts'.map Token.symbol) :
    (Parser.mk ts o cursor).parse.2.cursor = (Parser.mk ts' o cursor).parse.2.cursor ∧
      ReadAlike ts ts' (Parser.mk ts o cursor).parse.1 (Parser.mk ts' o cursor).parse.1 := by
  rw [parse_eq_moved, parse_eq_moved, ← numbered_congr h]
  refine ⟨rfl, ?_⟩
  generalize hx : State.start.run o _ _ = x
  obtain ⟨taken, result⟩ := x
  cases result with
  | ok program => exact .read ((bare_moved _ program).trans (bare_moved _ program).symm)
  | error fault =>
    obtain ⟨cause, pos⟩ := fault
    by_cases hkind : cause.kind = .unsupportedArguments
    · cases cause with
      | severalArguments p =>
        obtain ⟨t, ht, hs, rfl⟩ := exists_of_severalArguments (congrArg Outcome.result hx)
        obtain ⟨k, u, hu, hus, hp⟩ := exists_of_mem_numbered (List.mem_of_mem_drop ht)
        obtain ⟨u', hu', hus'⟩ : ∃ u', ts'[k]? = some u' ∧ u'.symbol = u.symbol := by
          have hk := congrArg (·[k]?) h
          simp only [List.getElem?_map, hu, Option.map_some] at hk
          exact Option.map_eq_some_iff.mp hk.symm
        rw [Nat.zero_add] at hp
        refine .severalArguments rfl rfl hu hu' (hus.trans hs) (hus'.trans (hus.trans hs)) ?_ ?_
        · rw [← Relocation.onto_index hu, ← hp]
          rfl
        · rw [← Relocation.onto_index hu', ← hp]
          rfl
      | _ => cases hkind
    · refine .refused ?_ ?_ ?_
      · exact fun hk => hkind ((Cause.kind_moved cause).symm.trans hk)
      · exact (Cause.kind_moved cause).trans (Cause.kind_moved cause).symm
      · exact congrArg Cause.message
          ((Cause.moved_eq_self hkind).trans (Cause.moved_eq_self hkind).symm)

/-- That the source texts come to be known changes nothing. -/
theorem ReadAlike.withSource {ts ts' : List Token} {x y : Except Diagnostic (List Stmt)}
    (h : ReadAlike ts ts' x y) (source source' : Bytes) :
    ReadAlike ts ts' (x.mapError (·.withSource source)) (y.mapError (·.withSource source')) := by
  cases h with
  | read h => exact .read h
  | refused hkind hkinds hmessages => exact .refused hkind hkinds hmessages
  | severalArguments hkind hkind' ht ht' hs hs' hm hm' =>
    exact .severalArguments hkind hkind' ht ht' hs hs' hm hm'

/-- The diagnostic of a text that can be scanned is that of its tokens. -/
theorem diagnostic_parseSource {o : Options} {source : Bytes} {tokens : List Token}
    (h : tokenize source = .ok tokens) :
    (parseSource o source).mapError Failure.diagnostic =
      (Parser.mk tokens o 0).parse.1.mapError (·.withSource source) := by
  cases hp : (Parser.fresh o tokens).parse.1 with
  | error d =>
    rw [parseSource_of_refused h hp]
    simp only [Parser.fresh] at hp
    rw [hp]
    rfl
  | ok program =>
    rw [parseSource_of_read h hp]
    simp only [Parser.fresh] at hp
    rw [hp]
    rfl

/-- The grammar sees of a token its sort and the field that belongs to the sort. Two rows
that agree in these are read alike and equally far, from whatever token on, also by descent,
which has every field at hand, and so are two texts whose tokens agree in these. -/
theorem parse_noninterference (o : Options) :
    (∀ (cursor : Nat) (xs ys : List TokenRecord), List.Forall₂ TokenRecord.Agrees xs ys →
      let here : Parser := ⟨xs.map Token.ofRecord, o, cursor⟩
      let there : Parser := ⟨ys.map Token.ofRecord, o, cursor⟩
      here.parse.2.cursor = there.parse.2.cursor ∧
        ReadAlike here.tokens there.tokens here.parse.1 there.parse.1 ∧
        Reader.perform ⟨xs, cursor⟩ (o.program? []) =
          some (here.parse.1, ⟨xs, here.parse.2.cursor⟩) ∧
        Reader.perform ⟨ys, cursor⟩ (o.program? []) =
          some (there.parse.1, ⟨ys, there.parse.2.cursor⟩)) ∧
    ∀ (source source' : Bytes) (tokens tokens' : List Token),
      tokenize source = .ok tokens → tokenize source' = .ok tokens' →
      List.Forall₂ TokenRecord.Agrees (tokens.map Token.toRecord) (tokens'.map Token.toRecord) →
        ReadAlike tokens tokens' ((parseSource o source).mapError Failure.diagnostic)
          ((parseSource o source').mapError Failure.diagnostic) := by
  constructor
  · intro cursor xs ys h here there
    have hsymbols : here.tokens.map Token.symbol = there.tokens.map Token.symbol := by
      rw [List.map_map, List.map_map]
      exact forall₂_agrees_iff.mp h
    obtain ⟨hcursor, halike⟩ := parse_congr o cursor hsymbols
    exact ⟨hcursor, halike, Parser.perform_parse (p := here) rfl,
      Parser.perform_parse (p := there) rfl⟩
  · intro source source' tokens tokens' ht ht' h
    have hsymbols := forall₂_agrees_iff.mp h
    simp only [List.map_map, Function.comp_def, Token.symbol_toRecord] at hsymbols
    rw [diagnostic_parseSource ht, diagnostic_parseSource ht']
    exact (parse_congr o 0 hsymbols).2.withSource source source'

/-- A call with two arguments. -/
def callText : Bytes := utf8 "f(x,'é');"

/-- The same call over three lines, with comments and other quotes. -/
def spreadText : Bytes := utf8 "f /* , */ (\n x, // y\n \"é\") ;"

/-- The tokens of the call. -/
def callTokens : List Token :=
  [⟨.ident (utf8 "f"), utf8 "f", ⟨1, 1⟩⟩, ⟨.punct .openParen, utf8 "(", ⟨1, 2⟩⟩,
    ⟨.ident (utf8 "x"), utf8 "x", ⟨1, 3⟩⟩, ⟨.punct .comma, utf8 ",", ⟨1, 4⟩⟩,
    ⟨.string (utf8 "é"), utf8 "'é'", ⟨1, 5⟩⟩, ⟨.punct .closeParen, utf8 ")", ⟨1, 8⟩⟩,
    ⟨.punct .semicolon, utf8 ";", ⟨1, 9⟩⟩, .eof ⟨1, 10⟩]

/-- The tokens of the call over three lines. -/
def spreadTokens : List Token :=
  [⟨.ident (utf8 "f"), utf8 "f", ⟨1, 1⟩⟩, ⟨.punct .openParen, utf8 "(", ⟨1, 11⟩⟩,
    ⟨.ident (utf8 "x"), utf8 "x", ⟨2, 2⟩⟩, ⟨.punct .comma, utf8 ",", ⟨2, 3⟩⟩,
    ⟨.string (utf8 "é"), utf8 "\"é\"", ⟨3, 2⟩⟩, ⟨.punct .closeParen, utf8 ")", ⟨3, 5⟩⟩,
    ⟨.punct .semicolon, utf8 ";", ⟨3, 7⟩⟩, .eof ⟨3, 8⟩]

/-- The two texts are read alike, with and without calls of several arguments. So are the
rest of their tokens after the name, with a truth value in records that have none. -/
theorem parse_noninterference_call :
    (∀ o ∈ [({} : Options), { manyArguments := true }],
      ReadAlike callTokens spreadTokens
        ((parseSource o callText).mapError Failure.diagnostic)
        ((parseSource o spreadText).mapError Failure.diagnostic)) ∧
    ReadAlike callTokens spreadTokens (Parser.mk callTokens {} 1).parse.1
      (Parser.mk spreadTokens {} 1).parse.1 := by
  have hcall : tokenize callText = .ok callTokens := by decide +kernel
  have hspread : tokenize spreadText = .ok spreadTokens := by decide +kernel
  have hagree : List.Forall₂ TokenRecord.Agrees (callTokens.map Token.toRecord)
      (spreadTokens.map Token.toRecord) := by decide +kernel
  have hmarked : List.Forall₂ TokenRecord.Agrees (callTokens.map Token.toRecord)
      (spreadTokens.map fun t => { t.toRecord with bool := true }) := by decide +kernel
  constructor
  · intro o _
    exact (parse_noninterference o).2 _ _ _ _ hcall hspread hagree
  · exact ((parse_noninterference {}).1 1 _ _ hmarked).2.1

end ShaderFront
