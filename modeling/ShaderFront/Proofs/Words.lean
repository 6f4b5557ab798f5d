import ShaderFront.Proofs.Run
import ShaderFront.Proofs.Spelling
import ShaderFront.Proofs.Step

/-!
# Words of a program

Apart from directives, all that a tree says about names and types it has word by word from
the tokens. So every word of a program that is read from a text is made of the characters
that may stand in a name.
-/

namespace ShaderFront

/-! ## Words in trees -/

/-- The word that a symbol is, if it is a name or a reserved word. -/
def Symbol.words : Symbol → List Bytes
  | .ident name => [name]
  | .keyword k => [utf8 k.spelling]
  | _ => []

mutual

/-- The names and types in an expression. -/
def Expr.words : Expr → List Bytes
  | .hole | .bool _ _ | .number _ _ | .string _ _ => []
  | .binary _ left right _ => left.words ++ right.words
  | .unary _ operand _ => operand.words
  | .ident name _ => [name]
  | .paren inner _ => inner.words
  | .member container field _ => [container, field]
  | .call callee args _ => callee.words ++ Expr.allWords args
  | .construct type args _ => type :: Expr.allWords args

/-- The names and types in expressions. -/
def Expr.allWords : List Expr → List Bytes
  | [] => []
  | e :: es => e.words ++ Expr.allWords es

end

/-- The type and the name of a declaration. -/
def Head.words (h : Head) : List Bytes := [h.type, h.name]

/-- The name and the type of a member. -/
def Member.words (m : Member) : List Bytes := [m.name, m.type]

mutual

/-- The names and types in a statement. -/
def Stmt.words : Stmt → List Bytes
  | .hole => []
  | .expr value _ => value.words
  | .cond condition body _ => condition.words ++ body.words
  | .block body _ => words body
  | .decl head init => head.words ++ init.toList.flatMap Expr.words
  | .directive _ params _ => Expr.allWords params
  | .function head params body _ => head.words ++ (params ++ words body)
  | .struct _ name members _ => name :: members.flatMap Member.words

/-- The names and types in a program. -/
def words : List Stmt → List Bytes
  | [] => []
  | s :: ss => s.words ++ words ss

end

@[simp] theorem Expr.allWords_eq_flatMap (es : List Expr) :
    allWords es = es.flatMap Expr.words := by
  induction es with
  | nil => rfl
  | cons e es ih => rw [allWords, ih, List.flatMap_cons]

@[simp] theorem words_eq_flatMap (ss : List Stmt) : words ss = ss.flatMap Stmt.words := by
  induction ss with
  | nil => rfl
  | cons s ss ih => rw [words, ih, List.flatMap_cons]

/-! ## Words in unfinished programs -/

/-- The names and types in a part that waits. -/
def Frame.words : Frame → List Bytes
  | .unary _ _ | .paren _ => []
  | .binary left _ => left.words
  | .call callee _ args => callee.words ++ args.flatMap Expr.words
  | .construct type _ args => utf8 type.spelling :: args.flatMap Expr.words

/-- The names and types in what the current expression is for. -/
def Host.words : Host → List Bytes
  | .statement _ | .condition _ => []
  | .initial head => head.words

/-- The names and types in the operand that is being read. -/
def Point.words : Point → List Bytes
  | .operand | .firstArgument => []
  | .name n _ => [n]
  | .field container _ => [container]
  | .member container f _ => [container, f]
  | .vector type _ => [utf8 type.spelling]
  | .complete value => value.words

/-- The names and types in an open struct. -/
def OpenStruct.words (s : OpenStruct) : List Bytes :=
  s.name :: s.members.flatMap Member.words

/-- The names and types in the current statement. -/
def Mode.words : Mode → List Bytes
  | .statement | .conditionStart _ | .modified _ | .structName _ => []
  | .typed _ type _ => [utf8 type.spelling]
  | .declared head | .parameters head | .functionBody head => head.words
  | .structStart name _ => [name]
  | .members s => s.words
  | .memberColon s name _ | .memberType s name _ => name :: s.words
  | .memberEnd s m => m.words ++ s.words
  | .expression host frames point =>
    host.words ++ (frames.flatMap Frame.words ++ point.words)

/-- The names and types in an enclosing statement. -/
def Scope.words : Scope → List Bytes
  | .block _ inner => inner.flatMap Stmt.words
  | .function head _ inner => head.words ++ inner.flatMap Stmt.words
  | .guard _ condition => condition.words

/-- The names and types in the complete and the enclosing statements. -/
def enclosingWords (done : List Stmt) (scopes : List Scope) : List Bytes :=
  done.flatMap Stmt.words ++ scopes.flatMap Scope.words

/-- The names and types in an unfinished program. -/
def State.words (s : State) : List Bytes :=
  enclosingWords s.finished s.scopes ++ s.mode.words

/-- A complete statement keeps its words where it is added. -/
theorem mem_words_addStatement {w : Bytes} (s : Stmt) (done : List Stmt) (scopes : List Scope) :
    w ∈ (addStatement s done scopes).words ↔ w ∈ enclosingWords done scopes ∨ w ∈ s.words := by
  induction scopes generalizing s with
  | nil => simp [addStatement, State.words, enclosingWords, Mode.words, or_comm]
  | cons scope scopes ih =>
    cases scope with
    | guard start condition =>
      rw [addStatement, ih]
      simp only [enclosingWords, Stmt.words, Scope.words, List.flatMap_cons, List.mem_append]
      grind
    | block opened inner =>
      simp only [addStatement, State.words, enclosingWords, Mode.words, Scope.words,
        List.flatMap_cons, List.mem_append, List.not_mem_nil, or_false]
      grind
    | function head opened inner =>
      simp only [addStatement, State.words, enclosingWords, Mode.words, Scope.words,
        List.flatMap_cons, List.mem_append, List.not_mem_nil, or_false]
      grind

/-- Grouping moves words between the frames and the operand. -/
theorem mem_words_group {w : Bytes} {waits : Operator → Bool} {e v : Expr}
    {frames inner : List Frame} (h : group waits e frames = (v, inner)) :
    w ∈ frames.flatMap Frame.words ∨ w ∈ e.words ↔
      w ∈ inner.flatMap Frame.words ∨ w ∈ v.words := by
  induction frames generalizing e with
  | nil =>
    cases h
    rfl
  | cons frame frames ih =>
    cases frame with
    | unary op start =>
      rw [← ih h]
      rfl
    | binary left op =>
      rw [group] at h
      split at h
      · cases h
        rfl
      · rw [← ih h]
        simp only [List.flatMap_cons, List.mem_append, Frame.words, Expr.words]
        grind
    | paren start | call callee opened args | construct type start args =>
      cases h
      rfl

/-- The order of the parts does not matter. -/
theorem mem_flatMap_reverse {α : Type} {w : Bytes} {l : List α} {f : α → List Bytes} :
    w ∈ l.reverse.flatMap f ↔ w ∈ l.flatMap f := by
  simp only [List.mem_flatMap, List.mem_reverse]

/-! ## One token -/

/-- The value of an operand has the words that were read. -/
theorem Point.words_value {p : Point} {e : Expr} (h : p.value? = some e) : e.words = p.words := by
  cases p with
  | operand | firstArgument | field _ _ | vector _ _ => cases h
  | name _ _ | member _ _ _ | complete _ =>
    cases h
    rfl

/-- What starts an operand adds the word that it is. -/
theorem StartsOperand.words_subset {host : Host} {frames : List Frame} {t : Token} {m : Mode}
    (h : StartsOperand host frames t m) {w : Bytes} (hw : w ∈ m.words) :
    (w ∈ host.words ∨ w ∈ frames.flatMap Frame.words) ∨ w ∈ t.symbol.words := by
  cases h with
  | unary h _ | bool h | number h | string h | name h | paren h | vector h _ =>
    simp only [Mode.words, Point.words, Frame.words, Expr.words, List.flatMap_cons,
      List.mem_append, List.not_mem_nil, or_false, false_or] at hw
    simp only [h, Symbol.words]
    grind

/-- What follows an operand adds no words. -/
theorem TakesAfter.words_subset {o : Options} {done : List Stmt} {scopes : List Scope} {mode : Mode}
    {next : State} {host : Host} {frames : List Frame} {e : Expr} {t : Token}
    (h : TakesAfter o ⟨done, scopes, mode⟩ host frames e t next) {w : Bytes}
    (hw : w ∈ next.words) :
    w ∈ enclosingWords done scopes ∨ w ∈ host.words ∨
      w ∈ frames.flatMap Frame.words ∨ w ∈ e.words := by
  cases h with
  | operator h hl hg =>
    rw [mem_words_group hg]
    simp only [State.withMode, State.words, Mode.words, Point.words, Frame.words,
      List.flatMap_cons, List.mem_append, List.not_mem_nil, or_false] at hw
    grind
  | statementEnd h hh hg =>
    rw [State.complete, mem_words_addStatement] at hw
    rw [mem_words_group hg]
    simp only [Stmt.words] at hw
    grind
  | declarationEnd h hh hg =>
    rw [State.complete, mem_words_addStatement] at hw
    rw [mem_words_group hg]
    simp only [Stmt.words, Option.toList, List.flatMap_cons, List.flatMap_nil, List.append_nil,
      List.mem_append] at hw
    simp only [hh, Host.words]
    grind
  | conditionEnd h hh hg =>
    rw [mem_words_group hg]
    simp only [State.enter, State.words, enclosingWords, Mode.words, Scope.words,
      List.flatMap_cons, List.mem_append, List.not_mem_nil, or_false] at hw
    simp only [enclosingWords, List.mem_append]
    grind
  | parenEnd h hg =>
    rw [mem_words_group hg]
    simp only [State.withMode, State.words, Mode.words, Point.words, Expr.words,
      List.mem_append] at hw
    simp only [List.flatMap_cons, List.mem_append]
    grind
  | callEnd h hg | constructEnd h hg =>
    rw [mem_words_group hg]
    simp only [State.withMode, State.words, Mode.words, Point.words, Expr.words,
      Expr.allWords_eq_flatMap, mem_flatMap_reverse, List.flatMap_cons, List.mem_append,
      List.mem_cons] at hw
    simp only [List.flatMap_cons, List.mem_append, List.mem_cons, Frame.words]
    grind
  | nextArgument h ho hg | nextComponent h hg =>
    rw [mem_words_group hg]
    simp only [State.withMode, State.words, Mode.words, Point.words, Frame.words,
      List.flatMap_cons, List.mem_append, List.mem_cons, List.not_mem_nil, or_false] at hw
    simp only [List.flatMap_cons, List.mem_append, List.mem_cons, Frame.words]
    grind

/-- The type of a member is a word. -/
theorem mem_words_of_memberTypeName? {s : Symbol} {type : Bytes}
    (h : memberTypeName? s = some type) : type ∈ s.words := by
  cases s with
  | ident name =>
    cases h
    exact List.mem_singleton.mpr rfl
  | keyword k =>
    obtain ⟨k', hk, rfl⟩ : ∃ k', (Symbol.keyword k).typeWord? = some k' ∧ utf8 k'.spelling = type :=
      Option.map_eq_some_iff.mp h
    obtain ⟨hkk, -⟩ := Symbol.typeWord?_eq_some.mp hk
    cases hkk
    exact List.mem_singleton.mpr rfl
  | _ => cases h

/-- A member that is kept brings its words along. -/
theorem OpenStruct.words_add {o : Options} {s : OpenStruct} {m : Member} {w : Bytes}
    (hw : w ∈ (s.add o m).words) : w ∈ m.words ∨ w ∈ s.words := by
  unfold OpenStruct.add at hw
  split at hw
  · simp only [OpenStruct.words, List.flatMap_cons, List.mem_cons, List.mem_append] at hw ⊢
    grind
  · exact .inr hw

/-- What may be called has the words of the point. -/
theorem Callee.words_eq {p : Point} {callee : Expr} (h : Callee p callee) :
    callee.words = p.words := by
  cases h <;> rfl

/-- Every word after a token was there before it or is the token. -/
theorem Takes.words_subset {o : Options} {done : List Stmt} {scopes : List Scope} {t : Token}
    {mode : Mode} {next : State} (h : Takes o done scopes t mode next) {w : Bytes}
    (hw : w ∈ next.words) :
    (w ∈ enclosingWords done scopes ∨ w ∈ mode.words) ∨ w ∈ t.symbol.words := by
  cases h with
  | directive h =>
    rw [mem_words_addStatement] at hw
    simp only [Stmt.words, Expr.allWords, List.not_mem_nil, or_false] at hw
    grind
  | closeBlock h hs | closeFunction h hs =>
    rw [mem_words_addStatement] at hw
    simp only [hs, enclosingWords, Scope.words, List.flatMap_cons, List.mem_append]
    simp only [Stmt.words, enclosingWords, words_eq_flatMap, mem_flatMap_reverse,
      List.nil_append, List.mem_append] at hw
    grind
  | start hn hm =>
    simp only [State.words, List.mem_append] at hw
    rcases hw with hw | hw
    · exact .inl (.inl hw)
    · have hword := hm.words_subset hw
      simp only [Host.words, List.flatMap_nil, List.not_mem_nil, or_false, false_or] at hword
      exact .inr hword
  | declared h =>
    rw [mem_words_addStatement] at hw
    simp only [Stmt.words, Option.toList, List.flatMap_nil, List.append_nil] at hw
    simp only [Mode.words]
    grind
  | closeStruct h hs =>
    rw [mem_words_addStatement] at hw
    simp only [OpenStruct.close, Stmt.words, mem_flatMap_reverse, List.mem_cons] at hw
    simp only [Mode.words, OpenStruct.words, List.mem_cons]
    grind
  | operand hp hm =>
    simp only [State.words, List.mem_append] at hw
    simp only [Mode.words, List.mem_append]
    rcases hw with hw | hw
    · grind
    · have hword := hm.words_subset hw
      grind
  | after hp hn =>
    have hword := hn.words_subset hw
    rw [Point.words_value hp] at hword
    simp only [Mode.words, List.mem_append]
    grind
  | memberType h =>
    have hword := mem_words_of_memberTypeName? h
    simp only [State.words, Mode.words, Member.words, List.mem_append, List.mem_cons,
      List.not_mem_nil, or_false] at hw ⊢
    rcases hw with hw | (rfl | rfl) | hw <;> grind
  | memberEnd h =>
    simp only [State.words, Mode.words, List.mem_append] at hw ⊢
    rcases hw with hw | hw
    · grind
    · have hword := OpenStruct.words_add hw
      grind
  | openCall h hp =>
    have hcallee : _ = _ := hp.words_eq
    simp only [State.words, Mode.words, Frame.words, Point.words, List.flatMap_cons,
      List.flatMap_nil, List.mem_append, List.not_mem_nil, or_false, hcallee] at hw ⊢
    grind
  | emptyCall h | emptyConstruct h =>
    simp only [State.words, Mode.words, Frame.words, Point.words, Expr.words,
      Expr.allWords_eq_flatMap, mem_flatMap_reverse, List.flatMap_cons, List.mem_append,
      List.mem_cons, List.not_mem_nil, or_false] at hw ⊢
    grind
  | openBlock h | cond h | input h | struct h | type h _ | openCondition h | modifiedType h _
  | declare h | initial h | openParameters h | closeParameters h | openFunction h | structName h
  | openStruct h | memberName h | memberColon h | colon h | field h | openConstruct h =>
    simp only [State.words, enclosingWords, Mode.words, Scope.words, Host.words, Head.words,
      Frame.words, Point.words, OpenStruct.words, h, Symbol.words, List.flatMap_cons,
      List.flatMap_nil, List.mem_append, List.mem_cons, List.not_mem_nil, or_false,
      false_or] at hw ⊢
    grind

/-- Every word after a row of tokens was there before it or is one of them. -/
theorem State.words_subset {o : Options} {s next : State} {ts : List Token}
    (h : s.takeAll? o ts = some next) {w : Bytes} (hw : w ∈ next.words) :
    w ∈ s.words ∨ ∃ t ∈ ts, w ∈ t.symbol.words := by
  induction ts generalizing s with
  | nil =>
    cases h
    exact .inl hw
  | cons t ts ih =>
    obtain ⟨mid, ht, hts⟩ := Option.bind_eq_some_iff.mp h
    rcases ih hts with hmid | ⟨u, hu, hword⟩
    · rcases (State.takes_of_take? ht).words_subset hmid with hs | ht
      · exact .inl (List.mem_append.mpr hs)
      · exact .inr ⟨t, List.mem_cons_self, ht⟩
    · exact .inr ⟨u, List.mem_cons_of_mem t hu, hword⟩

/-- Every word of a program is one of its tokens. -/
theorem exists_token_of_mem_words {o : Options} {ts : List Token} {program : List Stmt}
    (h : (Parser.fresh o ts).parse.1 = .ok program) {w : Bytes} (hw : w ∈ words program) :
    ∃ t ∈ ts, w ∈ t.symbol.words := by
  obtain ⟨next, htaken, hc, rfl⟩ := takeAll?_of_parse h
  have hnext : w ∈ next.words := by
    rw [words_eq_flatMap, mem_flatMap_reverse] at hw
    exact List.mem_append_left _ (List.mem_append_left _ hw)
  rcases State.words_subset htaken hnext with hstart | ⟨t, ht, hword⟩
  · cases hstart
  · exact ⟨t, List.takeWhile_subset _ ht, hword⟩

/-! ## Words of a text -/

/-- Is the text made of characters that may stand in a name? -/
def isWord (w : Bytes) : Bool :=
  (decode w).all Glyph.inName

/-- A byte that is no character of names is in no word. -/
theorem notMem_of_isWord {w : Bytes} (h : isWord w = true) {b : UInt8} (hb : b < 0x80)
    (hn : (asciiGlyph b).inName = false) : b ∉ w := by
  have hglyph : asciiGlyph b ∉ decode w := by
    intro hm
    have hin := List.all_eq_true.mp h _ hm
    rw [hn] at hin
    cases hin
  have hbytes := notMem_glyphBytes (isDecoded_decode w) hb hglyph
  rwa [glyphBytes_decode] at hbytes

theorem isWord_spelling (k : Keyword) : isWord (utf8 k.spelling) = true := by
  cases k <;> decide +kernel

/-- Is the element a name? -/
def Reading.isName : Reading → Bool
  | .symbol (.ident _) => true
  | _ => false

theorem operatorElement?_not_isName {c : Char} {rest : List Glyph} {e : Element}
    (h : operatorElement? c rest = some e) : e.reading.isName = false := by
  unfold operatorElement? longerIf at h
  grind [Reading.isName]

theorem slashElement_not_isName (rest : List Glyph) :
    (slashElement rest).reading.isName = false := by
  unfold slashElement
  split
  · rfl
  · split <;> rfl
  · rfl

theorem stringElement_not_isName (quote : Char) (rest : List Glyph) :
    (stringElement quote rest).reading.isName = false := by
  unfold stringElement
  split <;> rfl

theorem attributeElement_not_isName (rest : List Glyph) :
    (attributeElement rest).reading.isName = false := by
  unfold attributeElement bracketedAttribute
  dsimp only
  split
  · split
    · rfl
    · split <;> rfl
  · split <;> rfl

theorem numberElement_not_isName (first : Char) (rest : List Glyph) :
    (numberElement first rest).reading.isName = false := by
  unfold numberElement
  dsimp only
  split <;> rfl

/-- A name is read as a word. -/
theorem Starts.word_of_isName {c : Char} {rest : List Glyph} {e : Element} (h : Starts c rest e)
    (hn : e.reading.isName = true) : isNameStart c = true ∧ e = wordElement c rest := by
  cases h with
  | word hc he => exact ⟨hc, he⟩
  | punct _ he | blank _ he | unexpected he =>
    rw [he] at hn
    cases hn
  | operator ho =>
    rw [operatorElement?_not_isName ho] at hn
    cases hn
  | slash _ he =>
    rw [he, slashElement_not_isName] at hn
    cases hn
  | string _ he =>
    rw [he, stringElement_not_isName] at hn
    cases hn
  | attr _ he =>
    rw [he, attributeElement_not_isName] at hn
    cases hn
  | number _ he =>
    rw [he, numberElement_not_isName] at hn
    cases hn

/-- A name is made of the characters that may stand in one. -/
theorem isWord_of_element {g : Glyph} {rest : List Glyph} {name : Bytes} {n : Nat}
    (hd : IsDecoded (g :: rest)) (he : element g rest = ⟨.symbol (.ident name), n⟩) :
    isWord name = true := by
  obtain ⟨hname, -⟩ : name = glyphBytes (g :: rest.take n) ∧ _ := element_isSpelledBy hd he
  have hdecoded : IsDecoded (g :: rest.take n) := by
    rw [← List.take_append_drop n rest, ← List.cons_append] at hd
    exact hd.of_append.1
  rw [isWord, hname, hdecoded]
  cases g with
  | stray b => cases he
  | char c =>
    have hstarts := starts_element c rest
    rw [he] at hstarts
    obtain ⟨hc, hword⟩ := hstarts.word_of_isName rfl
    obtain rfl : n = (rest.takeWhile Glyph.inName).length := congrArg Element.extent hword
    have hfirst : Glyph.inName (.char c) = true := by
      simp only [isNameStart, Bool.or_eq_true] at hc
      simp only [Glyph.inName, isNameChar, Bool.or_eq_true]
      grind
    rw [take_length_takeWhile, List.all_cons, hfirst, List.all_takeWhile]
    rfl

/-- The words among the tokens of a text are made of such characters. -/
theorem isWord_of_tokenize {source : Bytes} {tokens : List Token}
    (h : tokenize source = .ok tokens) {t : Token} (ht : t ∈ tokens) {w : Bytes}
    (hw : w ∈ t.symbol.words) : isWord w = true := by
  obtain ⟨read, rest, hglyphs, -, hrest⟩ := exists_place_of_scan (tokenize_eq_ok.1 h) ht
  cases hs : t.symbol with
  | ident name =>
    rw [hs] at hw hrest
    obtain rfl : w = name := List.mem_singleton.mp hw
    rcases hrest with ⟨-, hend⟩ | ⟨g, more, n, rfl, he, -⟩
    · cases hend
    · have hd := hglyphs ▸ isDecoded_decode source
      exact isWord_of_element hd.of_append.2 he
  | keyword k =>
    rw [hs] at hw
    rw [List.mem_singleton.mp hw]
    exact isWord_spelling k
  | _ =>
    rw [hs] at hw
    cases hw

/-- So are the words of a program. -/
theorem isWord_of_parseSource {o : Options} {source : Bytes} {program : List Stmt}
    (h : parseSource o source = .ok program) {w : Bytes} (hw : w ∈ words program) :
    isWord w = true := by
  obtain ⟨tokens, htokens, hparse⟩ := exists_tokens_of_parseSource h
  obtain ⟨t, ht, hword⟩ := exists_token_of_mem_words hparse hw
  exact isWord_of_tokenize htokens ht hword

end ShaderFront
