import Mathlib.Control.Monad.Basic
import ShaderFront.Proofs.SingleLine
import ShaderFront.Proofs.Words
import ShaderFront.Tree.Node
import ShaderFront.Tree.Outline

/-!
# Lines of an outline

The outline of a program has an entry for each node, in the order in which a walk meets
them and as deep as the node lies. An entry takes one line of the text, with one
exception: the name of a directive is printed as it is, and in brackets it may hold line
feeds. All other words of a program are names and types, which hold none, and strings are
printed in quotes.
-/

namespace ShaderFront

/-! ## One entry for each node -/

/-- What the entry of a node says. -/
def Node.label : Node → Bytes
  | .stmt s => s.label
  | .expr e => e.label
  | .member m => m.label

/-- The outline of a node. -/
def Node.outline (depth : Nat) : Node → List Line
  | .stmt s => s.outline depth
  | .expr e => e.outline depth
  | .member m => [⟨depth, m.label⟩]

/-- The entry of a node as a walk meets it. -/
def Visit.line (v : Visit) : Line := ⟨v.depth, v.node.label⟩

theorem Expr.outlines_eq_flatMap (depth : Nat) (es : List Expr) :
    outlines depth es = es.flatMap (Expr.outline depth) := by
  induction es with
  | nil => rfl
  | cons e es ih => rw [outlines, ih, List.flatMap_cons]

theorem Stmt.outlines_eq_flatMap (depth : Nat) (ss : List Stmt) :
    outlines depth ss = ss.flatMap (Stmt.outline depth) := by
  induction ss with
  | nil => rfl
  | cons s ss ih => rw [outlines, ih, List.flatMap_cons]

/-- The entry of a node comes before those of its children, which are one step deeper. -/
theorem Node.outline_eq (depth : Nat) (n : Node) :
    n.outline depth =
      ⟨depth, n.label⟩ :: n.children.flatMap fun c => c.2.outline (depth + 1) := by
  cases n with
  | member m => rfl
  | stmt s =>
    cases s with
    | decl head init => cases init <;> simp [Node.outline, Node.label, Node.children, Stmt.outline]
    | struct attr name members span =>
      simp only [Node.outline, Node.label, Node.children, Stmt.outline, List.flatMap_map]
      congr 1
      exact List.map_eq_flatMap
    | _ =>
      simp [Node.outline, Node.label, Node.children, Stmt.outline, Stmt.outlines_eq_flatMap,
        Expr.outlines_eq_flatMap, List.flatMap_map, Stmt.label]
  | expr e =>
    cases e <;>
      simp [Node.outline, Node.label, Node.children, Expr.outline, Expr.outlines_eq_flatMap,
        List.flatMap_map]

/-- The entries of an outline are those of the nodes, in the order of a walk. -/
theorem Node.map_line_walk (n : Node) (depth : Nat) (role : Role) :
    (n.walk depth role).map Visit.line = n.outline depth := by
  induction n using Node.child_induction generalizing depth role with
  | step n ih =>
    rw [Node.walk_eq, Node.outline_eq, List.map_cons, List.map_flatMap]
    rw [List.flatMap_def, List.flatMap_def, List.map_congr_left fun c hc => ih c hc _ _]
    rfl

theorem outline_eq_map_walk (program : List Stmt) :
    outline program = (walk program).map Visit.line := by
  rw [outline, Stmt.outlines_eq_flatMap, walk, List.map_flatMap]
  simp only [Node.map_line_walk]
  rfl

/-! ## Words of the nodes -/

/-- The names and types in a node. -/
def Node.words : Node → List Bytes
  | .stmt s => s.words
  | .expr e => e.words
  | .member m => m.words

/-- The names and types that the entry of a node shows. -/
def Node.ownWords : Node → List Bytes
  | .stmt (.decl head _) => head.words
  | .stmt (.function head params _ _) => head.words ++ params
  | .stmt (.struct _ name _ _) => [name]
  | .expr (.ident name _) => [name]
  | .expr (.member container field _) => [container, field]
  | .expr (.construct type _ _) => [type]
  | .member m => m.words
  | _ => []

/-- The words of a node are its own and those of its children. -/
theorem Node.words_eq (n : Node) :
    n.words = n.ownWords ++ n.children.flatMap fun c => c.2.words := by
  cases n with
  | member m => simp [Node.words, Node.ownWords, Node.children]
  | stmt s =>
    cases s with
    | decl head init =>
      cases init <;> simp [Node.words, Node.ownWords, Node.children, Stmt.words]
    | _ => simp [Node.words, Node.ownWords, Node.children, Stmt.words, List.flatMap_map]
  | expr e =>
    cases e <;> simp [Node.words, Node.ownWords, Node.children, Expr.words, List.flatMap_map]

/-- The words that an entry shows are words of the whole. -/
theorem Node.ownWords_subset {n : Node} {depth : Nat} {role : Role} {v : Visit}
    (h : v ∈ n.walk depth role) : v.node.ownWords ⊆ n.words := by
  induction n using Node.child_induction generalizing depth role with
  | step n ih =>
    rw [Node.walk_eq] at h
    rw [Node.words_eq]
    rcases List.mem_cons.mp h with rfl | h
    · exact List.subset_append_left _ _
    · obtain ⟨c, hc, hv⟩ := List.mem_flatMap.mp h
      intro w hw
      exact List.mem_append_right _ (List.mem_flatMap.mpr ⟨c, hc, ih c hc hv hw⟩)

theorem ownWords_subset_of_mem_walk {program : List Stmt} {v : Visit} (h : v ∈ walk program) :
    v.node.ownWords ⊆ words program := by
  obtain ⟨s, hs, hv⟩ := List.mem_flatMap.mp h
  intro w hw
  rw [words_eq_flatMap]
  exact List.mem_flatMap.mpr ⟨s, hs, Node.ownWords_subset hv hw⟩

/-! ## Labels -/

/-- Does the text start with something other than a blank? -/
def startsFlush : Bytes → Bool
  | [] => false
  | b :: _ => b ≠ blank

theorem startsFlush_append {s : Bytes} (h : startsFlush s = true) (t : Bytes) :
    startsFlush (s ++ t) = true := by
  cases s with
  | nil => cases h
  | cons b s => exact h

/-- No label starts with a blank, so the blanks before it are all that indents it. -/
theorem Node.startsFlush_label (n : Node) : startsFlush n.label = true := by
  cases n with
  | member m =>
    simp only [Node.label, Member.label, List.append_assoc]
    exact startsFlush_append (by decide) _
  | stmt s =>
    cases s with
    | hole | expr _ _ | cond _ _ _ | block _ _ => simp only [Node.label, Stmt.label]; decide
    | decl _ _ | directive _ _ _ | struct _ _ _ _ => exact startsFlush_append (by decide) _
    | function _ _ _ _ =>
      simp only [Node.label, Stmt.label, List.append_assoc]
      exact startsFlush_append (by decide) _
  | expr e =>
    cases e with
    | hole | paren _ _ | call _ _ _ => simp only [Node.label, Expr.label]; decide
    | member _ _ _ =>
      simp only [Node.label, Expr.label, List.append_assoc]
      exact startsFlush_append (by decide) _
    | _ => exact startsFlush_append (by decide) _

theorem Operator.lineFeed_notMem_spelling (op : Operator) : lineFeed ∉ utf8 op.spelling := by
  cases op with
  | unassigned n => exact (by decide : lineFeed ∉ utf8 "?")
  | _ => decide

theorem Modifier.lineFeed_notMem_spelling (m : Modifier) : lineFeed ∉ utf8 m.spelling := by
  cases m with
  | unassigned n => exact (by decide : lineFeed ∉ utf8 "?")
  | input => decide

theorem lineFeed_notMem_commaSeparated {texts : List Bytes} (h : ∀ t ∈ texts, lineFeed ∉ t) :
    lineFeed ∉ commaSeparated texts := by
  have hcomma : lineFeed ∉ utf8 ", " := by decide
  unfold commaSeparated
  induction texts with
  | nil => exact List.not_mem_nil
  | cons t texts ih =>
    obtain ⟨ht, htexts⟩ := List.forall_mem_cons.mp h
    cases texts with
    | nil => simpa [List.intercalate] using ht
    | cons u texts =>
      have hmore := ih htexts
      simp only [List.intercalate, List.intersperse, List.flatten_cons, List.mem_append,
        not_or] at hmore ⊢
      exact ⟨ht, hcomma, hmore⟩

theorem Head.lineFeed_notMem_text {head : Head} (h : ∀ w ∈ head.words, lineFeed ∉ w) :
    lineFeed ∉ head.text := by
  have hmodifiers : lineFeed ∉ head.modifiers.flatMap fun m => utf8 m.spelling ++ [blank] := by
    intro hm
    obtain ⟨m, -, hm⟩ := List.mem_flatMap.mp hm
    rcases List.mem_append.mp hm with hm | hm
    · exact m.lineFeed_notMem_spelling hm
    · exact absurd (List.mem_singleton.mp hm) (by decide)
  have hblank : lineFeed ∉ [blank] := by decide
  have htype : lineFeed ∉ head.type := h _ List.mem_cons_self
  have hname : lineFeed ∉ head.name := h _ (List.mem_cons_of_mem _ List.mem_cons_self)
  unfold Head.text
  simp only [List.mem_append, not_or]
  exact ⟨⟨⟨hmodifiers, htype⟩, hblank⟩, hname⟩

/-- The entry of an expression takes one line. -/
theorem Expr.lineFeed_notMem_label {e : Expr}
    (h : ∀ w ∈ (Node.expr e).ownWords, lineFeed ∉ w) : lineFeed ∉ e.label := by
  cases e with
  | hole | paren _ _ | call _ _ _ =>
    simp only [Expr.label]
    decide
  | binary op left right span =>
    simp only [Expr.label, List.mem_append, not_or]
    exact ⟨by decide, op.lineFeed_notMem_spelling⟩
  | unary op operand span =>
    simp only [Expr.label, List.mem_append, not_or]
    exact ⟨by decide, op.lineFeed_notMem_spelling⟩
  | bool value span => cases value <;> simp only [Expr.label] <;> decide
  | number value span =>
    simp only [Expr.label, List.mem_append, not_or]
    exact ⟨by decide, value.lineFeed_notMem_text⟩
  | string value span =>
    simp only [Expr.label, List.mem_append, not_or]
    exact ⟨by decide, lineFeed_notMem_quoted value⟩
  | ident name span =>
    simp only [Expr.label, List.mem_append, not_or]
    exact ⟨by decide, h _ List.mem_cons_self⟩
  | member container field span =>
    simp only [Expr.label, List.mem_append, not_or]
    exact ⟨⟨⟨by decide, h _ List.mem_cons_self⟩, by decide⟩,
      h _ (List.mem_cons_of_mem _ List.mem_cons_self)⟩
  | construct type args span =>
    simp only [Expr.label, List.mem_append, not_or]
    exact ⟨by decide, h _ List.mem_cons_self⟩

theorem Member.lineFeed_notMem_label {m : Member} (h : ∀ w ∈ m.words, lineFeed ∉ w) :
    lineFeed ∉ m.label := by
  simp only [Member.label, List.mem_append, not_or]
  exact ⟨⟨⟨by decide, h _ List.mem_cons_self⟩, by decide⟩,
    h _ (List.mem_cons_of_mem _ List.mem_cons_self)⟩

/-- The name of a directive. -/
def Node.directiveName? : Node → Option Bytes
  | .stmt (.directive name _ _) => some name
  | _ => none

/-- The entry of a statement that is no directive takes one line. -/
theorem Stmt.lineFeed_notMem_label {s : Stmt} (hd : (Node.stmt s).directiveName? = none)
    (h : ∀ w ∈ (Node.stmt s).ownWords, lineFeed ∉ w) : lineFeed ∉ s.label := by
  cases s with
  | hole | expr _ _ | cond _ _ _ | block _ _ =>
    simp only [Stmt.label]
    decide
  | directive name params span => cases hd
  | decl head init =>
    simp only [Stmt.label, List.mem_append, not_or]
    exact ⟨by decide, Head.lineFeed_notMem_text h⟩
  | function head params body span =>
    have hhead : ∀ w ∈ head.words, lineFeed ∉ w := fun w hw => h w (List.mem_append_left _ hw)
    have hparams : ∀ w ∈ params, lineFeed ∉ w := fun w hw => h w (List.mem_append_right _ hw)
    simp only [Stmt.label, List.mem_append, not_or]
    exact ⟨⟨⟨⟨by decide, Head.lineFeed_notMem_text hhead⟩, by decide⟩,
      lineFeed_notMem_commaSeparated hparams⟩, by decide⟩
  | struct attr name members span =>
    simp only [Stmt.label, List.mem_append, not_or]
    exact ⟨by decide, h _ List.mem_cons_self⟩

/-- An entry takes one line, unless it is that of a directive whose name takes several. -/
theorem Node.lineFeed_notMem_label {n : Node} (h : ∀ w ∈ n.ownWords, lineFeed ∉ w) :
    lineFeed ∉ n.label ↔ ∀ name ∈ n.directiveName?, lineFeed ∉ name := by
  cases hd : n.directiveName? with
  | none =>
    refine iff_of_true ?_ (by simp)
    cases n with
    | stmt s => exact Stmt.lineFeed_notMem_label hd h
    | expr e => exact Expr.lineFeed_notMem_label h
    | member m => exact Member.lineFeed_notMem_label h
  | some name =>
    have hlabel : n.label = utf8 "Directive " ++ name := by
      unfold Node.directiveName? at hd
      split at hd
      · cases hd
        rfl
      · cases hd
    have hlead : lineFeed ∉ utf8 "Directive " := by decide
    simp [hlabel, hlead]

/-! ## The text of an outline -/

/-- A text whose lines all end in a line feed has these lines, and nothing after the last,
exactly if none of them holds another one. -/
theorem splitLines_flatMap_iff (lines : List Bytes) :
    splitLines (lines.flatMap (· ++ [lineFeed])) = lines ++ [[]] ↔
      ∀ line ∈ lines, lineFeed ∉ line := by
  constructor
  · intro h
    have hlength := congrArg List.length h
    have hcount : (lines.flatMap (· ++ [lineFeed])).count lineFeed =
        lines.flatten.count lineFeed + lines.length := by
      clear h hlength
      induction lines with
      | nil => rfl
      | cons line lines ih =>
        simp only [List.flatMap_cons, List.flatten_cons, List.count_append, List.length_cons, ih,
          List.count_singleton_self]
        omega
    rw [splitLines, length_splitAtByte, hcount, List.length_append, List.length_singleton]
      at hlength
    have hnone : lineFeed ∉ lines.flatten := List.count_eq_zero.mp (by omega)
    exact fun line hline hm => hnone (List.mem_flatten.mpr ⟨line, hline, hm⟩)
  · intro h
    induction lines with
    | nil => rfl
    | cons line lines ih =>
      obtain ⟨hline, hlines⟩ := List.forall_mem_cons.mp h
      have happend := splitAtByte_append lineFeed line (lines.flatMap (· ++ [lineFeed]))
      rw [List.flatMap_cons, List.append_assoc, List.singleton_append, splitLines, happend,
        splitAtByte_of_notMem hline]
      exact congrArg (line :: ·) (ih hlines)

/-- The text before the line feed that ends an entry. -/
def Visit.text (v : Visit) : Bytes :=
  blanks (2 * v.depth) ++ v.node.label

theorem dump_eq (program : List Stmt) :
    dump program = (walk program).flatMap fun v => v.text ++ [lineFeed] := by
  rw [dump, outline_eq_map_walk, List.flatMap_map]
  rfl

/-- The outline of a program that is read from a text has an entry for each node, in the
order of a walk: twice as many blanks as the node lies deep, a label that starts with
something else, and a line feed. The entries are the lines of the text exactly if no
directive has a name with a line feed in it. -/
theorem dump_lines (o : Options) (source : Bytes) (program : List Stmt)
    (h : parseSource o source = .ok program) :
    dump program = (walk program).flatMap
        (fun v => blanks (2 * v.depth) ++ v.node.label ++ [lineFeed]) ∧
      (∀ v ∈ walk program, ∃ b rest, v.node.label = b :: rest ∧ b ≠ blank) ∧
      (splitLines (dump program) =
          (walk program).map (fun v => blanks (2 * v.depth) ++ v.node.label) ++ [[]] ↔
        ∀ v ∈ walk program, ∀ name ∈ v.node.directiveName?, lineFeed ∉ name) := by
  refine ⟨dump_eq program, fun v _ => ?_, ?_⟩
  · have hflush := v.node.startsFlush_label
    cases hlabel : v.node.label with
    | nil =>
      rw [hlabel] at hflush
      cases hflush
    | cons b rest =>
      rw [hlabel] at hflush
      exact ⟨b, rest, rfl, of_decide_eq_true hflush⟩
  · have hlines : dump program = ((walk program).map Visit.text).flatMap (· ++ [lineFeed]) := by
      rw [dump_eq, List.flatMap_map]
    have hwords : ∀ v ∈ walk program, ∀ w ∈ v.node.ownWords, lineFeed ∉ w := by
      intro v hv w hw
      have hword := isWord_of_parseSource h (ownWords_subset_of_mem_walk hv hw)
      exact notMem_of_isWord hword (by decide) (by decide)
    have hblanks : ∀ n, lineFeed ∉ blanks n := by
      intro n hm
      exact absurd (List.eq_of_mem_replicate hm) (by decide)
    rw [hlines]
    refine (splitLines_flatMap_iff _).trans ?_
    rw [List.forall_mem_map]
    refine forall₂_congr fun v hv => ?_
    rw [← Node.lineFeed_notMem_label (hwords v hv), Visit.text, List.mem_append, not_or]
    exact and_iff_right (hblanks _)

/-- A function that calls another one with a string over two lines. -/
def callingText : Bytes := utf8 "void f() \x7b s('a\nb'); \x7d"

/-- The tokens of that text. -/
def callingTokens : List Token :=
  [⟨.keyword .void, utf8 "void", ⟨1, 1⟩⟩, ⟨.ident (utf8 "f"), utf8 "f", ⟨1, 6⟩⟩,
    ⟨.punct .openParen, utf8 "(", ⟨1, 7⟩⟩, ⟨.punct .closeParen, utf8 ")", ⟨1, 8⟩⟩,
    ⟨.punct .openBrace, utf8 "\x7b", ⟨1, 10⟩⟩, ⟨.ident (utf8 "s"), utf8 "s", ⟨1, 12⟩⟩,
    ⟨.punct .openParen, utf8 "(", ⟨1, 13⟩⟩, ⟨.string (utf8 "a\nb"), utf8 "'a\nb'", ⟨1, 14⟩⟩,
    ⟨.punct .closeParen, utf8 ")", ⟨2, 3⟩⟩, ⟨.punct .semicolon, utf8 ";", ⟨2, 4⟩⟩,
    ⟨.punct .closeBrace, utf8 "\x7d", ⟨2, 6⟩⟩, .eof ⟨2, 7⟩]

/-- The program of that text. -/
def callingProgram : List Stmt :=
  [.function ⟨[], utf8 "void", utf8 "f", .startingAt ⟨1, 1⟩⟩ []
    [.expr (.call (.ident (utf8 "s") (.startingAt ⟨1, 12⟩))
        [.string (utf8 "a\nb") (.startingAt ⟨1, 14⟩)] (.startingAt ⟨1, 12⟩))
      (.startingAt ⟨1, 12⟩)]
    (.startingAt ⟨1, 10⟩)]

/-- Its outline has six lines for six nodes. -/
theorem dump_lines_calling :
    parseSource {} callingText = .ok callingProgram ∧ (walk callingProgram).length = 6 ∧
      splitLines (dump callingProgram) =
        (walk callingProgram).map (fun v => blanks (2 * v.depth) ++ v.node.label) ++ [[]] := by
  have htokens : tokenize callingText = .ok callingTokens := by decide +kernel
  have h : parseSource {} callingText = .ok callingProgram := parseSource_of_read htokens rfl
  refine ⟨h, ?_, (dump_lines {} callingText _ h).2.2.mpr ?_⟩
  · rw [← List.length_map Visit.line, ← outline_eq_map_walk]
    rfl
  · intro v hv name hname
    simp only [walk, callingProgram, List.flatMap_cons, List.flatMap_nil, List.append_nil] at hv
    iterate 6
      rw [Node.walk_eq] at hv
      simp only [Node.children, List.map_cons, List.map_nil, List.flatMap_cons, List.flatMap_nil,
        List.append_nil, List.nil_append, List.cons_append] at hv
    simp only [List.mem_cons, List.not_mem_nil, or_false] at hv
    rcases hv with rfl | rfl | rfl | rfl | rfl | rfl <;> cases hname

/-- A directive with a line feed in its name is one node, and its outline has two lines. -/
theorem dump_directive_takes_two_lines :
    ∃ program, parseSource {} (utf8 "#[a\nb]") = .ok program ∧ (walk program).length = 1 ∧
      dump program = utf8 "Directive a\nb\n" := by
  have htokens : tokenize (utf8 "#[a\nb]") =
      .ok [⟨.attr (utf8 "a\nb"), utf8 "#[a\nb]", ⟨1, 1⟩⟩, .eof ⟨2, 3⟩] := by decide +kernel
  refine ⟨_, parseSource_of_read htokens rfl, ?_, rfl⟩
  rw [← List.length_map Visit.line, ← outline_eq_map_walk]
  rfl

end ShaderFront
