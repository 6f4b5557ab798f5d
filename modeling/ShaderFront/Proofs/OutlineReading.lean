import ShaderFront.Proofs.Labels

/-!
# Outlines determine programs

An outline does not say how many children a node has, but how deep each node lies: the
children of a node are the nodes one step deeper that come before the next node that is not
deeper than itself. So a row of nodes can be read back from its outline and whatever comes
after it at lesser depth, and the text of the outline gives the lines back, because no label
starts with a blank.

Only the stretches of text that nodes were read from are missing in an outline.
-/

namespace ShaderFront

/-! ## Lines of the text -/

/-- The line that a text stands for. -/
def Line.ofText (t : Bytes) : Line where
  depth := (t.takeWhile (· == blank)).length / 2
  label := t.dropWhile (· == blank)

/-- The entry of a node can be read back from its text. -/
theorem Visit.ofText_text (v : Visit) : Line.ofText v.text = v.line := by
  have hflush := v.node.startsFlush_label
  cases hlabel : v.node.label with
  | nil =>
    rw [hlabel] at hflush
    cases hflush
  | cons b rest =>
    rw [hlabel] at hflush
    have hb : (b == blank) = false := beq_eq_false_iff_ne.mpr (of_decide_eq_true hflush)
    have hblanks : ∀ c ∈ blanks (2 * v.depth), (c == blank) = true := by
      intro c hc
      exact beq_iff_eq.mpr (List.eq_of_mem_replicate hc)
    have htake : (b :: rest).takeWhile (· == blank) = [] :=
      List.takeWhile_cons_of_neg (by simp [hb])
    have hdrop : (b :: rest).dropWhile (· == blank) = b :: rest :=
      List.dropWhile_cons_of_neg (by simp [hb])
    rw [Visit.text, Visit.line, Line.ofText, hlabel, List.takeWhile_append_of_pos hblanks,
      List.dropWhile_append_of_pos hblanks, htake, hdrop, List.append_nil, length_blanks,
      Nat.mul_div_cancel_left _ (by decide)]

/-- The lines of a program can be read back from the text of its outline, if each of them
takes one line. -/
theorem outline_eq_map_ofText {program : List Stmt}
    (h : ∀ v ∈ walk program, lineFeed ∉ v.text) :
    outline program = (splitLines (dump program)).dropLast.map Line.ofText := by
  have hlines : dump program = ((walk program).map Visit.text).flatMap (· ++ [lineFeed]) := by
    rw [dump_eq, List.flatMap_map]
  have hsplit := (splitLines_flatMap_iff ((walk program).map Visit.text)).mpr
    (List.forall_mem_map.mpr h)
  have hmap : (walk program).map (Line.ofText ∘ Visit.text) = (walk program).map Visit.line :=
    List.map_congr_left fun v _ => v.ofText_text
  rw [hlines, hsplit, List.dropLast_concat, List.map_map, hmap, outline_eq_map_walk]

/-- The entries of a program that is read take one line each if the names of its directives
do. -/
theorem lineFeed_notMem_text_of_parseSource {o : Options} {source : Bytes} {program : List Stmt}
    (h : parseSource o source = .ok program)
    (hnames : ∀ v ∈ walk program, ∀ name ∈ v.node.directiveName?, lineFeed ∉ name) :
    ∀ v ∈ walk program, lineFeed ∉ v.text := by
  intro v hv
  have hwords : ∀ w ∈ v.node.ownWords, lineFeed ∉ w := by
    intro w hw
    have hword := isWord_of_parseSource h (ownWords_subset_of_mem_walk hv hw)
    exact notMem_of_isWord hword (by decide) (by decide)
  have hlabel : lineFeed ∉ v.node.label := (Node.lineFeed_notMem_label hwords).mpr (hnames v hv)
  have hblanks : lineFeed ∉ blanks (2 * v.depth) := by
    intro hm
    exact absurd (List.eq_of_mem_replicate hm) (by decide)
  rw [Visit.text, List.mem_append, not_or]
  exact ⟨hblanks, hlabel⟩

/-! ## Rows of nodes -/

/-- Do the lines go on at lesser depth, if they go on? -/
def EndsAt (depth : Nat) (rest : List Line) : Prop :=
  ∀ l ∈ rest.head?, l.depth < depth

/-- After a node other nodes of the same depth may come. -/
theorem EndsAt.append {depth : Nat} {rest : List Line} (h : EndsAt depth rest)
    (nodes : List Node) : EndsAt (depth + 1) (nodes.flatMap (Node.outline depth) ++ rest) := by
  cases nodes with
  | nil =>
    intro l hl
    have hlt := h l hl
    omega
  | cons n nodes =>
    rw [List.flatMap_cons, Node.outline_eq]
    rintro l ⟨⟩
    exact Nat.lt_succ_self depth

/-- The first line of a node is not one that comes after its siblings. -/
theorem EndsAt.ne_outline {depth : Nat} {rest : List Line} (h : EndsAt depth rest) (n : Node)
    (more : List Line) : rest ≠ n.outline depth ++ more := by
  rintro rfl
  rw [Node.outline_eq] at h
  exact Nat.lt_irrefl depth (h _ rfl)

/-- Does the outline of the node, with what comes after it, tell the node from all others? -/
def Node.IsReadBack (n : Node) : Prop :=
  ∀ {o : Options} {m : Node} {depth : Nat} {rest rest' : List Line}, m.IsPlain o →
    EndsAt (depth + 1) rest → EndsAt (depth + 1) rest' →
    n.outline depth ++ rest = m.outline depth ++ rest' → n.bare = m.bare ∧ rest = rest'

/-- A row of nodes that are read back is read back. -/
theorem map_bare_eq_of_outlines {o : Options} {nodes nodes' : List Node}
    (h : ∀ n ∈ nodes, n.IsReadBack) (h' : ∀ n ∈ nodes', n.IsPlain o) {depth : Nat}
    {rest rest' : List Line} (hr : EndsAt depth rest) (hr' : EndsAt depth rest')
    (heq : nodes.flatMap (Node.outline depth) ++ rest =
      nodes'.flatMap (Node.outline depth) ++ rest') :
    nodes.map Node.bare = nodes'.map Node.bare ∧ rest = rest' := by
  induction nodes generalizing nodes' with
  | nil =>
    cases nodes' with
    | nil => exact ⟨rfl, heq⟩
    | cons m nodes' =>
      rw [List.flatMap_cons, List.append_assoc] at heq
      exact absurd heq (hr.ne_outline m _)
  | cons n nodes ih =>
    obtain ⟨hn, hnodes⟩ := List.forall_mem_cons.mp h
    cases nodes' with
    | nil =>
      rw [List.flatMap_cons, List.append_assoc] at heq
      exact absurd heq.symm (hr'.ne_outline n _)
    | cons m nodes' =>
      obtain ⟨hm, hnodes'⟩ := List.forall_mem_cons.mp h'
      rw [List.flatMap_cons, List.flatMap_cons, List.append_assoc, List.append_assoc] at heq
      obtain ⟨hbare, hmore⟩ := hn hm (hr.append nodes) (hr'.append nodes') heq
      obtain ⟨hbares, hrest⟩ := ih hnodes hnodes' hmore
      exact ⟨by rw [List.map_cons, List.map_cons, hbare, hbares], hrest⟩

/-- A node of a program that is read from a text is read back from its outline. -/
theorem Node.IsPlain.isReadBack {o : Options} {n : Node} (h : n.IsPlain o) : n.IsReadBack := by
  induction n using Node.child_induction with
  | step n ih =>
    intro o' m depth rest rest' hm hr hr' heq
    have hrow : ∀ k : Node, (k.children.flatMap fun c => c.2.outline (depth + 1)) =
        (k.children.map Prod.snd).flatMap (Node.outline (depth + 1)) := by
      intro k
      rw [List.flatMap_map]
    rw [Node.outline_eq, Node.outline_eq, hrow, hrow] at heq
    obtain ⟨hline, hmore⟩ := List.cons.inj heq
    have hlabel : n.label = m.label := congrArg Line.label hline
    have hread : ∀ c ∈ n.children.map Prod.snd, c.IsReadBack :=
      List.forall_mem_map.mpr fun c hc => ih c hc (h.child hc)
    have hplain : ∀ c ∈ m.children.map Prod.snd, c.IsPlain o' :=
      List.forall_mem_map.mpr fun c hc => hm.child hc
    obtain ⟨hchildren, hrest⟩ := map_bare_eq_of_outlines hread hplain hr hr' hmore
    rw [List.map_map, List.map_map] at hchildren
    exact ⟨h.bare_eq_of_label hm hlabel hchildren, hrest⟩

/-! ## Programs -/

/-- The statements of a program that is read from a text are such. -/
theorem isPlain_of_parseSource {o : Options} {source : Bytes} {program : List Stmt}
    (h : parseSource o source = .ok program) {s : Stmt} (hs : s ∈ program) :
    (Node.stmt s).IsPlain o where
  formed := by
    obtain ⟨tokens, -, hparse⟩ := exists_tokens_of_parseSource h
    exact Stmt.areWellFormed_iff.mp (areWellFormed_of_parse hparse) s hs
  words w hw := by
    refine isWord_of_parseSource h ?_
    rw [words_eq_flatMap]
    exact List.mem_flatMap.mpr ⟨s, hs, hw⟩
  numbers x hx := isNaN_of_parseSource h (Stmt.surface_subset hs hx)

theorem outline_eq_flatMap (program : List Stmt) :
    outline program = (program.map Node.stmt).flatMap (Node.outline 0) := by
  rw [outline, Stmt.outlines_eq_flatMap, List.flatMap_map]
  rfl

theorem map_stmt_bare (program : List Stmt) :
    (bare program).map Node.stmt = (program.map Node.stmt).map Node.bare := by
  rw [bare_eq_map, List.map_map, List.map_map]
  rfl

/-- Programs that are read from texts and have the same outline differ only in stretches of
text. -/
theorem bare_eq_of_outline {o o' : Options} {source source' : Bytes} {program program' : List Stmt}
    (h : parseSource o source = .ok program) (h' : parseSource o' source' = .ok program')
    (heq : outline program = outline program') : bare program = bare program' := by
  have hread : ∀ n ∈ program.map Node.stmt, n.IsReadBack :=
    List.forall_mem_map.mpr fun s hs => (isPlain_of_parseSource h hs).isReadBack
  have hplain : ∀ n ∈ program'.map Node.stmt, n.IsPlain o' :=
    List.forall_mem_map.mpr fun s hs => isPlain_of_parseSource h' hs
  have hend : EndsAt 0 [] := by
    rintro l ⟨⟩
  have hrows : (program.map Node.stmt).flatMap (Node.outline 0) ++ [] =
      (program'.map Node.stmt).flatMap (Node.outline 0) ++ [] := by
    rw [← outline_eq_flatMap, ← outline_eq_flatMap, heq]
  obtain ⟨hbare, -⟩ := map_bare_eq_of_outlines hread hplain hend hend hrows
  rw [← map_stmt_bare, ← map_stmt_bare] at hbare
  exact List.map_injective_iff.mpr (fun _ _ hs => Node.stmt.inj hs) hbare

/-! ## Stretches of text -/

theorem Node.label_bare (n : Node) : n.bare.label = n.label := by
  cases n with
  | member m => rfl
  | stmt s => cases s <;> rfl
  | expr e => cases e <;> rfl

theorem Node.children_bare (n : Node) :
    n.bare.children = n.children.map fun c => (c.1, c.2.bare) := by
  cases n with
  | member m => rfl
  | stmt s =>
    cases s with
    | decl head init => cases init <;> rfl
    | _ =>
      simp [Node.bare, Stmt.bare, Node.children, bare_eq_map, Expr.bareAll_eq_map]
  | expr e =>
    cases e <;> simp [Node.bare, Expr.bare, Node.children, Expr.bareAll_eq_map]

/-- Stretches of text do not show in an outline. -/
theorem Node.outline_bare (n : Node) (depth : Nat) : n.bare.outline depth = n.outline depth := by
  induction n using Node.child_induction generalizing depth with
  | step n ih =>
    rw [Node.outline_eq, Node.outline_eq, Node.label_bare, Node.children_bare, List.flatMap_map,
      List.flatMap_def, List.flatMap_def, List.map_congr_left fun c hc => ih c hc (depth + 1)]

theorem dump_bare (program : List Stmt) : dump (bare program) = dump program := by
  have hnode : ∀ n : Node, n.bare.outline 0 = n.outline 0 := fun n => n.outline_bare 0
  rw [dump, dump, outline_eq_flatMap, outline_eq_flatMap, map_stmt_bare, List.flatMap_map]
  simp only [hnode]

/-- The text of the outline determines a program that is read from a text, up to the stretches
of text of its nodes, whatever the texts and the grammars are, unless a directive has a name
with a line feed in it. -/
theorem dump_eq_iff_bare_eq (o₁ o₂ : Options) (source₁ source₂ : Bytes)
    (program₁ program₂ : List Stmt) (h₁ : parseSource o₁ source₁ = .ok program₁)
    (h₂ : parseSource o₂ source₂ = .ok program₂)
    (hnames₁ : ∀ v ∈ walk program₁, ∀ name ∈ v.node.directiveName?, lineFeed ∉ name)
    (hnames₂ : ∀ v ∈ walk program₂, ∀ name ∈ v.node.directiveName?, lineFeed ∉ name) :
    dump program₁ = dump program₂ ↔ bare program₁ = bare program₂ := by
  constructor
  · intro h
    have hlines₁ := outline_eq_map_ofText (lineFeed_notMem_text_of_parseSource h₁ hnames₁)
    have hlines₂ := outline_eq_map_ofText (lineFeed_notMem_text_of_parseSource h₂ hnames₂)
    rw [h, ← hlines₂] at hlines₁
    exact bare_eq_of_outline h₁ h₂ hlines₁
  · intro h
    rw [← dump_bare program₁, h, dump_bare]

/-- A directive, a struct with a member, and a product with a field of the same name, in one
line. -/
def productTokens (number : Bytes) (columns : List Nat) : List Token :=
  List.zipWith (fun (s : Symbol × Bytes) column => ⟨s.1, s.2, ⟨1, column⟩⟩)
    [(.attr (utf8 "k"), utf8 "#[k]"), (.keyword .struct, utf8 "struct"),
      (.ident (utf8 "a"), utf8 "a"), (.punct .openBrace, utf8 "\x7b"),
      (.ident (utf8 "b"), utf8 "b"), (.punct .colon, utf8 ":"), (.ident (utf8 "T"), utf8 "T"),
      (.punct .semicolon, utf8 ";"), (.punct .closeBrace, utf8 "\x7d"),
      (.ident (utf8 "a"), utf8 "a"), (.punct .colon, utf8 ":"), (.ident (utf8 "b"), utf8 "b"),
      (.operator .times, utf8 "*"), (.number ⟨0x3ff8000000000000⟩, number),
      (.punct .semicolon, utf8 ";"), (.eof, [])] columns

/-- The program of these tokens, given the columns where its nodes start. -/
def productProgram (struct member product factor : Nat) : List Stmt :=
  [.directive (utf8 "k") [] (.startingAt ⟨1, 1⟩),
    .struct [] (utf8 "a") [⟨utf8 "b", utf8 "T", .startingAt ⟨1, member⟩⟩]
      (.startingAt ⟨1, struct⟩),
    .expr (.binary .times (.member (utf8 "a") (utf8 "b") (.startingAt ⟨1, product⟩))
        (.number ⟨0x3ff8000000000000⟩ (.startingAt ⟨1, factor⟩)) (.startingAt ⟨1, product⟩))
      (.startingAt ⟨1, product⟩)]

theorem directiveName_productProgram (struct member product factor : Nat) :
    ∀ v ∈ walk (productProgram struct member product factor),
      ∀ name ∈ v.node.directiveName?, lineFeed ∉ name := by
  intro v hv name hname
  simp only [walk, productProgram, List.flatMap_cons, List.flatMap_nil, List.append_nil] at hv
  iterate 7
    rw [Node.walk_eq] at hv
    simp only [Node.children, List.map_cons, List.map_nil, List.flatMap_cons, List.flatMap_nil,
      List.append_nil, List.nil_append, List.cons_append] at hv
  simp only [List.mem_cons, List.not_mem_nil, or_false] at hv
  rcases hv with rfl | rfl | rfl | rfl | rfl | rfl | rfl <;> cases hname
  decide

/-- Blanks, a trailing zero and the extensions of the grammar do not show. -/
theorem dump_eq_iff_bare_eq_product :
    parseSource {} (utf8 "#[k] struct a\x7bb:T;\x7d a:b*1.50;") =
        .ok (productProgram 6 15 21 25) ∧
      parseSource ⟨true, true, true⟩ (utf8 "#[k]struct a \x7b b : T; \x7da:b * 1.5;") =
        .ok (productProgram 5 16 24 30) ∧
      dump (productProgram 6 15 21 25) = dump (productProgram 5 16 24 30) ∧
      bare (productProgram 6 15 21 25) = bare (productProgram 5 16 24 30) := by
  have htokens₁ : tokenize (utf8 "#[k] struct a\x7bb:T;\x7d a:b*1.50;") =
      .ok (productTokens (utf8 "1.50")
        [1, 6, 13, 14, 15, 16, 17, 18, 19, 21, 22, 23, 24, 25, 29, 30]) := by
    decide +kernel
  have htokens₂ : tokenize (utf8 "#[k]struct a \x7b b : T; \x7da:b * 1.5;") =
      .ok (productTokens (utf8 "1.5")
        [1, 5, 12, 14, 16, 18, 20, 21, 23, 24, 25, 26, 28, 30, 33, 34]) := by
    decide +kernel
  have h₁ : parseSource {} _ = .ok (productProgram 6 15 21 25) := parseSource_of_read htokens₁ rfl
  have h₂ : parseSource ⟨true, true, true⟩ _ = .ok (productProgram 5 16 24 30) :=
    parseSource_of_read htokens₂ rfl
  have hdump : dump (productProgram 6 15 21 25) = dump (productProgram 5 16 24 30) := rfl
  have hnames := directiveName_productProgram
  exact ⟨h₁, h₂, hdump,
    (dump_eq_iff_bare_eq _ _ _ _ _ _ h₁ h₂ (hnames 6 15 21 25) (hnames 5 16 24 30)).mp hdump⟩

end ShaderFront
