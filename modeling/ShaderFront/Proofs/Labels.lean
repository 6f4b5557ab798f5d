import ShaderFront.Proofs.NumberLiterals
import ShaderFront.Proofs.NumberTexts
import ShaderFront.Proofs.Outlines
import ShaderFront.Proofs.QuotedTexts

/-!
# What a label says

The label of a node starts with a title that says what kind of node it is, and goes on with
what the node holds besides its children. No title starts another one, and what comes after a
title can be read in one way only, because names and types are words, strings are quoted, and
numbers are written so that they can be told apart. So the label and the children of a node
determine it, apart from the stretch of text that it was read from.

A member of a struct and a field of a container have the same title. The blank before the type
of the former tells them apart.
-/

namespace ShaderFront

/-! ## Words that start no other -/

/-- Does none of the words start another one? -/
def arePrefixFree {α : Type} [DecidableEq α] (word : α → Bytes) (all : List α) : Bool :=
  all.all fun a => all.all fun b => !(word a).isPrefixOf (word b) || decide (a = b)

/-- Then a text starts with one of them at most. -/
theorem eq_of_arePrefixFree {α : Type} [DecidableEq α] {word : α → Bytes} {all : List α}
    (h : arePrefixFree word all = true) {a b : α} (ha : a ∈ all) (hb : b ∈ all) {s t : Bytes}
    (ht : word a ++ s = word b ++ t) : a = b := by
  have hfree : ∀ {a b : α}, a ∈ all → b ∈ all → word a <+: word b → a = b := by
    intro a b ha hb hpre
    have hpair := List.all_eq_true.mp (List.all_eq_true.mp h a ha) b hb
    rw [List.isPrefixOf_iff_prefix.mpr hpre] at hpair
    exact of_decide_eq_true hpair
  have hleft : word a <+: word a ++ s := List.prefix_append _ _
  have hright : word b <+: word a ++ s := by
    rw [ht]
    exact List.prefix_append _ _
  rcases List.prefix_or_prefix_of_prefix hleft hright with hpre | hpre
  · exact hfree ha hb hpre
  · exact (hfree hb ha hpre).symm

/-! ## Titles -/

/-- The kinds of nodes that labels tell apart by their first word. -/
inductive Title where
  | openStmt | exprStmt | cond | block | decl | directive | function | struct
  | openExpr | binary | unary | bool | number | string | ident | paren | member | call | construct
  deriving DecidableEq, Repr

namespace Title

/-- The text of a title, with the blank after it if more follows. -/
def text : Title → String
  | openStmt => "<unknown statement <nil>>"
  | exprStmt => "Expr"
  | cond => "If"
  | block => "Block"
  | decl => "Decl "
  | directive => "Directive "
  | function => "Function "
  | struct => "Struct "
  | openExpr => "<unknown expression <nil>>"
  | binary => "Binary "
  | unary => "Unary "
  | bool => "Bool "
  | number => "Number "
  | string => "String "
  | ident => "Ident "
  | paren => "Paren"
  | member => "Member "
  | call => "Call"
  | construct => "Construct "

/-- All titles. -/
def all : List Title :=
  [openStmt, exprStmt, cond, block, decl, directive, function, struct, openExpr, binary, unary,
    bool, number, string, ident, paren, member, call, construct]

theorem mem_all (k : Title) : k ∈ all := by
  cases k <;> decide

/-- No title starts another one. -/
theorem arePrefixFree_text : arePrefixFree (fun k : Title => utf8 k.text) all = true := by
  decide +kernel

/-- What a node holds besides its children. -/
def Data : Title → Type
  | decl | function => Head
  | directive | struct | string | ident | construct => Bytes
  | binary | unary => Operator
  | bool => Bool
  | number => Binary64
  -- Whether it is a member of a struct, and its two words.
  | member => Bool × Bytes × Bytes
  | openStmt | exprStmt | cond | block | openExpr | paren | call => Unit

/-- How it is written after the title. -/
def dataText : (k : Title) → k.Data → Bytes
  | decl, head => Head.text head
  | function, head => Head.text head ++ utf8 "()"
  | directive, name | struct, name | ident, name | construct, name => name
  | string, value => quoted value
  | binary, op | unary, op => utf8 (Operator.spelling op)
  | bool, true => utf8 "true"
  | bool, false => utf8 "false"
  | number, value => Binary64.text value
  | member, (true, name, type) => name ++ 0x3a :: blank :: type
  | member, (false, container, field) => container ++ 0x3a :: field
  | openStmt, _ | exprStmt, _ | cond, _ | block, _ | openExpr, _ | paren, _ | call, _ => []

/-- Is it such as a program that is read from a text can have? -/
def IsPlain : (k : Title) → k.Data → Prop
  | decl, head | function, head => Head.HasShape head ∧ Head.span head = .nowhere
  | binary, op | unary, op => Operator.level? op ≠ none ∨ op = Operator.not
  | number, value => Binary64.isNaN value = false
  | member, (_, first, second) => isWord first = true ∧ isWord second = true
  | _, _ => True

end Title

/-! ## Reading what comes after a title -/

/-- The operators that programs are written with. -/
def Operator.written : List Operator :=
  [.assign, .or, .and, .equals, .notEquals, .greater, .greaterEqual, .less, .lessEqual, .plus,
    .minus, .times, .divide, .mod, .not]

/-- An operator with a number of its own is known by its spelling. -/
theorem Operator.find?_spelling {op : Operator} (h : op.code ≤ Operator.not.code) :
    (empty :: written).find? (fun x => utf8 x.spelling = utf8 op.spelling) = some op := by
  cases op with
  | unassigned n =>
    simp only [Operator.code] at h
    omega
  | _ => decide

theorem Operator.eq_of_spelling {op op' : Operator} (h : op.code ≤ Operator.not.code)
    (h' : op'.code ≤ Operator.not.code) (hs : utf8 op.spelling = utf8 op'.spelling) :
    op = op' := by
  have hfind := find?_spelling h
  rw [hs, find?_spelling h'] at hfind
  exact (Option.some.inj hfind).symm

/-- Those that programs are written with have one. -/
theorem Operator.code_le_of_level? {op : Operator} (h : op.level? ≠ none ∨ op = .not) :
    op.code ≤ Operator.not.code := by
  cases op with
  | unassigned n => simp [Operator.level?] at h
  | _ => decide

theorem blank_notMem_of_isWord {w : Bytes} (h : isWord w = true) : blank ∉ w :=
  notMem_of_isWord h (by decide) (by decide)

theorem colon_notMem_of_isWord {w : Bytes} (h : isWord w = true) : (0x3a : UInt8) ∉ w :=
  notMem_of_isWord h (by decide) (by decide)

/-- The type of a declaration is a word, and not the word of a modifier. -/
theorem Head.HasShape.type {h : Head} (hs : h.HasShape) : blank ∉ h.type ∧ h.type ≠ utf8 "in" := by
  have htype := hs.2
  simp only [List.mem_cons, List.not_mem_nil, or_false] at htype
  rcases htype with ht | ht | ht | ht <;> rw [ht] <;> decide

/-- Modifiers, type and name can be told from their text. -/
theorem Head.eq_of_text {h h' : Head} (hs : h.HasShape) (hs' : h'.HasShape)
    (ht : h.text = h'.text) : h.modifiers = h'.modifiers ∧ h.type = h'.type ∧ h.name = h'.name := by
  obtain ⟨hblank, hin⟩ := hs.type
  obtain ⟨hblank', hin'⟩ := hs'.type
  have hblankIn : blank ∉ utf8 "in" := by decide
  have hplain : ∀ k : Head, k.modifiers = [] → k.text = k.type ++ blank :: k.name := by
    intro k hk
    simp [Head.text, hk]
  have hinput : ∀ k : Head, k.modifiers = [.input] →
      k.text = utf8 "in" ++ blank :: (k.type ++ blank :: k.name) := by
    intro k hk
    simp [Head.text, hk, Modifier.spelling]
  -- The first word is `in` if there is a modifier, and the type if there is none.
  rcases hs.1 with hm | hm <;> rcases hs'.1 with hm' | hm'
  · rw [hplain h hm, hplain h' hm'] at ht
    obtain ⟨htype, hname⟩ := eq_of_separated hblank hblank' ht
    exact ⟨hm.trans hm'.symm, htype, hname⟩
  · rw [hplain h hm, hinput h' hm'] at ht
    exact absurd (eq_of_separated hblank hblankIn ht).1 hin
  · rw [hinput h hm, hplain h' hm'] at ht
    exact absurd (eq_of_separated hblankIn hblank' ht).1.symm hin'
  · rw [hinput h hm, hinput h' hm'] at ht
    obtain ⟨-, hrest⟩ := eq_of_separated hblankIn hblankIn ht
    obtain ⟨htype, hname⟩ := eq_of_separated hblank hblank' hrest
    exact ⟨hm.trans hm'.symm, htype, hname⟩

namespace Title

/-- Two heads without stretches of text are the same if they have the same text. -/
theorem head_eq_of_text {k k' : Head} (h : k.HasShape ∧ k.span = .nowhere)
    (h' : k'.HasShape ∧ k'.span = .nowhere) (ht : k.text = k'.text) : k = k' := by
  obtain ⟨hmodifiers, htype, hname⟩ := Head.eq_of_text h.1 h'.1 ht
  obtain ⟨modifiers, type, name, span⟩ := k
  obtain ⟨modifiers', type', name', span'⟩ := k'
  obtain rfl : span = .nowhere := h.2
  obtain rfl : span' = .nowhere := h'.2
  simp_all

/-- What comes after a title can be read in one way only. -/
theorem eq_of_dataText {k : Title} {d d' : k.Data} (h : k.IsPlain d) (h' : k.IsPlain d')
    (ht : k.dataText d = k.dataText d') : d = d' := by
  cases k with
  | openStmt | exprStmt | cond | block | openExpr | paren | call => rfl
  | directive | struct | ident | construct => exact ht
  | decl => exact head_eq_of_text h h' ht
  | function => exact head_eq_of_text h h' (List.append_cancel_right ht)
  | string => exact quoted_injective ht
  | binary | unary =>
    exact Operator.eq_of_spelling (Operator.code_le_of_level? h) (Operator.code_le_of_level? h') ht
  | bool => cases d <;> cases d' <;> first | rfl | exact absurd ht (by decide)
  | number => exact Binary64.text_injective h h' ht
  | member =>
    obtain ⟨ofStruct, first, second⟩ := d
    obtain ⟨ofStruct', first', second'⟩ := d'
    have hcolon : (0x3a : UInt8) ∉ first := colon_notMem_of_isWord h.1
    have hcolon' : (0x3a : UInt8) ∉ first' := colon_notMem_of_isWord h'.1
    have hblank : blank ∉ second := blank_notMem_of_isWord h.2
    have hblank' : blank ∉ second' := blank_notMem_of_isWord h'.2
    -- Only the type of a member of a struct has a blank before it.
    cases ofStruct <;> cases ofStruct' <;>
      obtain ⟨rfl, hsecond⟩ := eq_of_separated hcolon hcolon' ht
    · rw [hsecond]
    · rw [hsecond] at hblank
      exact absurd List.mem_cons_self hblank
    · rw [← hsecond] at hblank'
      exact absurd List.mem_cons_self hblank'
    · rw [(List.cons.inj hsecond).2]

end Title

/-! ## Faces -/

/-- A node without its children. -/
structure Face where
  /-- The kind of node. -/
  title : Title
  /-- What it holds besides its children. -/
  data : title.Data

/-- The label of a node with this face. -/
def Face.text (f : Face) : Bytes :=
  utf8 f.title.text ++ f.title.dataText f.data

/-- Is the face such as a node of a program that is read from a text can have? -/
def Face.IsPlain (f : Face) : Prop :=
  f.title.IsPlain f.data

/-- A face is known by its text. -/
theorem Face.eq_of_text {f f' : Face} (h : f.IsPlain) (h' : f'.IsPlain) (ht : f.text = f'.text) :
    f = f' := by
  obtain ⟨title, data⟩ := f
  obtain ⟨title', data'⟩ := f'
  obtain rfl : title = title' :=
    eq_of_arePrefixFree Title.arePrefixFree_text title.mem_all title'.mem_all ht
  have hdata : data = data' := Title.eq_of_dataText h h' (List.append_cancel_left ht)
  rw [hdata]

/-- The face of a node. -/
def Node.face : Node → Face
  | .stmt .hole => ⟨.openStmt, ()⟩
  | .stmt (.expr _ _) => ⟨.exprStmt, ()⟩
  | .stmt (.cond _ _ _) => ⟨.cond, ()⟩
  | .stmt (.block _ _) => ⟨.block, ()⟩
  | .stmt (.decl head _) => ⟨.decl, head.bare⟩
  | .stmt (.directive name _ _) => ⟨.directive, name⟩
  | .stmt (.function head _ _ _) => ⟨.function, head.bare⟩
  | .stmt (.struct _ name _ _) => ⟨.struct, name⟩
  | .expr .hole => ⟨.openExpr, ()⟩
  | .expr (.binary op _ _ _) => ⟨.binary, op⟩
  | .expr (.unary op _ _) => ⟨.unary, op⟩
  | .expr (.bool value _) => ⟨.bool, value⟩
  | .expr (.number value _) => ⟨.number, value⟩
  | .expr (.string value _) => ⟨.string, value⟩
  | .expr (.ident name _) => ⟨.ident, name⟩
  | .expr (.paren _ _) => ⟨.paren, ()⟩
  | .expr (.member container field _) => ⟨.member, (false, container, field)⟩
  | .expr (.call _ _ _) => ⟨.call, ()⟩
  | .expr (.construct type _ _) => ⟨.construct, type⟩
  | .member m => ⟨.member, (true, m.name, m.type)⟩

/-! ## Nodes from faces and children -/

/-- The node without the stretches of text of it and all below it. -/
def Node.bare : Node → Node
  | .stmt s => .stmt s.bare
  | .expr e => .expr e.bare
  | .member m => .member m.bare

/-- The statement that a node is. -/
def Node.stmt? : Node → Option Stmt
  | .stmt s => some s
  | _ => none

/-- The expression that a node is. -/
def Node.expr? : Node → Option Expr
  | .expr e => some e
  | _ => none

/-- The member of a struct that a node is. -/
def Node.member? : Node → Option Member
  | .member m => some m
  | _ => none

/-- The node with the given face and children, and no stretches of text. -/
def Face.node : Face → List Node → Node
  | ⟨.exprStmt, _⟩, [.expr value] => .stmt (.expr value .nowhere)
  | ⟨.cond, _⟩, [.expr condition, .stmt body] => .stmt (.cond condition body .nowhere)
  | ⟨.block, _⟩, children => .stmt (.block (children.filterMap Node.stmt?) .nowhere)
  | ⟨.decl, head⟩, children => .stmt (.decl head (children.filterMap Node.expr?).head?)
  | ⟨.directive, name⟩, _ => .stmt (.directive name [] .nowhere)
  | ⟨.function, head⟩, [.stmt (.block body _)] => .stmt (.function head [] body .nowhere)
  | ⟨.struct, name⟩, children =>
    .stmt (.struct [] name (children.filterMap Node.member?) .nowhere)
  | ⟨.binary, op⟩, [.expr left, .expr right] => .expr (.binary op left right .nowhere)
  | ⟨.unary, op⟩, [.expr operand] => .expr (.unary op operand .nowhere)
  | ⟨.bool, value⟩, _ => .expr (.bool value .nowhere)
  | ⟨.number, value⟩, _ => .expr (.number value .nowhere)
  | ⟨.string, value⟩, _ => .expr (.string value .nowhere)
  | ⟨.ident, name⟩, _ => .expr (.ident name .nowhere)
  | ⟨.paren, _⟩, [.expr inner] => .expr (.paren inner .nowhere)
  | ⟨.member, (true, name, type)⟩, _ => .member ⟨name, type, .nowhere⟩
  | ⟨.member, (false, container, field)⟩, _ => .expr (.member container field .nowhere)
  | ⟨.call, _⟩, .expr callee :: args => .expr (.call callee (args.filterMap Node.expr?) .nowhere)
  | ⟨.construct, type⟩, args => .expr (.construct type (args.filterMap Node.expr?) .nowhere)
  | ⟨.openExpr, _⟩, _ => .expr .hole
  | _, _ => .stmt .hole

theorem bare_eq_map (ss : List Stmt) : bare ss = ss.map Stmt.bare := by
  induction ss with
  | nil => rfl
  | cons s ss ih => rw [bare, ih, List.map_cons]

/-- Children of one sort are found among all children. -/
theorem filterMap_bare_children {α : Type} {child : α → Role × Node} {sort? : Node → Option α}
    {bare : α → α} (h : ∀ a, sort? (child a).2.bare = some (bare a)) (l : List α) :
    ((l.map child).map fun c => c.2.bare).filterMap sort? = l.map bare := by
  induction l with
  | nil => rfl
  | cons a l ih =>
    rw [List.map_cons, List.map_cons, List.filterMap_cons_some (h a), ih, List.map_cons]

theorem filterMap_bare_stmts (role : Role) (ss : List Stmt) :
    ((ss.map fun s => (role, Node.stmt s)).map fun c => c.2.bare).filterMap Node.stmt? =
      ss.map Stmt.bare :=
  @filterMap_bare_children Stmt _ _ _ (fun _ => rfl) ss

theorem filterMap_bare_exprs (role : Role) (es : List Expr) :
    ((es.map fun e => (role, Node.expr e)).map fun c => c.2.bare).filterMap Node.expr? =
      es.map Expr.bare :=
  @filterMap_bare_children Expr _ _ _ (fun _ => rfl) es

theorem filterMap_bare_members (ms : List Member) :
    ((ms.map fun m => (Role.member, Node.member m)).map fun c => c.2.bare).filterMap
      Node.member? = ms.map Member.bare :=
  @filterMap_bare_children Member _ _ _ (fun _ => rfl) ms

/-! ## Nodes of programs that are read -/

/-- A node such as a program that is read from a text can have, with all below it. -/
structure Node.IsPlain (o : Options) (n : Node) : Prop where
  /-- It is well formed. -/
  formed : n.isWellFormed o = true
  /-- Its names and types are words. -/
  words : ∀ w ∈ n.words, isWord w = true
  /-- Its numbers are numbers. -/
  numbers : ∀ x, Piece.number x ∈ n.surface → x.isNaN = false

namespace Node.IsPlain

variable {o : Options} {n : Node}

/-- So are its children. -/
theorem child (h : n.IsPlain o) {c : Role × Node} (hc : c ∈ n.children) : c.2.IsPlain o where
  formed := isWellFormed_children h.formed c hc
  words w hw := by
    refine h.words w ?_
    rw [words_eq]
    exact List.mem_append_right _ (List.mem_flatMap.mpr ⟨c, hc, hw⟩)
  numbers x hx := h.numbers x (surface_subset h.formed hc hx)

theorem ownWords (h : n.IsPlain o) : ∀ w ∈ n.ownWords, isWord w = true := by
  intro w hw
  refine h.words w ?_
  rw [words_eq]
  exact List.mem_append_left _ hw

/-- Its face can be read from its label. -/
theorem face (h : n.IsPlain o) : n.face.IsPlain := by
  have hshape := hasShape_of_isWellFormed h.formed
  have hwords := h.ownWords
  cases n with
  | member m =>
    exact ⟨hwords _ List.mem_cons_self, hwords _ (List.mem_cons_of_mem _ List.mem_cons_self)⟩
  | stmt s =>
    cases s with
    | decl head init => exact ⟨hshape, rfl⟩
    | function head params body span => exact ⟨hshape.1, rfl⟩
    | _ => trivial
  | expr e =>
    cases e with
    | binary op left right span =>
      obtain ⟨level, hlevel, -⟩ := hshape
      have hsome : op.level? ≠ none := by
        rw [hlevel]
        exact Option.some_ne_none level
      exact .inl hsome
    | unary op operand span =>
      rcases hshape.1 with rfl | rfl
      · exact .inr rfl
      · exact .inl (by decide : Operator.minus.level? ≠ none)
    | number value span => exact h.numbers value List.mem_cons_self
    | member container field span =>
      exact ⟨hwords _ List.mem_cons_self, hwords _ (List.mem_cons_of_mem _ List.mem_cons_self)⟩
    | _ => trivial

/-- Its label is the text of its face. -/
theorem label_eq (h : n.IsPlain o) : n.label = n.face.text := by
  have hshape := hasShape_of_isWellFormed h.formed
  cases n with
  | member m =>
    have hmark : utf8 ": " ++ m.type = 0x3a :: blank :: m.type := rfl
    simp only [label, Member.label, List.append_assoc, hmark]
    rfl
  | stmt s =>
    cases s with
    | expr _ _ | cond _ _ _ | block _ _ => exact (List.append_nil _).symm
    | function head params body span =>
      have hparens : utf8 "(" ++ (commaSeparated [] ++ utf8 ")") = utf8 "()" := rfl
      simp only [label, Stmt.label, hshape.2, List.append_assoc, hparens]
      rfl
    | _ => rfl
  | expr e =>
    cases e with
    | paren _ _ | call _ _ _ => exact (List.append_nil _).symm
    | bool value span => cases value <;> rfl
    | member container field span =>
      have hmark : utf8 ":" ++ field = 0x3a :: field := rfl
      simp only [label, Expr.label, List.append_assoc, hmark]
      rfl
    | _ => rfl

/-- It has nothing but its face, its children and stretches of text. -/
theorem bare_eq (h : n.IsPlain o) : n.bare = n.face.node (n.children.map fun c => c.2.bare) := by
  have hshape := hasShape_of_isWellFormed h.formed
  cases n with
  | member m => rfl
  | stmt s =>
    cases s with
    | hole | expr _ _ | cond _ _ _ => rfl
    | block body span =>
      have hbody := filterMap_bare_stmts .statement body
      rw [← bare_eq_map] at hbody
      exact congrArg (fun ss => Node.stmt (.block ss .nowhere)) hbody.symm
    | decl head init => cases init <;> rfl
    | directive name params span =>
      simp only [Node.bare, Stmt.bare, show params = [] from hshape]
      rfl
    | function head params body span =>
      simp only [Node.bare, Stmt.bare, hshape.2]
      rfl
    | struct attr name members span =>
      rw [hshape.1]
      have hmembers := filterMap_bare_members members
      exact congrArg (fun ms => Node.stmt (.struct [] name ms .nowhere)) hmembers.symm
  | expr e =>
    cases e with
    | call callee args span =>
      have hargs := filterMap_bare_exprs .arg args
      rw [← Expr.bareAll_eq_map] at hargs
      exact congrArg (fun es => Node.expr (.call callee.bare es .nowhere)) hargs.symm
    | construct type args span =>
      have hargs := filterMap_bare_exprs .arg args
      rw [← Expr.bareAll_eq_map] at hargs
      exact congrArg (fun es => Node.expr (.construct type es .nowhere)) hargs.symm
    | _ => rfl

/-- A node is determined by its label and its children, apart from stretches of text. -/
theorem bare_eq_of_label {o' : Options} {n' : Node} (h : n.IsPlain o) (h' : n'.IsPlain o')
    (hlabel : n.label = n'.label)
    (hchildren : n.children.map (fun c => c.2.bare) = n'.children.map fun c => c.2.bare) :
    n.bare = n'.bare := by
  rw [h.label_eq, h'.label_eq] at hlabel
  rw [h.bare_eq, h'.bare_eq, Face.eq_of_text h.face h'.face hlabel, hchildren]

end Node.IsPlain

end ShaderFront
