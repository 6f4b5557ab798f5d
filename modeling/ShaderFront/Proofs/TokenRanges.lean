import ShaderFront.Proofs.Expressions
import ShaderFront.Proofs.Lossless
import ShaderFront.Proofs.Members

/-!
# The tokens of a node

Every node is read from a range of tokens. It starts where the first of them stands, its
children take ranges inside its own, one after the other, and the tokens of the range are
those that the node is written with.

While a node is being read, the same holds of the part of it that is there. Each token
goes to the end of the innermost unfinished node, and when that is complete, its range is
all that lies between its first token and this one. So the ranges never have to be
recorded: they can be told from what is unfinished.
-/

namespace ShaderFront

/-! ## Ranges in a row -/

/-- The items take ranges between two indices, one after the other in this order. There may
be gaps before, between and after them. -/
inductive InOrder {α : Type} (R : α → Nat → Nat → Prop) : List α → Nat → Nat → Prop
  /-- No item takes anything. -/
  | nil {i j : Nat} (h : i ≤ j) : InOrder R [] i j
  /-- An item takes the range from `a` up to `b`, and the others lie behind it. -/
  | cons {x : α} {xs : List α} {i a b j : Nat} (hi : i ≤ a) (hx : R x a b)
    (hxs : InOrder R xs b j) : InOrder R (x :: xs) i j

/-- The items take ranges between two indices, one right after the other in this order, and
leave nothing out. -/
inductive Tiles {α : Type} (R : α → Nat → Nat → Prop) : List α → Nat → Nat → Prop
  /-- No item, and nothing to take. -/
  | nil {i : Nat} : Tiles R [] i i
  /-- An item takes the range up to where the others start. -/
  | cons {x : α} {xs : List α} {i j k : Nat} (hx : R x i j) (hxs : Tiles R xs j k) :
    Tiles R (x :: xs) i k

section

variable {α : Type} {R : α → Nat → Nat → Prop} {x : α} {xs ys : List α} {i j k : Nat}

/-- More room behind the items changes nothing. -/
theorem InOrder.mono (h : InOrder R xs i j) (hjk : j ≤ k) : InOrder R xs i k := by
  induction h with
  | nil hij => exact .nil (Nat.le_trans hij hjk)
  | cons hi hx _ ih => exact .cons hi hx (ih hjk)

/-- An item goes behind the others. -/
theorem InOrder.concat (h : InOrder R xs i j) (hx : R x j k) (hjk : j ≤ k) :
    InOrder R (xs ++ [x]) i k := by
  induction h with
  | nil hij => exact .cons hij hx (.nil (Nat.le_refl k))
  | cons hi hy _ ih => exact .cons hi hy (ih hx hjk)

/-- Items that are left out at the end leave room behind. -/
theorem InOrder.of_append (h : InOrder R (xs ++ ys) i j) (hR : ∀ {x a b}, R x a b → a ≤ b) :
    InOrder R xs i j := by
  have le : ∀ {zs : List α} {i j : Nat}, InOrder R zs i j → i ≤ j := by
    intro zs i j h
    induction h with
    | nil hij => exact hij
    | cons hi hx _ ih => exact Nat.le_trans hi (Nat.le_trans (hR hx) ih)
  induction xs generalizing i with
  | nil => exact .nil (le h)
  | cons x xs ih =>
    cases h with
    | cons hi hx hxs => exact .cons hi hx (ih hxs)

/-- An item goes right behind the others. -/
theorem Tiles.concat (h : Tiles R xs i j) (hx : R x j k) : Tiles R (xs ++ [x]) i k := by
  induction h with
  | nil => exact .cons hx .nil
  | cons hy _ ih => exact .cons hy (ih hx)

end

/-- The tokens from one index up to another spell the pieces. -/
structure SpellsAt (ts : List Token) (pieces : List Piece) (i j : Nat) : Prop where
  /-- The first index is not behind the second one. -/
  le : i ≤ j
  /-- The second index is not behind the last token. -/
  le_length : j ≤ ts.length
  /-- The tokens between them spell the pieces. -/
  spells : Spells pieces (ts.extract i j)

/-- Two ranges that meet are one range. -/
theorem extract_append_extract (ts : List Token) {i m j : Nat} (hi : i ≤ m) (hj : m ≤ j) :
    ts.extract i m ++ ts.extract m j = ts.extract i j := by
  have hsize : j - i = (m - i) + (j - m) := by omega
  have hstart : i + (m - i) = m := by omega
  simp only [List.extract_eq_take_drop]
  rw [hsize, List.take_add, List.drop_drop, hstart]

/-- The range of a single token. -/
theorem extract_succ {ts : List Token} {i : Nat} {t : Token} (h : ts[i]? = some t) :
    ts.extract i (i + 1) = [t] := by
  obtain ⟨hi, ht⟩ := List.getElem?_eq_some_iff.mp h
  have hsize : i + 1 - i = 1 := by omega
  rw [List.extract_eq_take_drop, hsize, List.drop_eq_getElem_cons hi, ht]
  rfl

namespace SpellsAt

variable {ts : List Token} {ps qs : List Piece} {p : Piece} {t : Token} {i m j : Nat}

theorem append (h : SpellsAt ts ps i m) (h' : SpellsAt ts qs m j) :
    SpellsAt ts (ps ++ qs) i j := by
  refine ⟨Nat.le_trans h.le h'.le, h'.le_length, ?_⟩
  rw [← extract_append_extract ts h.le h'.le]
  exact spells_append.mpr ⟨_, _, rfl, h.spells, h'.spells⟩

theorem nil (h : i ≤ ts.length) : SpellsAt ts [] i i := by
  refine ⟨Nat.le_refl i, h, spells_nil.mpr ?_⟩
  simp

/-- Pieces take tokens. -/
theorem lt (h : SpellsAt ts ps i j) (hne : ps ≠ []) : i < j := by
  refine Nat.lt_of_le_of_ne h.le fun he => hne ?_
  have hspells := h.spells
  rw [he, List.extract_eq_take_drop, Nat.sub_self, List.take_zero] at hspells
  exact List.forall₂_nil_right_iff.mp hspells

theorem single (ht : ts[i]? = some t) (hp : p.fits t.symbol = true) :
    SpellsAt ts [p] i (i + 1) := by
  obtain ⟨hi, -⟩ := List.getElem?_eq_some_iff.mp ht
  refine ⟨Nat.le_succ i, hi, ?_⟩
  rw [extract_succ ht]
  exact spells_singleton.mpr ⟨t, rfl, hp⟩

theorem concat (h : SpellsAt ts ps i j) (ht : ts[j]? = some t) (hp : p.fits t.symbol = true) :
    SpellsAt ts (ps ++ [p]) i (j + 1) :=
  h.append (single ht hp)

end SpellsAt

/-! ## Nodes and their tokens -/

/-- What the options keep of a node. -/
def Node.kept (o : Options) : Node → Node
  | .stmt s => .stmt (if o.allMembers then s else s.firstMembers)
  | n => n

theorem Node.kept_eq_self {o : Options} (ho : o.allMembers = true) (n : Node) :
    n.kept o = n := by
  cases n <;> simp [Node.kept, ho]

/-- The row of tokens is one that the node is written with, apart from members of structs
that were read and not kept. -/
def Node.IsWrittenBy (o : Options) (n : Node) (row : List Token) : Prop :=
  ∃ whole : Node, whole.kept o = n ∧ Spells whole.surface row

/-- The node takes the tokens from index `i` up to `j`: there is at least one, the node starts
where the first one stands, and where it stops is not recorded. The tokens are those that it
is written with. Its children take ranges of their own inside this one, each behind the one
before. -/
inductive Node.Occupies (o : Options) (ts : List Token) : Node → Nat → Nat → Prop
  | intro {n : Node} {i j : Nat} {t : Token} (hfirst : ts[i]? = some t) (hlt : i < j)
    (hj : j ≤ ts.length) (hspan : n.span = ⟨t.pos, .none⟩)
    (hwritten : n.IsWrittenBy o (ts.extract i j))
    (hchildren : InOrder (Node.Occupies o ts) (n.children.map Prod.snd) i j) :
    Node.Occupies o ts n i j

namespace Node.Occupies

variable {o : Options} {ts : List Token} {n : Node} {i j : Nat}

theorem lt (h : n.Occupies o ts i j) : i < j := by
  cases h with
  | intro _ hlt _ _ _ _ => exact hlt

/-- Where all members of structs are kept, the tokens spell the node itself. -/
theorem spellsAt (h : n.Occupies o ts i j) (ho : o.allMembers = true) :
    SpellsAt ts n.surface i j := by
  cases h with
  | intro _ hlt hj _ hwritten _ =>
    obtain ⟨whole, hkept, hspells⟩ := hwritten
    rw [← hkept, whole.kept_eq_self ho]
    exact ⟨Nat.le_of_lt hlt, hj, hspells⟩

end Node.Occupies

/-! ## Unfinished nodes and their tokens -/

/-- The part of a node that is there takes the tokens from index `i` up to `j`: the node
starts at the first of them, they are those that the part is written with, and the children
so far take ranges of their own. -/
structure Begun (o : Options) (ts : List Token) (span : Span) (written : List Piece)
    (children : List Node) (i j : Nat) : Prop where
  /-- The token that the node starts at. -/
  first : ∃ t, ts[i]? = some t ∧ span = .startingAt t.pos
  /-- The tokens that are there. -/
  spellsAt : SpellsAt ts written i j
  /-- The children that are there. -/
  inOrder : InOrder (Node.Occupies o ts) children i j

namespace Begun

variable {o : Options} {ts : List Token} {span : Span} {ps : List Piece} {p : Piece}
  {cs : List Node} {n : Node} {t : Token} {s : Symbol} {i j k : Nat}

/-- A node that starts at a token, before the token is taken. -/
theorem start (ht : ts[i]? = some t) : Begun o ts (.startingAt t.pos) [] [] i i :=
  ⟨⟨t, ht, rfl⟩, .nil (Nat.le_of_lt (List.getElem?_eq_some_iff.mp ht).1), .nil (Nat.le_refl i)⟩

/-- A token goes to the end. -/
theorem piece (h : Begun o ts span ps cs i j) (ht : ts[j]? = some t)
    (hp : p.fits t.symbol = true) : Begun o ts span (ps ++ [p]) cs i (j + 1) :=
  ⟨h.first, h.spellsAt.concat ht hp, h.inOrder.mono (Nat.le_succ j)⟩

/-- A token that is known by its symbol goes to the end. -/
theorem token (h : Begun o ts span ps cs i j) (ht : ts[j]? = some t) (hs : t.symbol = s) :
    Begun o ts span (ps ++ [.symbol s]) cs i (j + 1) :=
  h.piece ht ((Piece.fits_symbol s t.symbol).mpr hs)

/-- A child goes to the end. -/
theorem child (h : Begun o ts span ps cs i j) (ho : o.allMembers = true)
    (hn : n.Occupies o ts j k) : Begun o ts span (ps ++ n.surface) (cs ++ [n]) i k :=
  ⟨h.first, h.spellsAt.append (hn.spellsAt ho), h.inOrder.concat hn (Nat.le_of_lt hn.lt)⟩

/-- A node starts with its first child, if nothing comes before it. -/
theorem ofChild (ho : o.allMembers = true) (hn : n.Occupies o ts i j) :
    Begun o ts n.span n.surface [n] i j := by
  have hspells := hn.spellsAt ho
  refine ⟨?_, hspells, .cons (Nat.le_refl i) hn (.nil (Nat.le_refl j))⟩
  cases hn with
  | intro hfirst _ _ hspan _ _ => exact ⟨_, hfirst, hspan⟩

/-- A node of which everything is there takes its tokens. -/
theorem occupies (h : Begun o ts span ps cs i j) (ho : o.allMembers = true) (hlt : i < j)
    (hspan : n.span = span) (hsurface : n.surface = ps)
    (hchildren : n.children.map Prod.snd = cs) : n.Occupies o ts i j := by
  subst hspan hsurface hchildren
  obtain ⟨⟨t, ht, hspan⟩, hspells, hchildren⟩ := h
  exact .intro ht hlt hspells.le_length hspan ⟨n, n.kept_eq_self ho, hspells.spells⟩ hchildren

/-- So does a node of which the token that is taken is the last. -/
theorem occupies_token (h : Begun o ts span ps cs i j) (ho : o.allMembers = true)
    (ht : ts[j]? = some t) (hs : t.symbol = s) (hspan : n.span = span)
    (hsurface : n.surface = ps ++ [.symbol s]) (hchildren : n.children.map Prod.snd = cs) :
    n.Occupies o ts i (j + 1) :=
  (h.token ht hs).occupies ho (Nat.lt_succ_of_le h.spellsAt.le) hspan hsurface hchildren

/-- So does a node of which the child that is complete is the last part. -/
theorem occupies_child {c : Node} (h : Begun o ts span ps cs i j) (ho : o.allMembers = true)
    (hc : c.Occupies o ts j k) (hspan : n.span = span) (hsurface : n.surface = ps ++ c.surface)
    (hchildren : n.children.map Prod.snd = cs ++ [c]) : n.Occupies o ts i k :=
  (h.child ho hc).occupies ho (Nat.lt_of_le_of_lt h.spellsAt.le hc.lt) hspan hsurface hchildren

end Begun

/-! ## Unfinished programs and their tokens -/

/-- The stretch of text of the expression that a part is waiting to become. -/
def Frame.span : Frame → Span
  | .unary _ start | .paren start | .construct _ start _ => .startingAt start
  | .binary left _ => left.span
  | .call callee _ _ => callee.span

/-- The operands and arguments of a part that waits. -/
def Frame.children : Frame → List Node
  | .unary _ _ | .paren _ => []
  | .binary left _ => [.expr left]
  | .call callee _ args => .expr callee :: args.reverse.map .expr
  | .construct _ _ args => args.reverse.map .expr

/-- The stretch of text of the statement that an expression is for. -/
def Host.span : Host → Span
  | .statement start | .condition start => .startingAt start
  | .initial head => head.span

/-- Where the operand that is being read starts, if anything of it is there. -/
def Point.span : Point → Span
  | .operand | .firstArgument => .nowhere
  | .name _ start | .field _ start | .member _ _ start | .vector _ start => .startingAt start
  | .complete value => value.span

/-- Where the current statement starts, if anything of it is there. -/
def Mode.span : Mode → Span
  | .statement => .nowhere
  | .conditionStart start | .modified start | .typed _ _ start | .structName start
  | .structStart _ start => .startingAt start
  | .declared head | .parameters head | .functionBody head => head.span
  | .members s | .memberColon s _ _ | .memberType s _ _ | .memberEnd s _ => .startingAt s.start
  | .expression host _ _ => host.span

section

variable (o : Options) (ts : List Token)

/-- The parts that wait take their tokens, the outermost first. -/
def FramesBegun : List Frame → Nat → Nat → Prop
  | [], i, j => i = j
  | f :: frames, i, j => ∃ m, FramesBegun frames i m ∧ Begun o ts f.span f.written f.children m j

/-- What is there of an operand takes its tokens. -/
def Point.Begun : Point → Nat → Nat → Prop
  | .operand, i, j | .firstArgument, i, j => i = j
  | .complete value, i, j => (Node.expr value).Occupies o ts i j
  | p, i, j => ShaderFront.Begun o ts p.span p.written [] i j

/-- What is there of a block takes its tokens. -/
def BlockBegun (opened : Position) (inner : List Stmt) : Nat → Nat → Prop :=
  Begun o ts (.startingAt opened) (Piece.mark .openBrace :: surface inner.reverse)
    (inner.reverse.map .stmt)

/-- What is there of an enclosing statement takes its tokens. A function has its block, which
is a node by itself. -/
def Scope.Begun : Scope → Nat → Nat → Prop
  | .block opened inner, i, j => BlockBegun o ts opened inner i j
  | .function head opened inner, i, j =>
    ∃ m, (ShaderFront.Begun o ts head.span
        (head.surface ++ [Piece.mark .openParen, Piece.mark .closeParen]) [] i m) ∧
      BlockBegun o ts opened inner m j
  | .guard start condition, i, j =>
    ShaderFront.Begun o ts (.startingAt start) (Scope.guard start condition).written
      [.expr condition] i j

/-- The enclosing statements take their tokens, the outermost first. -/
def ScopesBegun : List Scope → Nat → Nat → Prop
  | [], i, j => i = j
  | s :: scopes, i, j => ∃ m, ScopesBegun scopes i m ∧ s.Begun o ts m j

/-- What is there of a struct takes its tokens. -/
def OpenStruct.Begun (s : OpenStruct) : Nat → Nat → Prop :=
  ShaderFront.Begun o ts (.startingAt s.start) s.written (s.members.reverse.map .member)

/-- What is there of the innermost statement takes its tokens. A member of a struct is a node
by itself. -/
def Mode.Begun : Mode → Nat → Nat → Prop
  | .statement, i, j => i = j
  | .members s, i, j => s.Begun o ts i j
  | .memberColon s name start, i, j =>
    ∃ m, s.Begun o ts i m ∧ ShaderFront.Begun o ts (.startingAt start) [Piece.ident name] [] m j
  | .memberType s name start, i, j =>
    ∃ m, s.Begun o ts i m ∧
      ShaderFront.Begun o ts (.startingAt start) [Piece.ident name, Piece.mark .colon] [] m j
  | .memberEnd s r, i, j =>
    ∃ m, s.Begun o ts i m ∧ ShaderFront.Begun o ts r.span
      [Piece.ident r.name, Piece.mark .colon, .memberType r.type] [] m j
  | .expression host frames point, i, j =>
    ∃ a b, ShaderFront.Begun o ts host.span host.written [] i a ∧ FramesBegun o ts frames a b ∧
      point.Begun o ts b j
  | m, i, j => ShaderFront.Begun o ts m.span m.written [] i j

/-- An unfinished program takes the tokens up to index `k`: the complete statements come
first, then what encloses the current statement, then what is there of it. -/
def State.Begun (s : State) (k : Nat) : Prop :=
  ∃ i j, Tiles (Node.Occupies o ts) (s.finished.reverse.map .stmt) 0 i ∧
    ScopesBegun o ts s.scopes i j ∧ s.mode.Begun o ts j k

end

/-! ## One token -/

section

variable {o : Options} {ts : List Token} {i j k : Nat}

/-- A statement goes to the end of a block. -/
theorem BlockBegun.child {opened : Position} {inner : List Stmt} {s : Stmt}
    (h : BlockBegun o ts opened inner i j) (ho : o.allMembers = true)
    (hs : (Node.stmt s).Occupies o ts j k) : BlockBegun o ts opened (s :: inner) i k := by
  have hchild := Begun.child h ho hs
  simpa [BlockBegun, Node.surface] using hchild

/-- A block that closes takes its tokens. -/
theorem BlockBegun.occupies {opened : Position} {inner : List Stmt} {t : Token}
    (h : BlockBegun o ts opened inner i j) (ho : o.allMembers = true) (ht : ts[j]? = some t)
    (hs : t.symbol = .punct .closeBrace) :
    (Node.stmt (.block inner.reverse (.startingAt opened))).Occupies o ts i (j + 1) := by
  refine Begun.occupies_token h ho ht hs rfl ?_ ?_
  · simp [Node.surface, Stmt.surface, Piece.mark]
  · simp [Node.children, Function.comp_def]

/-- A complete statement keeps the tokens of everything in order. -/
theorem begun_addStatement {s : Stmt} {done : List Stmt} {scopes : List Scope}
    (ho : o.allMembers = true)
    (hdone : Tiles (Node.Occupies o ts) (done.reverse.map .stmt) 0 i)
    (hscopes : ScopesBegun o ts scopes i j) (hs : (Node.stmt s).Occupies o ts j k) :
    (addStatement s done scopes).Begun o ts k := by
  induction scopes generalizing s j with
  | nil =>
    cases hscopes
    refine ⟨k, k, ?_, rfl, rfl⟩
    simpa [addStatement] using hdone.concat hs
  | cons c scopes ih =>
    obtain ⟨m, houter, hc⟩ := hscopes
    cases c with
    | guard start condition =>
      refine ih houter (Begun.occupies_child hc ho hs rfl ?_ rfl)
      simp [Node.surface, Stmt.surface]
    | block opened inner => exact ⟨i, k, hdone, ⟨m, houter, BlockBegun.child hc ho hs⟩, rfl⟩
    | function head opened inner =>
      obtain ⟨a, hhead, hblock⟩ := hc
      exact ⟨i, k, hdone, ⟨m, houter, a, hhead, hblock.child ho hs⟩, rfl⟩

/-- Grouping keeps the tokens of everything in order. -/
theorem FramesBegun.group {waits : Operator → Bool} {e v : Expr} {frames inner : List Frame}
    (hf : FramesBegun o ts frames i j) (ho : o.allMembers = true)
    (he : (Node.expr e).Occupies o ts j k) (hg : group waits e frames = (v, inner)) :
    ∃ m, FramesBegun o ts inner i m ∧ (Node.expr v).Occupies o ts m k := by
  induction frames generalizing e j with
  | nil =>
    cases hg
    exact ⟨j, hf, he⟩
  | cons f frames ih =>
    cases f with
    | unary op start =>
      obtain ⟨m, hframes, hop⟩ := hf
      exact ih hframes (hop.occupies_child ho he rfl rfl rfl) hg
    | binary left op =>
      rw [ShaderFront.group] at hg
      split at hg
      · cases hg
        exact ⟨j, hf, he⟩
      · obtain ⟨m, hframes, hleft⟩ := hf
        have hsum : (Node.expr (.binary op left e left.span)).Occupies o ts m k := by
          refine hleft.occupies_child ho he rfl ?_ rfl
          simp [Node.surface, Expr.surface]
        exact ih hframes hsum hg
    | paren start | call callee opened args | construct type start args =>
      cases hg
      exact ⟨j, hf, he⟩

/-- An operand of which nothing more needs to follow takes its tokens. -/
theorem Point.Begun.occupies {p : Point} {e : Expr} (h : p.Begun o ts i j)
    (ho : o.allMembers = true) (hp : p.value? = some e) : (Node.expr e).Occupies o ts i j := by
  cases p with
  | operand | firstArgument | field _ _ | vector _ _ => cases hp
  | complete value =>
    cases hp
    exact h
  | name n start | member container f start =>
    cases hp
    exact ShaderFront.Begun.occupies h ho (h.spellsAt.lt (List.cons_ne_nil _ _)) rfl rfl rfl

/-- The first token of an operand goes to the end. -/
theorem StartsOperand.begun {host : Host} {frames : List Frame} {t : Token} {m : Mode} {a b : Nat}
    (h : StartsOperand host frames t m) (ho : o.allMembers = true)
    (hhost : Begun o ts host.span host.written [] i a) (hf : FramesBegun o ts frames a b)
    (ht : ts[b]? = some t) : m.Begun o ts i (b + 1) := by
  have hstart : Begun o ts (.startingAt t.pos) [] [] b b := .start ht
  cases h with
  | unary hs hu =>
    exact ⟨a, b + 1, hhost, ⟨b, hf, hstart.token ht hs⟩, rfl⟩
  | paren hs =>
    exact ⟨a, b + 1, hhost, ⟨b, hf, hstart.token ht hs⟩, rfl⟩
  | name hs =>
    exact ⟨a, b, hhost, hf, hstart.token ht hs⟩
  | vector hs hk =>
    exact ⟨a, b, hhost, hf, hstart.token ht hs⟩
  | bool hs | number hs | string hs =>
    exact ⟨a, b, hhost, hf, hstart.occupies_token ho ht hs rfl rfl rfl⟩

/-- A token after an operand goes to the end. -/
theorem TakesAfter.begun {done : List Stmt} {scopes : List Scope} {next : State} {host : Host}
    {frames : List Frame} {p : Point} {e : Expr} {t : Token} {a b c : Nat}
    (h : TakesAfter o ⟨done, scopes, .expression host frames p⟩ host frames e t next)
    (ho : o.allMembers = true)
    (hdone : Tiles (Node.Occupies o ts) (done.reverse.map .stmt) 0 i)
    (hscopes : ScopesBegun o ts scopes i j) (hhost : Begun o ts host.span host.written [] j a)
    (hf : FramesBegun o ts frames a b) (he : (Node.expr e).Occupies o ts b c)
    (ht : ts[c]? = some t) : next.Begun o ts (c + 1) := by
  cases h with
  | operator hs hl hg =>
    obtain ⟨m, hwaiting, hleft⟩ := hf.group ho he hg
    have hop := (Begun.ofChild ho hleft).token ht hs
    exact ⟨i, j, hdone, hscopes, a, c + 1, hhost, ⟨m, hwaiting, hop⟩, rfl⟩
  | statementEnd hs hh hg =>
    subst hh
    obtain ⟨m, rfl, hv⟩ := hf.group ho he hg
    have hvalue := Begun.child hhost ho hv
    exact begun_addStatement ho hdone hscopes (hvalue.occupies_token ho ht hs rfl rfl rfl)
  | declarationEnd hs hh hg =>
    subst hh
    obtain ⟨m, rfl, hv⟩ := hf.group ho he hg
    have hvalue := Begun.child hhost ho hv
    refine begun_addStatement ho hdone hscopes (hvalue.occupies_token ho ht hs rfl ?_ rfl)
    simp [Node.surface, Stmt.surface, surfaceInit, Piece.mark]
  | conditionEnd hs hh hg =>
    subst hh
    obtain ⟨m, rfl, hv⟩ := hf.group ho he hg
    have hclosed := (Begun.child hhost ho hv).token ht hs
    exact ⟨i, c + 1, hdone, ⟨j, hscopes, hclosed⟩, rfl⟩
  | parenEnd hs hg =>
    obtain ⟨m, ⟨d, houter, hparen⟩, hv⟩ := hf.group ho he hg
    have hvalue := hparen.child ho hv
    exact ⟨i, j, hdone, hscopes, a, d, hhost, houter,
      hvalue.occupies_token ho ht hs rfl rfl rfl⟩
  | callEnd hs hg =>
    obtain ⟨m, ⟨d, houter, hcall⟩, hv⟩ := hf.group ho he hg
    have hvalue := hcall.child ho hv
    refine ⟨i, j, hdone, hscopes, a, d, hhost, houter,
      hvalue.occupies_token ho ht hs rfl ?_ ?_⟩
    · simp [Node.surface, Expr.surface, Piece.mark]
    · simp [Node.children, Frame.children, Function.comp_def]
  | constructEnd hs hg =>
    obtain ⟨m, ⟨d, houter, hvector⟩, hv⟩ := hf.group ho he hg
    have hvalue := hvector.child ho hv
    refine ⟨i, j, hdone, hscopes, a, d, hhost, houter,
      hvalue.occupies_token ho ht hs rfl ?_ ?_⟩
    · simp [Node.surface, Expr.surface, Piece.mark]
    · simp [Node.children, Frame.children, Function.comp_def]
  | nextArgument hs hm hg =>
    obtain ⟨m, ⟨d, houter, hcall⟩, hv⟩ := hf.group ho he hg
    have hmore := (hcall.child ho hv).token ht hs
    refine ⟨i, j, hdone, hscopes, a, c + 1, hhost, ⟨d, houter, ?_⟩, rfl⟩
    simpa [Frame.span, Frame.children, Node.surface, Piece.mark] using hmore
  | nextComponent hs hg =>
    obtain ⟨m, ⟨d, houter, hvector⟩, hv⟩ := hf.group ho he hg
    have hmore := (hvector.child ho hv).token ht hs
    refine ⟨i, j, hdone, hscopes, a, c + 1, hhost, ⟨d, houter, ?_⟩, rfl⟩
    simpa [Frame.span, Frame.children, Node.surface, Piece.mark] using hmore

/-- A member that is complete goes to the end of its struct. -/
theorem OpenStruct.begun_add {s : OpenStruct} {r : Member} (h : s.Begun o ts i j)
    (ho : o.allMembers = true) (hr : (Node.member r).Occupies o ts j k) :
    (s.add o r).Begun o ts i k := by
  have hmember := Begun.child h ho hr
  unfold OpenStruct.Begun
  rw [OpenStruct.written_add ho]
  simpa [OpenStruct.add, ho, Node.surface] using hmember

/-- Every token that is taken goes to the end of an unfinished program. -/
theorem Takes.begun {done : List Stmt} {scopes : List Scope} {t : Token} {mode : Mode}
    {next : State} (h : Takes o done scopes t mode next) (ho : o.allMembers = true)
    (hr : mode.Regular) (hs : (⟨done, scopes, mode⟩ : State).Begun o ts k)
    (ht : ts[k]? = some t) : next.Begun o ts (k + 1) := by
  obtain ⟨i, j, hdone, hscopes, hm⟩ := hs
  have hstart : Begun o ts (.startingAt t.pos) [] [] k k := .start ht
  cases h with
  | directive hs =>
    cases hm
    exact begun_addStatement ho hdone hscopes (hstart.occupies_token ho ht hs rfl rfl rfl)
  | openBlock hs =>
    cases hm
    exact ⟨i, k + 1, hdone, ⟨k, hscopes, hstart.token ht hs⟩, rfl⟩
  | closeBlock hs hc =>
    cases hm
    subst hc
    obtain ⟨m, houter, hblock⟩ := hscopes
    exact begun_addStatement ho hdone houter (BlockBegun.occupies hblock ho ht hs)
  | closeFunction hs hc =>
    cases hm
    subst hc
    obtain ⟨m, houter, a, hhead, hblock⟩ := hscopes
    have hbody := hblock.occupies ho ht hs
    refine begun_addStatement ho hdone houter (hhead.occupies_child ho hbody rfl ?_ rfl)
    simp [Node.surface, Stmt.surface]
  | cond hs | input hs | struct hs | type hs hk =>
    cases hm
    exact ⟨i, k, hdone, hscopes, hstart.token ht hs⟩
  | start hn hoperand =>
    cases hm
    exact ⟨i, k, hdone, hscopes, hoperand.begun ho hstart rfl ht⟩
  | openCondition hs =>
    exact ⟨i, j, hdone, hscopes, k + 1, k + 1, Begun.token hm ht hs, rfl, rfl⟩
  | modifiedType hs hk => exact ⟨i, j, hdone, hscopes, Begun.token hm ht hs⟩
  | declare hs =>
    refine ⟨i, j, hdone, hscopes, ?_⟩
    have hnamed := Begun.token hm ht hs
    simpa [Mode.Begun, Mode.span, Head.surface, Piece.ident] using hnamed
  | initial hs => exact ⟨i, j, hdone, hscopes, k + 1, k + 1, Begun.token hm ht hs, rfl, rfl⟩
  | declared hs =>
    refine begun_addStatement ho hdone hscopes (Begun.occupies_token hm ho ht hs rfl ?_ rfl)
    simp [Node.surface, Stmt.surface, surfaceInit, Piece.mark]
  | openParameters hs => exact ⟨i, j, hdone, hscopes, Begun.token hm ht hs⟩
  | closeParameters hs =>
    refine ⟨i, j, hdone, hscopes, ?_⟩
    have hclosed := Begun.token hm ht hs
    simpa [Mode.Begun, Mode.span, Piece.mark] using hclosed
  | openFunction hs =>
    exact ⟨i, k + 1, hdone, ⟨j, hscopes, k, hm, hstart.token ht hs⟩, rfl⟩
  | structName hs => exact ⟨i, j, hdone, hscopes, Begun.token hm ht hs⟩
  | openStruct hs => exact ⟨i, j, hdone, hscopes, Begun.token hm ht hs⟩
  | @closeStruct s hs hc =>
    refine begun_addStatement ho hdone hscopes (Begun.occupies_token hm ho ht hs rfl ?_ ?_)
    · exact s.surface_close
    · simp [OpenStruct.close, Node.children, Function.comp_def]
  | memberName hs => exact ⟨i, j, hdone, hscopes, k, hm, hstart.token ht hs⟩
  | memberColon hs =>
    obtain ⟨m, hstruct, hname⟩ := hm
    exact ⟨i, j, hdone, hscopes, m, hstruct, hname.token ht hs⟩
  | memberType hs =>
    obtain ⟨m, hstruct, hname⟩ := hm
    exact ⟨i, j, hdone, hscopes, m, hstruct, hname.piece ht ((Piece.fits_memberType _ _).mpr hs)⟩
  | memberEnd hs =>
    obtain ⟨m, hstruct, hmember⟩ := hm
    exact ⟨i, j, hdone, hscopes,
      OpenStruct.begun_add hstruct ho (hmember.occupies_token ho ht hs rfl rfl rfl)⟩
  | operand hp hoperand =>
    obtain ⟨a, b, hhost, hframes, hpoint⟩ := hm
    have hb : b = k := by rcases hp with rfl | rfl <;> exact hpoint
    subst hb
    exact ⟨i, j, hdone, hscopes, hoperand.begun ho hhost hframes ht⟩
  | emptyCall hs =>
    cases hr
    obtain ⟨a, b, hhost, ⟨m, houter, hcall⟩, rfl⟩ := hm
    refine ⟨i, j, hdone, hscopes, a, m, hhost, houter, hcall.occupies_token ho ht hs rfl ?_ rfl⟩
    simp [Node.surface, Expr.surface, Expr.surfaceArgs, Piece.mark]
  | emptyConstruct hs =>
    cases hr
    obtain ⟨a, b, hhost, ⟨m, houter, hvector⟩, rfl⟩ := hm
    refine ⟨i, j, hdone, hscopes, a, m, hhost, houter, hvector.occupies_token ho ht hs rfl ?_ rfl⟩
    simp [Node.surface, Expr.surface, Expr.surfaceArgs, Piece.mark]
  | colon hs =>
    obtain ⟨a, b, hhost, hframes, hname⟩ := hm
    exact ⟨i, j, hdone, hscopes, a, b, hhost, hframes, Begun.token hname ht hs⟩
  | field hs =>
    obtain ⟨a, b, hhost, hframes, hcontainer⟩ := hm
    exact ⟨i, j, hdone, hscopes, a, b, hhost, hframes, Begun.token hcontainer ht hs⟩
  | openCall hs hp =>
    obtain ⟨a, b, hhost, hframes, hpoint⟩ := hm
    have hcallee := hpoint.occupies ho hp.value?_eq
    exact ⟨i, j, hdone, hscopes, a, k + 1, hhost,
      ⟨b, hframes, (Begun.ofChild ho hcallee).token ht hs⟩, rfl⟩
  | openConstruct hs =>
    obtain ⟨a, b, hhost, hframes, hvector⟩ := hm
    exact ⟨i, j, hdone, hscopes, a, k + 1, hhost, ⟨b, hframes, Begun.token hvector ht hs⟩, rfl⟩
  | after hp hn =>
    obtain ⟨a, b, hhost, hframes, hpoint⟩ := hm
    exact hn.begun ho hdone hscopes hhost hframes (hpoint.occupies ho hp) ht

/-- A row of tokens that is taken goes to the end of an unfinished program. -/
theorem State.begun_of_takeAll? {s next : State} {us rest : List Token}
    (h : s.takeAll? o us = some next) (ho : o.allMembers = true) (hr : s.mode.Regular)
    (hs : s.Begun o ts k) (hts : ts.drop k = us ++ rest) :
    next.Begun o ts (k + us.length) := by
  induction us generalizing s k with
  | nil =>
    cases h
    exact hs
  | cons t us ih =>
    obtain ⟨mid, ht, hus⟩ := Option.bind_eq_some_iff.mp h
    have htakes := State.takes_of_take? ht
    have hfirst : ts[k]? = some t := by
      rw [← List.head?_drop, hts]
      rfl
    have hrest : ts.drop (k + 1) = us ++ rest := by
      rw [← List.tail_drop, hts]
      rfl
    have hnext := ih hus (htakes.written ho hr).1 (htakes.begun ho hr hs hfirst) hrest
    have hlength : k + (t :: us).length = k + 1 + us.length := by
      rw [List.length_cons]
      omega
    rwa [hlength]

end

end ShaderFront
