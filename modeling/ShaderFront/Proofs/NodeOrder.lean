import Mathlib.Control.Monad.Basic
import ShaderFront.Proofs.Calls
import ShaderFront.Proofs.Reading
import ShaderFront.Proofs.TokenRanges

/-!
# Where nodes start

The tokens before the end of a row are divided among the statements of the program, and
the tokens of a statement among its parts, down to the last node. Where only the first
member of a struct is kept, the tokens of the others still belong to the struct.

The tokens of a text stand one behind the other. So a walk over a program that was read
from a text never goes back, and of two nodes with the same parent the second one starts
behind the first.
-/

namespace ShaderFront

/-! ## Nodes with what is kept of them -/

section

variable {α β : Type} {R : α → Nat → Nat → Prop} {S : β → Nat → Nat → Prop} {f : α → β}
  {xs : List α} {i j : Nat}

theorem InOrder.map (h : InOrder R xs i j) (hf : ∀ x ∈ xs, ∀ a b, R x a b → S (f x) a b) :
    InOrder S (xs.map f) i j := by
  induction h with
  | nil hij => exact .nil hij
  | cons hi hx _ ih =>
    obtain ⟨hhead, htail⟩ := List.forall_mem_cons.mp hf
    exact .cons hi (hhead _ _ hx) (ih htail)

theorem InOrder.of_map (h : InOrder S (xs.map f) i j) : InOrder (fun x => S (f x)) xs i j := by
  induction xs generalizing i with
  | nil =>
    cases h with
    | nil hij => exact .nil hij
  | cons x xs ih =>
    cases h with
    | cons hi hx hxs => exact .cons hi hx (ih hxs)

theorem Tiles.map (h : Tiles R xs i j) (hf : ∀ x a b, R x a b → S (f x) a b) :
    Tiles S (xs.map f) i j := by
  induction h with
  | nil => exact .nil
  | cons hx _ ih => exact .cons (hf _ _ _ hx) ih

/-- Items that leave nothing out follow each other. -/
theorem Tiles.inOrder (h : Tiles R xs i j) : InOrder R xs i j := by
  induction h with
  | nil => exact .nil (Nat.le_refl _)
  | cons hx _ ih => exact .cons (Nat.le_refl _) hx ih

end

theorem Node.span_kept (o : Options) (n : Node) : (n.kept o).span = n.span := by
  cases n with
  | expr e => rfl
  | member m => rfl
  | stmt s =>
    rw [Node.kept]
    split
    · rfl
    · cases s <;> rfl

/-- What is kept of a node has what is kept of its first children. -/
theorem Node.children_kept (o : Options) (n : Node) :
    (n.kept o).children.map Prod.snd <+: n.children.map fun c => c.2.kept o := by
  have hsame : ∀ {l l' : List Node}, l = l' → l <+: l' := by
    rintro l _ rfl
    exact List.prefix_refl l
  cases ho : o.allMembers with
  | true =>
    simp only [Node.kept_eq_self ho]
    exact List.prefix_refl _
  | false =>
    cases n with
    | member m => exact List.prefix_refl _
    | expr e => cases e <;> exact hsame (by simp [Node.children, Node.kept, Function.comp_def])
    | stmt s =>
      cases s with
      | struct attr name members span =>
        refine ⟨(members.drop 1).map Node.member, ?_⟩
        cases members <;>
          simp [Node.children, Node.kept, ho, Stmt.firstMembers, Function.comp_def]
      | _ =>
        refine hsame ?_
        simp [Node.children, Node.kept, ho, Stmt.firstMembers, firstMembers_eq_map,
          Function.comp_def]

/-- What is kept of a node takes all its tokens. -/
theorem Node.Occupies.kept {o : Options} {ts : List Token} {n : Node} {i j : Nat}
    (h : n.Occupies (o.keeping true) ts i j) : (n.kept o).Occupies o ts i j := by
  induction n using Node.child_induction generalizing i j with
  | step n ih =>
    have hspells := h.spellsAt rfl
    cases h with
    | intro hfirst hlt hj hspan _ hchildren =>
      refine .intro hfirst hlt hj ?_ ⟨n, rfl, hspells.spells⟩ ?_
      · rw [Node.span_kept, hspan]
      · have hkept : InOrder (Node.Occupies o ts) (n.children.map fun c => c.2.kept o) i j :=
          hchildren.of_map.map fun c hc a b hoccupies => ih c hc hoccupies
        obtain ⟨more, hmore⟩ := n.children_kept o
        rw [← hmore] at hkept
        exact hkept.of_append fun hoccupies => Nat.le_of_lt hoccupies.lt

/-! ## Whole rows -/

/-- A program that keeps all members of structs is read from the tokens before the end. -/
theorem tiles_of_parse_keeping {o : Options} {ts : List Token} {program : List Stmt}
    (ho : o.allMembers = true) (h : (Parser.fresh o ts).parse.1 = .ok program) :
    Tiles (Node.Occupies o ts) (program.map Node.stmt) 0 (endIndex ts) := by
  obtain ⟨next, htaken, hc, rfl⟩ := takeAll?_of_parse h
  obtain ⟨rest, hts, hr⟩ := exists_beforeEnd ts
  have hend : endIndex ts = (beforeEnd ts).length := by
    have hfree := State.symbol_ne_eof_of_takeAll? htaken
    have happend := endIndex_append hfree rest
    rwa [← hts, endIndex_of_headSymbol hr, Nat.add_zero] at happend
  have hstart : State.start.Begun o ts 0 := ⟨0, 0, .nil, rfl, rfl⟩
  obtain ⟨i, j, hdone, hscopes, hmode⟩ :=
    State.begun_of_takeAll? htaken ho trivial hstart hts
  rw [Nat.zero_add, ← hend] at hmode
  -- Nothing is open, so the complete statements reach up to the end.
  rw [State.eq_onto_of_isComplete hc] at hscopes hmode
  cases hscopes
  cases hmode
  exact hdone

/-- Every program is read from the tokens before the end. -/
theorem tiles_of_parse {o : Options} {ts : List Token} {program : List Stmt}
    (h : (Parser.fresh o ts).parse.1 = .ok program) :
    Tiles (Node.Occupies o ts) (program.map Node.stmt) 0 (endIndex ts) := by
  cases ho : o.allMembers with
  | true => exact tiles_of_parse_keeping ho h
  | false =>
    rw [← Options.keeping_eq_self ho] at h
    obtain ⟨whole, hwhole, -, -, rfl⟩ :=
      ((membersExtension o).parse_conservative ts 0).1 program h
    have htiles := (tiles_of_parse_keeping rfl hwhole).map (f := Node.kept o)
      fun _ _ _ hoccupies => hoccupies.kept
    simpa [membersExtension, Node.kept, ho, Function.comp_def] using htiles

/-! ## Walks -/

/-- Does a position stand at another one or come before it? -/
def Position.NotAfter (p q : Position) : Prop := p = q ∨ p.Before q

/-- Where the node of a visit starts. -/
def Visit.start (v : Visit) : Position := v.node.span.start

/-- The position is that of a token with an index in the range. -/
def Position.IsWithin (ts : List Token) (p : Position) (i j : Nat) : Prop :=
  ∃ a t, i ≤ a ∧ a < j ∧ ts[a]? = some t ∧ t.pos = p

theorem Position.IsWithin.mono {ts : List Token} {p : Position} {a b i j : Nat}
    (h : p.IsWithin ts a b) (hi : i ≤ a) (hj : b ≤ j) : p.IsWithin ts i j := by
  obtain ⟨k, t, hak, hkb, ht⟩ := h
  exact ⟨k, t, Nat.le_trans hi hak, Nat.lt_of_lt_of_le hkb hj, ht⟩

section

variable {o : Options} {ts : List Token} {n : Node} {i j : Nat}

/-- A node starts at the first of its tokens. -/
theorem Node.Occupies.exists_first (h : n.Occupies o ts i j) :
    ∃ t, ts[i]? = some t ∧ t.pos = n.span.start := by
  cases h with
  | intro hfirst _ _ hspan _ _ => exact ⟨_, hfirst, by rw [hspan]⟩

theorem Node.Occupies.isWithin (h : n.Occupies o ts i j) : n.span.start.IsWithin ts i j := by
  obtain ⟨t, ht, hpos⟩ := h.exists_first
  exact ⟨i, t, Nat.le_refl i, h.lt, ht, hpos⟩

variable (hts : ts.Pairwise fun t u => t.pos.Before u.pos)
include hts

/-- What starts in an earlier range starts earlier. -/
theorem Position.IsWithin.before {p q : Position} {a b c d : Nat} (hp : p.IsWithin ts a b)
    (hq : q.IsWithin ts c d) (hbc : b ≤ c) : p.Before q := by
  obtain ⟨k, t, -, hkb, ht, rfl⟩ := hp
  obtain ⟨l, u, hcl, -, hu, rfl⟩ := hq
  obtain ⟨hk, rfl⟩ := List.getElem?_eq_some_iff.mp ht
  obtain ⟨hl, rfl⟩ := List.getElem?_eq_some_iff.mp hu
  exact List.pairwise_iff_getElem.mp hts k l hk hl (by omega)

/-- Rows that belong to items in order make one row whose parts start one behind the other,
if the parts of each row do so and stay in the range of its item. -/
theorem InOrder.pairwise_flatMap {α β : Type} {R : α → Nat → Nat → Prop} {f : α → List β}
    {start : β → Position} {P : β → β → Prop} {xs : List α} (h : InOrder R xs i j)
    (hP : ∀ x y, (start x).Before (start y) → P x y)
    (hf : ∀ x ∈ xs, ∀ a b, R x a b →
      a ≤ b ∧ (f x).Pairwise P ∧ ∀ y ∈ f x, (start y).IsWithin ts a b) :
    i ≤ j ∧ (xs.flatMap f).Pairwise P ∧ ∀ y ∈ xs.flatMap f, (start y).IsWithin ts i j := by
  induction h with
  | nil hij => exact ⟨hij, .nil, by simp⟩
  | @cons x xs i a b j hi hx _ ih =>
    obtain ⟨hfirst, hothers⟩ := List.forall_mem_cons.mp hf
    obtain ⟨hab, hpairs, hwithin⟩ := hfirst a b hx
    obtain ⟨hbj, hpairs', hwithin'⟩ := ih hothers
    rw [List.flatMap_cons]
    refine ⟨by omega, List.pairwise_append.mpr ⟨hpairs, hpairs', fun y hy z hz => ?_⟩, ?_⟩
    · exact hP y z ((hwithin y hy).before hts (hwithin' z hz) (Nat.le_refl b))
    · intro y hy
      rcases List.mem_append.mp hy with hy | hy
      · exact (hwithin y hy).mono hi hbj
      · exact (hwithin' y hy).mono (by omega) (Nat.le_refl j)

/-- Nodes in order start one behind the other. -/
theorem InOrder.pairwise_before {ns : List Node} (h : InOrder (Node.Occupies o ts) ns i j) :
    ns.Pairwise fun m n => m.span.start.Before n.span.start := by
  have hsingle : ∀ n ∈ ns, ∀ a b, n.Occupies o ts a b → a ≤ b ∧
      [n].Pairwise (fun m n => m.span.start.Before n.span.start) ∧
      ∀ m ∈ [n], m.span.start.IsWithin ts a b := by
    intro n _ a b hn
    refine ⟨Nat.le_of_lt hn.lt, List.pairwise_singleton _ _, ?_⟩
    simpa using hn.isWithin
  obtain ⟨-, hpairs, -⟩ := h.pairwise_flatMap hts (fun _ _ hbefore => hbefore) hsingle
  simpa using hpairs

/-- The walk over nodes in order never goes back, if the walk over each of them does not. -/
theorem InOrder.walk_notAfter {cs : List (Role × Node)} {depth : Nat}
    (h : InOrder (fun c => c.2.Occupies o ts) cs i j)
    (hwalk : ∀ c ∈ cs, ∀ a b, c.2.Occupies o ts a b →
      (c.2.walk depth c.1).Pairwise (fun v w => v.start.NotAfter w.start) ∧
        ∀ v ∈ c.2.walk depth c.1, v.start.IsWithin ts a b) :
    (cs.flatMap fun c => c.2.walk depth c.1).Pairwise (fun v w => v.start.NotAfter w.start) ∧
      ∀ v ∈ cs.flatMap fun c => c.2.walk depth c.1, v.start.IsWithin ts i j :=
  (h.pairwise_flatMap hts (fun _ _ => .inr) fun c hc a b hn =>
    ⟨Nat.le_of_lt hn.lt, hwalk c hc a b hn⟩).2

/-- The walk over a node never goes back, and stays among the tokens of the node. -/
theorem Node.Occupies.walk_notAfter (h : n.Occupies o ts i j) (depth : Nat) (role : Role) :
    (n.walk depth role).Pairwise (fun v w => v.start.NotAfter w.start) ∧
      ∀ v ∈ n.walk depth role, v.start.IsWithin ts i j := by
  induction n using Node.child_induction generalizing i j depth role with
  | step n ih =>
    have hself := h.isWithin
    obtain ⟨t, ht, hpos⟩ := h.exists_first
    cases h with
    | intro _ _ _ _ _ hchildren =>
      obtain ⟨hpairs, hwithin⟩ := hchildren.of_map.walk_notAfter hts
        fun c hc a b hoccupies => ih c hc hoccupies (depth + 1) c.1
      rw [Node.walk_eq]
      refine ⟨List.pairwise_cons.mpr ⟨fun v hv => ?_, hpairs⟩,
        List.forall_mem_cons.mpr ⟨hself, hwithin⟩⟩
      -- A node below may start with the same token, and otherwise starts with a later one.
      obtain ⟨k, u, hik, -, hu, hupos⟩ := hwithin v hv
      rcases Nat.eq_or_lt_of_le hik with rfl | hlt
      · have htu : t = u := Option.some.inj (ht.symm.trans hu)
        exact .inl (hpos.symm.trans ((congrArg Token.pos htu).trans hupos))
      · have hn : n.span.start.IsWithin ts i (i + 1) :=
          ⟨i, t, Nat.le_refl i, Nat.lt_succ_self i, ht, hpos⟩
        exact .inr (hn.before hts ⟨k, u, hlt, Nat.lt_succ_self k, hu, hupos⟩ (Nat.le_refl _))

end

theorem InOrder.exists_of_mem {α : Type} {R : α → Nat → Nat → Prop} {x : α} {xs : List α}
    {i j : Nat} (h : InOrder R xs i j) (hx : x ∈ xs) : ∃ a b, R x a b := by
  induction h with
  | nil _ => cases hx
  | cons _ hy _ ih =>
    rcases List.mem_cons.mp hx with rfl | hx
    · exact ⟨_, _, hy⟩
    · exact ih hx

/-- Every node below one that takes tokens takes some of its own. -/
theorem Node.Occupies.exists_of_mem_walk {o : Options} {ts : List Token} {n : Node} {i j : Nat}
    (h : n.Occupies o ts i j) {depth : Nat} {role : Role} {v : Visit}
    (hv : v ∈ n.walk depth role) : ∃ a b, v.node.Occupies o ts a b := by
  induction n using Node.child_induction generalizing i j depth role with
  | step n ih =>
    rw [Node.walk_eq] at hv
    rcases List.mem_cons.mp hv with rfl | hv
    · exact ⟨i, j, h⟩
    · obtain ⟨c, hc, hv⟩ := List.mem_flatMap.mp hv
      cases h with
      | intro _ _ _ _ _ hchildren =>
        obtain ⟨a, b, hoccupies⟩ := hchildren.exists_of_mem (List.mem_map_of_mem hc)
        exact ih c hc hoccupies hv

/-- The tokens of a text stand one behind the other. -/
theorem pairwise_before_of_tokenize {source : Bytes} {tokens : List Token}
    (h : tokenize source = .ok tokens) : tokens.Pairwise fun t u => t.pos.Before u.pos :=
  (scan_ordered (tokenize_eq_ok.1 h)).1

/-- The statements of a program divide the tokens before the end among them, in order and
without a gap, and every node of the program takes tokens of its own: a range that is not
empty, with the first of which it starts and with which it is written, and in which the ranges
of its children follow each other. If the tokens are those of a text, then a walk over the
program never goes back, and statements and other nodes with the same parent start one behind
the other. -/
theorem parse_ranges (o : Options) :
    (∀ (ts : List Token) (program : List Stmt), (Parser.fresh o ts).parse.1 = .ok program →
      Tiles (Node.Occupies o ts) (program.map Node.stmt) 0 (endIndex ts) ∧
        ∀ v ∈ walk program, ∃ i j, v.node.Occupies o ts i j) ∧
    ∀ (source : Bytes) (program : List Stmt), parseSource o source = .ok program →
      (walk program).Pairwise (fun v w => v.start.NotAfter w.start) ∧
        program.Pairwise (fun s r => s.span.start.Before r.span.start) ∧
        ∀ v ∈ walk program,
          v.node.children.Pairwise fun c d => c.2.span.start.Before d.2.span.start := by
  have hnodes : ∀ {ts : List Token} {program : List Stmt},
      (Parser.fresh o ts).parse.1 = .ok program →
      ∀ v ∈ walk program, ∃ i j, v.node.Occupies o ts i j := by
    intro ts program h v hv
    obtain ⟨s, hs, hv⟩ := List.mem_flatMap.mp hv
    obtain ⟨a, b, hoccupies⟩ := (tiles_of_parse h).inOrder.exists_of_mem (List.mem_map_of_mem hs)
    exact hoccupies.exists_of_mem_walk hv
  refine ⟨fun ts program h => ⟨tiles_of_parse h, hnodes h⟩, fun source program h => ?_⟩
  obtain ⟨tokens, htokens, hparse⟩ := exists_tokens_of_parseSource h
  have hordered := pairwise_before_of_tokenize htokens
  have hstmts := (tiles_of_parse hparse).inOrder
  refine ⟨?_, ?_, fun v hv => ?_⟩
  · have hroles : InOrder (fun c => c.2.Occupies o tokens)
        (program.map fun s => (Role.top, Node.stmt s)) 0 (endIndex tokens) :=
      hstmts.of_map.map fun _ _ _ _ hoccupies => hoccupies
    obtain ⟨hwalk, -⟩ := hroles.walk_notAfter hordered
      fun c _ _ _ hoccupies => hoccupies.walk_notAfter hordered 0 c.1
    rwa [List.flatMap_map] at hwalk
  · have hpairs := hstmts.pairwise_before hordered
    rwa [List.pairwise_map] at hpairs
  · obtain ⟨i, j, hoccupies⟩ := hnodes hparse v hv
    cases hoccupies with
    | intro _ _ _ _ _ hchildren =>
      have hpairs := hchildren.pairwise_before hordered
      rwa [List.pairwise_map] at hpairs

/-- A struct with two members, and below it a difference that starts with a call. -/
def twoLineText : Bytes := utf8 "struct S \x7b a: t; b: t; \x7d\nf(x)-y;"

/-- The tokens of the two lines. -/
def twoLineTokens : List Token :=
  [⟨.keyword .struct, utf8 "struct", ⟨1, 1⟩⟩, ⟨.ident (utf8 "S"), utf8 "S", ⟨1, 8⟩⟩,
    ⟨.punct .openBrace, utf8 "\x7b", ⟨1, 10⟩⟩, ⟨.ident (utf8 "a"), utf8 "a", ⟨1, 12⟩⟩,
    ⟨.punct .colon, utf8 ":", ⟨1, 13⟩⟩, ⟨.ident (utf8 "t"), utf8 "t", ⟨1, 15⟩⟩,
    ⟨.punct .semicolon, utf8 ";", ⟨1, 16⟩⟩, ⟨.ident (utf8 "b"), utf8 "b", ⟨1, 18⟩⟩,
    ⟨.punct .colon, utf8 ":", ⟨1, 19⟩⟩, ⟨.ident (utf8 "t"), utf8 "t", ⟨1, 21⟩⟩,
    ⟨.punct .semicolon, utf8 ";", ⟨1, 22⟩⟩, ⟨.punct .closeBrace, utf8 "\x7d", ⟨1, 24⟩⟩,
    ⟨.ident (utf8 "f"), utf8 "f", ⟨2, 1⟩⟩, ⟨.punct .openParen, utf8 "(", ⟨2, 2⟩⟩,
    ⟨.ident (utf8 "x"), utf8 "x", ⟨2, 3⟩⟩, ⟨.punct .closeParen, utf8 ")", ⟨2, 4⟩⟩,
    ⟨.operator .minus, utf8 "-", ⟨2, 5⟩⟩, ⟨.ident (utf8 "y"), utf8 "y", ⟨2, 6⟩⟩,
    ⟨.punct .semicolon, utf8 ";", ⟨2, 7⟩⟩, .eof ⟨2, 8⟩]

/-- The second member is not kept, and still the struct takes all twelve tokens of its line. -/
theorem parse_ranges_twoLines :
    ∃ program, parseSource {} twoLineText = .ok program ∧
      program.map (fun s => s.span.start) = [⟨1, 1⟩, ⟨2, 1⟩] ∧
      Tiles (Node.Occupies {} twoLineTokens) (program.map Node.stmt) 0 19 ∧
      (walk program).Pairwise fun v w => v.start.NotAfter w.start := by
  have htokens : tokenize twoLineText = .ok twoLineTokens := by decide +kernel
  have hparse : (Parser.fresh {} twoLineTokens).parse.1 = .ok _ := rfl
  have hsource := parseSource_of_read htokens hparse
  obtain ⟨hranges, hstarts⟩ := parse_ranges {}
  exact ⟨_, hsource, rfl, (hranges _ _ hparse).1, (hstarts _ _ hsource).1⟩

end ShaderFront
