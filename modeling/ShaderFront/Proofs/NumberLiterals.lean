import ShaderFront.Number.Decimal
import ShaderFront.Proofs.Lossless
import ShaderFront.Proofs.Members
import ShaderFront.Proofs.ParsedShape
import ShaderFront.Proofs.Spelling

/-!
# Number literals

The numbers in a program are the values of its number tokens, and such a value is never one
of the patterns that denote no number. The grammar may drop members of structs, so a program
is not always written with all of its tokens, but a token that is taken is the only one that
can bring a number along.
-/

namespace ShaderFront

/-! ## Values of decimals -/

/-- What is nearest to a quotient is a number. -/
theorem Binary64.isNaN_of_nearest? {num den : Nat} {x : Binary64} (h : nearest? num den = some x) :
    x.isNaN = false := by
  unfold nearest? at h
  split at h
  · cases h
    decide
  · dsimp only at h
    split at h
    · next hbits =>
      cases h
      have hbound : infinityBits < signUnit := by decide
      have hsize : infinityBits < UInt64.size := by decide
      have hbits64 := Nat.lt_trans hbits hsize
      simp only [isNaN, magnitude, UInt64.toNat_ofNat_of_lt' hbits64, decide_eq_false_iff_not]
      rw [Nat.mod_eq_of_lt (Nat.lt_trans hbits hbound)]
      omega
    · cases h

/-- The value of a number literal is a number. -/
theorem Binary64.isNaN_of_ofText? {t : Bytes} {x : Binary64} (h : ofText? t = some x) :
    x.isNaN = false := by
  obtain ⟨d, -, hd⟩ := Option.bind_eq_some_iff.mp h
  exact isNaN_of_nearest? hd

/-- The number of a token that is scanned is a number. -/
theorem isNaN_of_tokenize {source : Bytes} {tokens : List Token}
    (h : tokenize source = .ok tokens) {t : Token} (ht : t ∈ tokens) {x : Binary64}
    (hx : t.symbol = .number x) : x.isNaN = false := by
  obtain ⟨read, rest, hglyphs, -, hrest⟩ := exists_place_of_scan (tokenize_eq_ok.1 h) ht
  rw [hx] at hrest
  rcases hrest with ⟨-, hend⟩ | ⟨g, more, n, rfl, he, -⟩
  · cases hend
  · have hd := hglyphs ▸ isDecoded_decode source
    have hspelled : Binary64.ofText? (glyphBytes (g :: more.take n)) = some x :=
      element_isSpelledBy hd.of_append.2 he
    exact Binary64.isNaN_of_ofText? hspelled

/-! ## Where the numbers of a program come from -/

/-- The place of a number. -/
def Piece.number (x : Binary64) : Piece := .symbol (.number x)

/-- The struct with a further member, which may be dropped, has no more numbers. -/
theorem OpenStruct.number_mem_of_add {o : Options} {s : OpenStruct} {m : Member} {x : Binary64}
    (h : Piece.number x ∈ (s.add o m).written) : Piece.number x ∈ s.written := by
  unfold OpenStruct.add at h
  split at h
  · simpa [OpenStruct.written, Member.surface, Piece.number, Piece.mark, Piece.ident] using h
  · exact h

/-- Inside a struct no token brings a number along. -/
theorem Takes.number_mem_of_inStruct {o : Options} {done : List Stmt} {scopes : List Scope}
    {t : Token} {mode : Mode} {next : State} (h : Takes o done scopes t mode next)
    (hs : mode.inStruct = true) :
    next.mode.Regular ∧ ∀ x, Piece.number x ∈ next.written →
      Piece.number x ∈ (⟨done, scopes, mode⟩ : State).written := by
  cases h with
  | closeStruct _ _ =>
    refine ⟨regular_addStatement _ _ _, fun x hx => ?_⟩
    rw [written_addStatement, OpenStruct.surface_close] at hx
    simpa [Piece.number, Piece.mark] using hx
  | memberName _ | memberColon _ | memberType _ =>
    refine ⟨trivial, fun x hx => ?_⟩
    simpa [Piece.number, Piece.mark, Piece.ident] using hx
  | memberEnd _ =>
    refine ⟨trivial, fun x hx => ?_⟩
    simp only [State.written_mk, Mode.written, List.mem_append] at hx ⊢
    exact hx.imp_right (.imp_right fun hx => .inl (OpenStruct.number_mem_of_add hx))
  | _ => cases hs

/-- A number that was read is that of the token that is taken, or was there before. -/
theorem State.number_mem_of_take? {o : Options} {s next : State} {t : Token}
    (hr : s.mode.Regular) (h : s.take? o t = some next) :
    next.mode.Regular ∧ ∀ x, Piece.number x ∈ next.written →
      Piece.number x ∈ s.written ∨ t.symbol = .number x := by
  cases hs : s.mode.inStruct with
  | true =>
    obtain ⟨hreg, hold⟩ := (State.takes_of_take? h).number_mem_of_inStruct hs
    exact ⟨hreg, fun x hx => .inl (hold x hx)⟩
  | false =>
    -- Outside structs the token is taken in the same way if all members are kept.
    have hkeeping : s.take? (o.keeping true) t = some next := by
      rw [State.take?_keeping o true o.allMembers hs]
      exact h
    obtain ⟨hreg, p, hp, hw⟩ := (State.takes_of_take? hkeeping).written rfl hr
    refine ⟨hreg, fun x hx => ?_⟩
    rw [hw] at hx
    rcases List.mem_append.mp hx with hx | hx
    · exact .inl hx
    · rw [← List.mem_singleton.mp hx] at hp
      exact .inr ((Piece.fits_symbol _ _).mp hp)

/-- A number that was read is that of a token. -/
theorem State.exists_number_of_takeAll? {o : Options} {s next : State} {ts : List Token}
    (hr : s.mode.Regular) (h : s.takeAll? o ts = some next) {x : Binary64}
    (hx : Piece.number x ∈ next.written) :
    Piece.number x ∈ s.written ∨ ∃ t ∈ ts, t.symbol = .number x := by
  induction ts generalizing s with
  | nil =>
    cases h
    exact .inl hx
  | cons t ts ih =>
    obtain ⟨mid, ht, hts⟩ := Option.bind_eq_some_iff.mp h
    obtain ⟨hreg, hone⟩ := State.number_mem_of_take? hr ht
    rcases ih hreg hts with hmid | ⟨u, hu, hux⟩
    · rcases hone x hmid with hs | hsymbol
      · exact .inl hs
      · exact .inr ⟨t, List.mem_cons_self, hsymbol⟩
    · exact .inr ⟨u, List.mem_cons_of_mem _ hu, hux⟩

/-- A number of a program that is read from a text is a number. -/
theorem isNaN_of_parseSource {o : Options} {source : Bytes} {program : List Stmt}
    (h : parseSource o source = .ok program) {x : Binary64}
    (hx : Piece.number x ∈ surface program) : x.isNaN = false := by
  obtain ⟨tokens, htokens, hparse⟩ := exists_tokens_of_parseSource h
  obtain ⟨next, htaken, hc, rfl⟩ := takeAll?_of_parse hparse
  rw [← State.written_of_isComplete hc] at hx
  have hr : State.start.mode.Regular := trivial
  rcases State.exists_number_of_takeAll? hr htaken hx with hstart | ⟨t, ht, hsymbol⟩
  · cases hstart
  · exact isNaN_of_tokenize htokens (List.takeWhile_subset _ ht) hsymbol

/-! ## Numbers of the nodes -/

theorem Expr.surface_subset_surfaceMore {e : Expr} {es : List Expr} (h : e ∈ es) :
    e.surface ⊆ surfaceMore es := by
  induction es with
  | nil => cases h
  | cons f es ih =>
    rw [surfaceMore]
    rcases List.mem_cons.mp h with rfl | h
    · exact List.subset_cons_of_subset _ (List.subset_append_left _ _)
    · exact List.subset_cons_of_subset _ (List.subset_append_of_subset_right _ (ih h))

theorem Expr.surface_subset_surfaceArgs {e : Expr} {es : List Expr} (h : e ∈ es) :
    e.surface ⊆ surfaceArgs es := by
  cases es with
  | nil => cases h
  | cons f es =>
    rw [surfaceArgs]
    rcases List.mem_cons.mp h with rfl | h
    · exact List.subset_append_left _ _
    · exact List.subset_append_of_subset_right _ (surface_subset_surfaceMore h)

theorem Stmt.surface_subset {s : Stmt} {ss : List Stmt} (h : s ∈ ss) :
    s.surface ⊆ ShaderFront.surface ss := by
  induction ss with
  | nil => cases h
  | cons r ss ih =>
    rw [ShaderFront.surface]
    rcases List.mem_cons.mp h with rfl | h
    · exact List.subset_append_left _ _
    · exact List.subset_append_of_subset_right _ (ih h)

/-- A well-formed node is written with all that its children are written with. -/
theorem Node.surface_subset {o : Options} {n : Node} (h : n.isWellFormed o = true)
    {c : Role × Node} (hc : c ∈ n.children) : c.2.surface ⊆ n.surface := by
  cases n with
  | member m => cases hc
  | stmt s =>
    cases s with
    | hole => cases hc
    | expr value span =>
      rw [List.mem_singleton.mp hc]
      exact List.subset_append_left _ _
    | cond condition body span =>
      intro p hp
      simp only [children, List.mem_cons, List.not_mem_nil, or_false] at hc
      rcases hc with rfl | rfl <;> simp_all [surface, Stmt.surface]
    | block body span =>
      obtain ⟨s, hs, rfl⟩ := List.mem_map.mp hc
      intro p hp
      have hbody := Stmt.surface_subset hs hp
      simp [surface, Stmt.surface, hbody]
    | decl head init =>
      obtain ⟨e, he, rfl⟩ := List.mem_map.mp hc
      intro p hp
      cases init with
      | none => cases he
      | some value => simp_all [surface, Stmt.surface, surfaceInit]
    | directive name params span =>
      rw [show params = [] from List.isEmpty_iff.mp h] at hc
      cases hc
    | function head params body span =>
      rw [List.mem_singleton.mp hc]
      intro p hp
      simp only [surface, Stmt.surface] at hp ⊢
      exact List.mem_append_right _ (List.mem_cons_of_mem _ (List.mem_cons_of_mem _ hp))
    | struct attr name members span =>
      obtain ⟨m, hm, rfl⟩ := List.mem_map.mp hc
      intro p hp
      have hmembers : p ∈ members.flatMap Member.surface := List.mem_flatMap.mpr ⟨m, hm, hp⟩
      simp [surface, Stmt.surface, hmembers]
  | expr e =>
    cases e with
    | hole | bool _ _ | number _ _ | string _ _ | ident _ _ | member _ _ _ => cases hc
    | binary op left right span =>
      intro p hp
      simp only [children, List.mem_cons, List.not_mem_nil, or_false] at hc
      rcases hc with rfl | rfl <;> simp_all [surface, Expr.surface]
    | unary op operand span =>
      rw [List.mem_singleton.mp hc]
      exact List.subset_cons_self _ _
    | paren inner span =>
      rw [List.mem_singleton.mp hc]
      exact List.subset_cons_of_subset _ (List.subset_append_left _ _)
    | call callee args span =>
      intro p hp
      rcases List.mem_cons.mp hc with rfl | hc
      · exact List.mem_append_left _ hp
      · obtain ⟨e, he, rfl⟩ := List.mem_map.mp hc
        have hargs := Expr.surface_subset_surfaceArgs he hp
        simp [surface, Expr.surface, hargs]
    | construct type args span =>
      obtain ⟨e, he, rfl⟩ := List.mem_map.mp hc
      intro p hp
      have hargs := Expr.surface_subset_surfaceArgs he hp
      simp [surface, Expr.surface, hargs]

end ShaderFront
