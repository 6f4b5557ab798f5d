import ShaderFront.Proofs.Surface

/-!
# Balanced parentheses

Among the parentheses that are open after a row of tokens, the innermost one is that
after which all parentheses have their counterpart. Expressions are written with such
rows.
-/

namespace ShaderFront

/-! ## Open parentheses -/

/-- How many parentheses are open after a row of tokens, if none closes that is not open. -/
def openParens? (n : Nat) : List Token → Option Nat
  | [] => some n
  | t :: ts =>
    if t.symbol = .punct .openParen then openParens? (n + 1) ts
    else if t.symbol = .punct .closeParen then
      if n = 0 then none else openParens? (n - 1) ts
    else openParens? n ts

/-- Does every parenthesis in the row of tokens have its counterpart there? -/
def isBalanced (ts : List Token) : Bool := openParens? 0 ts = some 0

theorem openParens?_append (n : Nat) (ts us : List Token) :
    openParens? n (ts ++ us) = (openParens? n ts).bind fun m => openParens? m us := by
  induction ts generalizing n with
  | nil => rfl
  | cons t ts ih =>
    simp only [List.cons_append, openParens?]
    split
    · exact ih _
    · split
      · split
        · rfl
        · exact ih _
      · exact ih _

/-- Parentheses that were open before stay open. -/
theorem openParens?_add {n m : Nat} {ts : List Token} (h : openParens? n ts = some m) (k : Nat) :
    openParens? (n + k) ts = some (m + k) := by
  induction ts generalizing n with
  | nil =>
    cases h
    rfl
  | cons t ts ih =>
    simp only [openParens?] at h ⊢
    split at h
    · next ht =>
      rw [if_pos ht, Nat.add_right_comm]
      exact ih h
    · next ht =>
      rw [if_neg ht]
      split at h
      · next ht' =>
        split at h
        · cases h
        · next hn =>
          rw [if_pos ht', if_neg (by omega), show n + k - 1 = n - 1 + k by omega]
          exact ih h
      · next ht' =>
        rw [if_neg ht']
        exact ih h

/-- A balanced row opens and closes nothing for what is around it. -/
theorem openParens?_of_isBalanced {ts : List Token} (h : isBalanced ts = true) (n : Nat) :
    openParens? n ts = some n := by
  have hn := openParens?_add (of_decide_eq_true h) n
  rwa [Nat.zero_add] at hn

/-- There is no open parenthesis in a balanced row that is followed by a balanced row. -/
theorem not_isBalanced_of_open {ts us : List Token} {t : Token} (ht : t.symbol = .punct .openParen)
    (hus : isBalanced us = true) : isBalanced (ts ++ t :: us) = false := by
  rw [isBalanced, decide_eq_false_iff_not, openParens?_append]
  intro h
  obtain ⟨n, -, hn⟩ := Option.bind_eq_some_iff.mp h
  rw [openParens?, if_pos ht, openParens?_of_isBalanced hus] at hn
  cases hn

/-- The innermost open parenthesis is the one that is followed by a balanced row. -/
theorem eq_of_open_eq {xs ys ts us : List Token} {t u : Token} (ht : t.symbol = .punct .openParen)
    (hu : u.symbol = .punct .openParen) (hts : isBalanced ts = true) (hus : isBalanced us = true)
    (h : xs ++ t :: ts = ys ++ u :: us) : xs = ys := by
  rcases List.append_eq_append_iff.mp h with ⟨zs, hzs, hmid⟩ | ⟨zs, hzs, hmid⟩
  · cases zs with
    | nil => simpa using hzs.symm
    | cons z zs =>
      rw [List.cons_append] at hmid
      cases hmid
      rw [not_isBalanced_of_open hu hus] at hts
      cases hts
  · cases zs with
    | nil => simpa using hzs
    | cons z zs =>
      rw [List.cons_append] at hmid
      cases hmid
      rw [not_isBalanced_of_open ht hts] at hus
      cases hus

/-! ## Written forms -/

/-- Whatever is written there, it opens and closes nothing for what is around it. -/
def AreBalanced (pieces : List Piece) : Prop :=
  ∀ ts, Spells pieces ts → isBalanced ts = true

theorem areBalanced_append {ps qs : List Piece} (hp : AreBalanced ps) (hq : AreBalanced qs) :
    AreBalanced (ps ++ qs) := by
  intro ts hts
  obtain ⟨us, vs, rfl, hus, hvs⟩ := spells_append.mp hts
  refine decide_eq_true ?_
  rw [openParens?_append, openParens?_of_isBalanced (hp us hus)]
  exact openParens?_of_isBalanced (hq vs hvs) 0

theorem areBalanced_nil : AreBalanced [] := by
  intro ts hts
  rw [spells_nil.mp hts]
  rfl

/-- Is the symbol a parenthesis? -/
def Symbol.isParen : Symbol → Bool
  | .punct .openParen | .punct .closeParen => true
  | _ => false

/-- What is no parenthesis is balanced by itself. -/
theorem areBalanced_cons {s : Symbol} {ps : List Piece} (hs : s.isParen = false)
    (h : AreBalanced ps) : AreBalanced (.symbol s :: ps) := by
  intro ts hts
  obtain ⟨t, us, rfl, ht, hus⟩ := spells_cons.mp hts
  rw [Piece.fits_symbol] at ht
  have hne {p : Punct} (hp : (Symbol.punct p).isParen = true) : t.symbol ≠ .punct p := by
    intro he
    rw [← ht, he, hp] at hs
    cases hs
  rw [isBalanced, openParens?, if_neg (hne rfl), if_neg (hne rfl)]
  exact h us hus

/-- Parentheses around what is balanced are balanced. -/
theorem areBalanced_parens {ps : List Piece} (h : AreBalanced ps) :
    AreBalanced (Piece.mark .openParen :: (ps ++ [Piece.mark .closeParen])) := by
  intro ts hts
  obtain ⟨t, us, rfl, ht, hus⟩ := spells_cons.mp hts
  obtain ⟨vs, ws, rfl, hvs, hws⟩ := spells_append.mp hus
  obtain ⟨u, rfl, hu⟩ := spells_singleton.mp hws
  rw [Piece.fits_mark] at ht hu
  refine decide_eq_true ?_
  rw [openParens?, if_pos ht, openParens?_append, openParens?_of_isBalanced (h vs hvs)]
  simp [openParens?, hu]

theorem areBalanced_typeWord (type : Bytes) : AreBalanced [Piece.typeWord type] := by
  unfold Piece.typeWord
  split
  · exact areBalanced_cons rfl areBalanced_nil
  · exact areBalanced_cons rfl areBalanced_nil

mutual

/-- The written form of an expression is balanced. -/
theorem Expr.areBalanced_surface : ∀ e : Expr, AreBalanced e.surface
  | .hole => areBalanced_nil
  | .binary _ left right _ =>
    areBalanced_append left.areBalanced_surface (areBalanced_cons rfl right.areBalanced_surface)
  | .unary _ operand _ => areBalanced_cons rfl operand.areBalanced_surface
  | .bool _ _ | .number _ _ | .string _ _ | .ident _ _ => areBalanced_cons rfl areBalanced_nil
  | .paren inner _ => areBalanced_parens inner.areBalanced_surface
  | .member _ _ _ =>
    areBalanced_cons rfl (areBalanced_cons rfl (areBalanced_cons rfl areBalanced_nil))
  | .call callee args _ =>
    areBalanced_append callee.areBalanced_surface
      (areBalanced_parens (Expr.areBalanced_surfaceArgs args))
  | .construct type args _ =>
    areBalanced_append (areBalanced_typeWord type)
      (areBalanced_parens (Expr.areBalanced_surfaceArgs args))

/-- So is that of a list of arguments. -/
theorem Expr.areBalanced_surfaceArgs : ∀ es : List Expr, AreBalanced (Expr.surfaceArgs es)
  | [] => areBalanced_nil
  | e :: es => areBalanced_append e.areBalanced_surface (Expr.areBalanced_surfaceMore es)

/-- So is that of further arguments. -/
theorem Expr.areBalanced_surfaceMore : ∀ es : List Expr, AreBalanced (Expr.surfaceMore es)
  | [] => areBalanced_nil
  | e :: es =>
    areBalanced_cons rfl
      (areBalanced_append e.areBalanced_surface (Expr.areBalanced_surfaceMore es))

end

end ShaderFront
