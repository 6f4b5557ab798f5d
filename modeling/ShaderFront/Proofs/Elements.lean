import ShaderFront.Proofs.Decoding
import ShaderFront.Token.Scan

/-!
# Elements are settled by what they take

What a lexical element is read as depends on the glyphs that it takes and on whether
another glyph that it could take comes next. A blank is no such glyph for a token, so a
token that ends a text is the same token with the same extent when a blank and any other
text follow it. A comment up to the end of its line needs a line feed for that, and what
the end of the text cut off may well go on.
-/

namespace ShaderFront

/-! ## Readings that stay -/

/-- Is this the cause of an element that the text ends in? -/
def LexicalCause.isUnterminated : LexicalCause → Bool
  | unterminatedString | unterminatedComment | unterminatedAttribute => true
  | malformedNumber _ | unexpectedCharacter _ | missingAttributeName | emptyAttributeName
  | halfOperator _ => false

/-- Does an element with this reading stay as it is when the given blank is put after the
text that it was read from? -/
def Reading.staysBefore (w : Char) : Reading → Bool
  | gap => w = '\n'
  | symbol _ => true
  | fault cause => !cause.isUnterminated

/-! ## Rows of glyphs that a blank ends -/

/-- A glyph outside a class ends the longest row of that class. -/
theorem takeWhile_append_stop {p : Glyph → Bool} {w : Glyph} (hw : p w = false)
    (rest more : List Glyph) : (rest ++ w :: more).takeWhile p = rest.takeWhile p := by
  have hstop : (w :: more).takeWhile p = [] := List.takeWhile_cons_of_neg (by simp [hw])
  rw [List.takeWhile_append, hstop, List.append_nil]
  split
  case isTrue h => exact (List.takeWhile_prefix p).eq_of_length h |>.symm
  case isFalse => rfl

/-- A row that ends within a text ends there whatever follows the text. -/
theorem takeWhile_append_of_dropWhile {p : Glyph → Bool} {rest : List Glyph}
    (h : rest.dropWhile p ≠ []) (more : List Glyph) :
    (rest ++ more).takeWhile p = rest.takeWhile p ∧
      (rest ++ more).dropWhile p = rest.dropWhile p ++ more := by
  have hlen : (rest.takeWhile p).length ≠ rest.length := by
    intro he
    have hsplit := List.takeWhile_append_dropWhile (p := p) (l := rest)
    rw [(List.takeWhile_prefix p).eq_of_length he] at hsplit
    exact h (List.append_right_eq_self.1 hsplit)
  refine ⟨?_, ?_⟩
  · rw [List.takeWhile_append, if_neg hlen]
  · rw [List.dropWhile_append, if_neg (by simp [h])]

/-- There are four blanks. -/
theorem eq_of_isGap {w : Char} (hw : isGap w = true) :
    w = ' ' ∨ w = '\t' ∨ w = '\r' ∨ w = '\n' := by
  simpa [isGap, or_assoc] using hw

/-- A blank is in no name. -/
theorem inName_of_isGap {w : Char} (hw : isGap w = true) : (Glyph.char w).inName = false := by
  rcases eq_of_isGap hw with rfl | rfl | rfl | rfl <;> decide

/-- A blank is in no number. -/
theorem inNumber_of_isGap {w : Char} (hw : isGap w = true) :
    (Glyph.char w).inNumber = false := by
  rcases eq_of_isGap hw with rfl | rfl | rfl | rfl <;> decide

/-! ## Elements before a blank -/

/-- A block comment that ends does so whatever follows it. -/
theorem commentEnd?_append {gs : List Glyph} {n : Nat} (h : commentEnd? gs = some n)
    (more : List Glyph) : commentEnd? (gs ++ more) = some n := by
  induction gs generalizing n with
  | nil => cases h
  | cons g gs ih =>
    have hne : gs ≠ [] := by
      rintro rfl
      simp [commentEnd?] at h
    rw [commentEnd?] at h
    have hhead : (gs ++ more).head? = gs.head? := by
      rw [List.head?_append, Option.or_of_isSome (List.isSome_head?.2 hne)]
    rw [List.cons_append, commentEnd?, hhead]
    split at h
    case isTrue hend => rw [if_pos hend, h]
    case isFalse hend =>
      obtain ⟨m, hm, rfl⟩ := Option.map_eq_some_iff.1 h
      rw [if_neg hend, ih hm]
      rfl

/-- An operator does not grow over a character that is not its second one. -/
theorem longerIf_append {w next : Char} (hw : w ≠ next) (rest more : List Glyph)
    (long short : Reading) :
    longerIf (rest ++ .char w :: more) next long short = longerIf rest next long short := by
  cases rest with
  | nil => simp [longerIf, hw]
  | cons g rest => rfl

/-- No operator grows over a blank. -/
theorem operatorElement?_append {w : Char} (hw : isGap w = true) (c : Char)
    (rest more : List Glyph) :
    operatorElement? c (rest ++ .char w :: more) = operatorElement? c rest := by
  have hequals : w ≠ '=' := by rintro rfl; cases hw
  have hand : w ≠ '&' := by rintro rfl; cases hw
  have hor : w ≠ '|' := by rintro rfl; cases hw
  simp only [operatorElement?, longerIf_append hequals, longerIf_append hand,
    longerIf_append hor]

/-- A slash that starts no comment is a division sign. -/
theorem slashElement_of_head? {rest : List Glyph} (hline : rest.head? ≠ some (.char '/'))
    (hblock : rest.head? ≠ some (.char '*')) :
    slashElement rest = ⟨.symbol (.operator .divide), 0⟩ := by
  unfold slashElement
  split
  · exact absurd rfl hline
  · exact absurd rfl hblock
  · rfl

/-- A comment or division sign stays before a blank that does not go on with it. -/
theorem slashElement_append {w : Char} (hw : isGap w = true) {rest : List Glyph}
    (h : (slashElement rest).reading.staysBefore w = true) (more : List Glyph) :
    slashElement (rest ++ .char w :: more) = slashElement rest := by
  have hslash : w ≠ '/' := by rintro rfl; cases hw
  have hstar : w ≠ '*' := by rintro rfl; cases hw
  fun_cases slashElement rest with
  | case1 comment =>
    obtain rfl : w = '\n' := by simpa [slashElement, Reading.staysBefore] using h
    rw [List.cons_append, slashElement, takeWhile_append_stop (by decide)]
  | case2 comment n hend =>
    rw [List.cons_append, slashElement, commentEnd?_append hend]
  | case3 comment hend =>
    simp [slashElement, hend, Reading.staysBefore, LexicalCause.isUnterminated] at h
  | case4 rest hline hblock =>
    apply slashElement_of_head?
    · cases rest with
      | nil => simp [hslash]
      | cons g rest =>
        rintro ⟨⟩
        exact hline rest rfl
    · cases rest with
      | nil => simp [hstar]
      | cons g rest =>
        rintro ⟨⟩
        exact hblock rest rfl

/-- A string literal that ends does so whatever follows it. -/
theorem stringElement_append {quote : Char} {rest : List Glyph}
    (h : (stringElement quote rest).reading ≠ .fault .unterminatedString) (more : List Glyph) :
    stringElement quote (rest ++ more) = stringElement quote rest := by
  have hne : rest.dropWhile (· ≠ .char quote) ≠ [] := by
    intro he
    simp only [stringElement, he] at h
    exact h rfl
  obtain ⟨htake, hdrop⟩ := takeWhile_append_of_dropWhile hne more
  obtain ⟨g, tail, hg⟩ := List.exists_cons_of_ne_nil hne
  rw [hg, List.cons_append] at hdrop
  simp only [stringElement, hdrop, htake, hg]

/-- A bracketed attribute that ends does so whatever follows it. -/
theorem bracketedAttribute_append {rest : List Glyph}
    (h : (bracketedAttribute rest).reading ≠ .fault .unterminatedAttribute)
    (more : List Glyph) :
    bracketedAttribute (rest ++ more) = bracketedAttribute rest := by
  have hne : rest.dropWhile (· ≠ .char ']') ≠ [] := by
    intro he
    simp only [bracketedAttribute, he] at h
    exact h rfl
  obtain ⟨htake, hdrop⟩ := takeWhile_append_of_dropWhile hne more
  obtain ⟨g, tail, hg⟩ := List.exists_cons_of_ne_nil hne
  rw [hg, List.cons_append] at hdrop
  simp only [bracketedAttribute, hdrop, htake, hg]

/-- A number sign that no bracket follows is read with the name after it. -/
theorem attributeElement_of_head? {rest : List Glyph} (h : rest.head? ≠ some (.char '[')) :
    attributeElement rest =
      if (rest.takeWhile Glyph.inName).isEmpty then ⟨.fault .missingAttributeName, 0⟩
      else ⟨.symbol (.attr (glyphBytes (rest.takeWhile Glyph.inName))),
        (rest.takeWhile Glyph.inName).length⟩ := by
  unfold attributeElement
  split
  · exact absurd rfl h
  · rfl

/-- An attribute stays before a blank unless its closing bracket is missing. -/
theorem attributeElement_append {w : Char} (hw : isGap w = true) {rest : List Glyph}
    (h : (attributeElement rest).reading ≠ .fault .unterminatedAttribute)
    (more : List Glyph) :
    attributeElement (rest ++ .char w :: more) = attributeElement rest := by
  by_cases hhead : rest.head? = some (.char '[')
  · obtain ⟨name, rfl⟩ : ∃ name, rest = .char '[' :: name := by
      cases rest with
      | nil => cases hhead
      | cons g name => exact ⟨name, by rw [Option.some.inj hhead]⟩
    rw [attributeElement] at h
    rw [List.cons_append, attributeElement, attributeElement, bracketedAttribute_append h]
  · have hhead' : (rest ++ .char w :: more).head? ≠ some (.char '[') := by
      cases rest with
      | nil =>
        rintro ⟨⟩
        cases hw
      | cons g rest => exact hhead
    rw [attributeElement_of_head? hhead, attributeElement_of_head? hhead',
      takeWhile_append_stop (inName_of_isGap hw)]

/-- An element that ends a text stays the same when a blank and any other text follow. -/
theorem element_append {g : Glyph} {rest : List Glyph} {w : Char} (hw : isGap w = true)
    (h : (element g rest).reading.staysBefore w = true) (more : List Glyph) :
    element g (rest ++ .char w :: more) = element g rest := by
  cases g with
  | stray b => rfl
  | char c =>
    simp only [element, operatorElement?_append hw] at h ⊢
    split
    · rfl
    · rfl
    · next hpunct hoperator =>
      simp only [hpunct, hoperator] at h
      split
      · rfl
      · next hgap =>
        rw [if_neg hgap] at h
        split
        · next hslash =>
          rw [if_pos hslash] at h
          exact slashElement_append hw h more
        · next hslash =>
          rw [if_neg hslash] at h
          split
          · next hquote =>
            rw [if_pos hquote] at h
            apply stringElement_append
            intro hfault
            rw [hfault] at h
            cases h
          · next hquote =>
            rw [if_neg hquote] at h
            split
            · next hsign =>
              rw [if_pos hsign] at h
              apply attributeElement_append hw
              intro hfault
              rw [hfault] at h
              cases h
            · simp only [numberElement, wordElement,
                takeWhile_append_stop (inNumber_of_isGap hw),
                takeWhile_append_stop (inName_of_isGap hw)]

/-! ## Elements within the text -/

/-- The end of a block comment lies within the text. -/
theorem commentEnd?_le {gs : List Glyph} {n : Nat} (h : commentEnd? gs = some n) :
    n ≤ gs.length := by
  induction gs generalizing n with
  | nil => cases h
  | cons g gs ih =>
    rw [commentEnd?] at h
    split at h
    case isTrue hend =>
      obtain rfl : 2 = n := Option.some.inj h
      cases gs with
      | nil => simp at hend
      | cons g' gs => simp
    case isFalse =>
      obtain ⟨m, hm, rfl⟩ := Option.map_eq_some_iff.1 h
      have hle := ih hm
      simp only [List.length_cons]
      omega

/-- A row that ends within a text is shorter than the text. -/
theorem length_takeWhile_lt {p : Glyph → Bool} {rest tail : List Glyph} {g : Glyph}
    (h : rest.dropWhile p = g :: tail) : (rest.takeWhile p).length < rest.length := by
  have hsplit := congrArg List.length (List.takeWhile_append_dropWhile (p := p) (l := rest))
  rw [h, List.length_append, List.length_cons] at hsplit
  omega

/-- An operator of two characters has both in the text. -/
theorem extent_longerIf_le (rest : List Glyph) (next : Char) (long short : Reading) :
    (longerIf rest next long short).extent ≤ rest.length := by
  unfold longerIf
  split
  case isTrue h =>
    cases rest with
    | nil => cases h
    | cons g rest => simp
  case isFalse => exact Nat.zero_le _

/-- An operator lies within the text. -/
theorem extent_operatorElement?_le {c : Char} {rest : List Glyph} {e : Element}
    (h : operatorElement? c rest = some e) : e.extent ≤ rest.length := by
  unfold operatorElement? at h
  split at h <;> cases h <;> simp [extent_longerIf_le]

/-- A comment or division sign lies within the text. -/
theorem extent_slashElement_le (rest : List Glyph) :
    (slashElement rest).extent ≤ rest.length := by
  fun_cases slashElement rest with
  | case1 comment =>
    have hle := (List.takeWhile_prefix (l := comment) (· ≠ .char '\n')).length_le
    simp only [List.length_cons]
    omega
  | case2 comment n hend =>
    have hle := commentEnd?_le hend
    simp only [List.length_cons]
    omega
  | case3 comment hend => exact Nat.le_refl _
  | case4 rest hline hblock => exact Nat.zero_le _

/-- A string literal lies within the text. -/
theorem extent_stringElement_le (quote : Char) (rest : List Glyph) :
    (stringElement quote rest).extent ≤ rest.length := by
  unfold stringElement
  split
  · exact Nat.le_refl _
  · next hdrop => exact length_takeWhile_lt hdrop

/-- An attribute lies within the text. -/
theorem extent_attributeElement_le (rest : List Glyph) :
    (attributeElement rest).extent ≤ rest.length := by
  unfold attributeElement
  split
  · next name =>
    unfold bracketedAttribute
    split
    · simp only [List.length_cons]
      omega
    · next hdrop =>
      have hlt := length_takeWhile_lt hdrop
      dsimp only
      split <;> simp only [List.length_cons] <;> omega
  · have hle := (List.takeWhile_prefix (l := rest) Glyph.inName).length_le
    dsimp only
    split
    · exact Nat.zero_le _
    · exact hle

/-- An element takes no more glyphs than there are. -/
theorem extent_element_le (g : Glyph) (rest : List Glyph) :
    (element g rest).extent ≤ rest.length := by
  unfold element
  split
  · exact Nat.zero_le _
  · split
    · exact Nat.zero_le _
    · next hoperator => exact extent_operatorElement?_le hoperator
    · split
      · exact Nat.zero_le _
      split
      · exact extent_slashElement_le rest
      split
      · exact extent_stringElement_le _ rest
      split
      · exact extent_attributeElement_le rest
      split
      · have hle := (List.takeWhile_prefix (l := rest) Glyph.inNumber).length_le
        unfold numberElement
        dsimp only
        split <;> exact hle
      split
      · exact (List.takeWhile_prefix (l := rest) Glyph.inName).length_le
      · exact Nat.zero_le _

/-! ## Scanning an element -/

/-- A blank or a comment leaves nothing behind. -/
theorem scan_gap {g : Glyph} {rest : List Glyph} {n : Nat} (h : element g rest = ⟨.gap, n⟩)
    (p : Position) :
    scan p (g :: rest) = scan (p.advanceOver (g :: rest.take n)) (rest.drop n) := by
  rw [scan]
  simp only [h]

/-- A token is put before the tokens of the text after it. -/
theorem scan_symbol {g : Glyph} {rest : List Glyph} {s : Symbol} {n : Nat}
    (h : element g rest = ⟨.symbol s, n⟩) (p : Position) :
    scan p (g :: rest) =
      (scan (p.advanceOver (g :: rest.take n)) (rest.drop n)).map
        (⟨s, glyphBytes (g :: rest.take n), p⟩ :: ·) := by
  rw [scan]
  simp only [h]

/-- A blank or a comment that is cut off leaves the text after it. -/
theorem scan_gap_append {g : Glyph} {taken more : List Glyph}
    (h : element g (taken ++ more) = ⟨.gap, taken.length⟩) (p : Position) :
    scan p (g :: (taken ++ more)) = scan (p.advanceOver (g :: taken)) more := by
  rw [scan_gap h, List.take_left, List.drop_left]

/-- A token that is cut off is put before the tokens of the text after it. -/
theorem scan_symbol_append {g : Glyph} {taken more : List Glyph} {s : Symbol}
    (h : element g (taken ++ more) = ⟨.symbol s, taken.length⟩) (p : Position) :
    scan p (g :: (taken ++ more)) =
      (scan (p.advanceOver (g :: taken)) more).map (⟨s, glyphBytes (g :: taken), p⟩ :: ·) := by
  rw [scan_symbol h, List.take_left, List.drop_left]

/-- Where a text that starts with a token can be scanned, so can the text after the token. -/
theorem scan_symbol_eq_ok {g : Glyph} {rest : List Glyph} {s : Symbol} {n : Nat}
    (he : element g rest = ⟨.symbol s, n⟩) {p : Position} {ts : List Token}
    (h : scan p (g :: rest) = .ok ts) :
    ∃ more, scan (p.advanceOver (g :: rest.take n)) (rest.drop n) = .ok more ∧
      ts = ⟨s, glyphBytes (g :: rest.take n), p⟩ :: more := by
  rw [scan_symbol he] at h
  cases hmore : scan (p.advanceOver (g :: rest.take n)) (rest.drop n) with
  | error fault =>
    rw [hmore] at h
    cases h
  | ok more =>
    rw [hmore] at h
    cases h
    exact ⟨more, rfl, rfl⟩

/-- Where a text that starts with a token cannot be scanned, the fault is after the token. -/
theorem scan_symbol_eq_error {g : Glyph} {rest : List Glyph} {s : Symbol} {n : Nat}
    (he : element g rest = ⟨.symbol s, n⟩) {p : Position} {fault : LexicalFault}
    (h : scan p (g :: rest) = .error fault) :
    scan (p.advanceOver (g :: rest.take n)) (rest.drop n) = .error fault := by
  rw [scan_symbol he] at h
  cases hmore : scan (p.advanceOver (g :: rest.take n)) (rest.drop n) with
  | ok more =>
    rw [hmore] at h
    cases h
  | error fault =>
    rw [hmore] at h
    cases h
    rfl

/-- An element and the text after it are the whole text. -/
theorem glyphBytes_split (g : Glyph) (rest : List Glyph) (n : Nat) :
    glyphBytes (g :: rest) = glyphBytes (g :: rest.take n) ++ glyphBytes (rest.drop n) := by
  rw [← glyphBytes_append, List.cons_append, List.take_append_drop]

/-- An element that cannot be read leaves no tokens. -/
theorem scan_fault {g : Glyph} {rest : List Glyph} {cause : LexicalCause} {n : Nat}
    (h : element g rest = ⟨.fault cause, n⟩) (p : Position) :
    scan p (g :: rest) = .error ⟨cause, ⟨p, p.advanceOver (g :: rest.take n)⟩⟩ := by
  rw [scan]
  simp only [h]

/-- Scanning element by element: what holds at the end of a text, at an element that
cannot be read, and before any other element whenever it holds after it, holds of every
text. -/
theorem scan_induction {P : Position → List Glyph → Prop} (nil : ∀ p, P p [])
    (gap : ∀ p g rest n, element g rest = ⟨.gap, n⟩ →
      P (p.advanceOver (g :: rest.take n)) (rest.drop n) → P p (g :: rest))
    (symbol : ∀ p g rest s n, element g rest = ⟨.symbol s, n⟩ →
      P (p.advanceOver (g :: rest.take n)) (rest.drop n) → P p (g :: rest))
    (fault : ∀ p g rest cause n, element g rest = ⟨.fault cause, n⟩ → P p (g :: rest))
    (p : Position) (gs : List Glyph) : P p gs := by
  match gs with
  | [] => exact nil p
  | g :: rest =>
    have ih := fun q n => scan_induction nil gap symbol fault q (rest.drop n)
    match he : element g rest with
    | ⟨.gap, n⟩ => exact gap p g rest n he (ih _ n)
    | ⟨.symbol s, n⟩ => exact symbol p g rest s n he (ih _ n)
    | ⟨.fault cause, n⟩ => exact fault p g rest cause n he
termination_by gs.length
decreasing_by simp only [List.length_cons, List.length_drop]; omega

/-- No token is longer than the text it comes from. -/
theorem length_lexeme_le {p : Position} {gs : List Glyph} {ts : List Token}
    (h : scan p gs = .ok ts) {t : Token} (ht : t ∈ ts) :
    t.lexeme.length ≤ (glyphBytes gs).length := by
  induction p, gs using scan_induction generalizing ts with
  | nil p =>
    rw [scan] at h
    cases h
    cases List.mem_singleton.1 ht
    exact Nat.zero_le _
  | gap p g rest n he ih =>
    rw [scan_gap he] at h
    have hle := ih h ht
    have hsplit := congrArg List.length (glyphBytes_split g rest n)
    rw [List.length_append] at hsplit
    omega
  | symbol p g rest s n he ih =>
    have hsplit := congrArg List.length (glyphBytes_split g rest n)
    rw [List.length_append] at hsplit
    obtain ⟨more, hmore, rfl⟩ := scan_symbol_eq_ok he h
    rcases List.mem_cons.1 ht with rfl | ht
    · dsimp only
      omega
    · have hle := ih hmore ht
      omega
  | fault p g rest cause n he =>
    rw [scan_fault he] at h
    cases h

/-- A token stands where its text starts, or at the end if it is the end token. -/
theorem exists_place_of_scan {p : Position} {gs : List Glyph} {ts : List Token}
    (h : scan p gs = .ok ts) {t : Token} (ht : t ∈ ts) :
    ∃ read rest, gs = read ++ rest ∧ t.pos = p.advanceOver read ∧
      (rest = [] ∧ t.symbol = .eof ∨
        ∃ g more n, rest = g :: more ∧ element g more = ⟨.symbol t.symbol, n⟩ ∧
          t.lexeme = glyphBytes (g :: more.take n)) := by
  induction p, gs using scan_induction generalizing ts with
  | nil p =>
    rw [scan] at h
    cases h
    cases List.mem_singleton.1 ht
    exact ⟨[], [], rfl, rfl, .inl ⟨rfl, rfl⟩⟩
  | gap p g rest n he ih =>
    rw [scan_gap he] at h
    obtain ⟨read, later, hgs, hpos, hrest⟩ := ih h ht
    refine ⟨g :: rest.take n ++ read, later, ?_, ?_, hrest⟩
    · rw [List.append_assoc, ← hgs, List.cons_append, List.take_append_drop]
    · rw [hpos, Position.advanceOver_append]
  | symbol p g rest s n he ih =>
    obtain ⟨more, hmore, rfl⟩ := scan_symbol_eq_ok he h
    rcases List.mem_cons.1 ht with rfl | ht
    · exact ⟨[], g :: rest, rfl, rfl, .inr ⟨g, rest, n, rfl, he, rfl⟩⟩
    · obtain ⟨read, later, hgs, hpos, hrest⟩ := ih hmore ht
      refine ⟨g :: rest.take n ++ read, later, ?_, ?_, hrest⟩
      · rw [List.append_assoc, ← hgs, List.cons_append, List.take_append_drop]
      · rw [hpos, Position.advanceOver_append]
  | fault p g rest cause n he =>
    rw [scan_fault he] at h
    cases h

/-- A text has tokens where its glyphs have them. -/
theorem tokenize_eq_ok {source : Bytes} {ts : List Token} :
    tokenize source = .ok ts ↔ scan .start (decode source) = .ok ts := by
  unfold tokenize
  cases scan .start (decode source) with
  | error fault => exact ⟨nofun, nofun⟩
  | ok tokens =>
    constructor
    · rintro ⟨⟩
      rfl
    · rintro ⟨⟩
      rfl

/-- A text has the diagnostic of the fault that its glyphs have. -/
theorem tokenize_eq_error {source : Bytes} {d : Diagnostic} :
    tokenize source = .error d ↔
      ∃ fault, scan .start (decode source) = .error fault ∧ d = fault.diagnostic source := by
  unfold tokenize
  cases scan .start (decode source) with
  | ok tokens =>
    constructor
    · intro h
      cases h
    · rintro ⟨fault, h, -⟩
      cases h
  | error fault =>
    constructor
    · rintro ⟨⟩
      exact ⟨fault, rfl, rfl⟩
    · rintro ⟨_, ⟨⟩, rfl⟩
      rfl

end ShaderFront
