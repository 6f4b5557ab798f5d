import ShaderFront.Proofs.Cursor

/-!
# Scanning in place ends and stays within the text

A cursor at the start of an element does what reading the glyphs ahead of it does: it moves
beyond the glyphs of the element and leaves the same token or the same fault. Every element
has at least one byte and ends within the text, so a cursor that reads one element after
another comes to an end of the text or to a fault, whatever the bytes are, and leaves no
more tokens than there are bytes.
-/

namespace ShaderFront

namespace Cursor

/-! ## Single elements -/

/-- What a cursor leaves that faces the given glyphs, of which the first ones are the given
element. -/
def leave? (c : Cursor) (g : Glyph) (rest : List Glyph) (e : Element) :
    Option (Except LexicalFault Cursor) :=
  (c.beyond (g :: rest.take e.extent)).finish? e.reading

section Elements

variable {c : Cursor} {g : Glyph} {x : Char} {gs rest : List Glyph}

/-- A slash starts a comment or is a division sign. -/
theorem Faces.readSlash?_eq (h : c.Faces (.char '/' :: rest)) :
    (c.beyond [.char '/']).readSlash? = c.leave? (.char '/') rest (slashElement rest) := by
  have hrest := h.tail
  rw [readSlash?]
  fun_cases slashElement rest with
  | case1 comment =>
    have hpass := hrest.tail.pass?_eq (.upTo '\n')
    rw [Stretch.taken_upTo (by decide)] at hpass
    simp only [hrest.accept?_self, Option.bind_eq_bind, Option.bind_some, hpass]
    simp only [leave?, Nat.add_comm 1, List.take_succ_cons, take_length_takeWhile, beyond_beyond,
      List.cons_append, List.nil_append]
  | case2 comment n hend =>
    have hcomment := hrest.tail
    have hpass := hcomment.pass?_eq .comment
    obtain ⟨more, hsplit, rfl⟩ := Stretch.taken_comment_of_some hend
    generalize Stretch.comment.taken comment = body at hpass hsplit
    subst hsplit
    have hmark := hcomment.beyond
    have htake : (Glyph.char '*' :: (body ++ .char '*' :: .char '/' :: more)).take
        (1 + (body.length + 2)) = .char '*' :: (body ++ [.char '*', .char '/']) := by
      rw [Nat.add_comm, List.take_succ_cons, List.take_length_add_append]
      rfl
    rw [hrest.accept?_of_ne (by decide) (by simp), hrest.accept?_self]
    simp only [Option.bind_eq_bind, Option.bind_some, hpass, hmark.atEnd_eq, List.isEmpty_cons,
      Bool.false_eq_true, if_false, hmark.advance?_eq, hmark.tail.advance?_eq]
    simp only [leave?, htake, beyond_beyond, List.append_assoc, List.cons_append,
      List.nil_append]
  | case3 comment hend =>
    have hpass := hrest.tail.pass?_eq .comment
    rw [Stretch.taken_comment_of_none hend] at hpass
    have hdone : (((c.beyond [.char '/']).beyond [.char '*']).beyond comment).Faces [] :=
      Faces.beyond (by rw [List.append_nil]; exact hrest.tail)
    rw [hrest.accept?_of_ne (by decide) (by simp), hrest.accept?_self]
    simp only [Option.bind_eq_bind, Option.bind_some, hpass, hdone.atEnd_eq, List.isEmpty_nil,
      if_true]
    simp only [leave?, List.take_length, beyond_beyond, List.cons_append, List.nil_append]
  | case4 rest hline hblock =>
    have hhead {y : Char} (hy : ∀ comment, rest = .char y :: comment → False) :
        rest.head? ≠ some (.char y) := by
      intro he
      obtain ⟨comment, hrow⟩ := List.head?_eq_some_iff.1 he
      exact hy comment hrow
    rw [hrest.accept?_of_ne (by decide) (hhead hline),
      hrest.accept?_of_ne (by decide) (hhead hblock)]
    rfl

/-- A stretch up to a character comes to the end of the text or to that character. The end
does not look like it unless it is a null character. -/
theorem Faces.upTo_cases (h : c.Faces rest) (stop : Char) (hnull : stop ≠ '\x00')
    (hstop : stop ≠ '�') :
    (rest.dropWhile (· ≠ .char stop) = [] ∧ c.pass? (.upTo stop) = some (c.beyond rest) ∧
      ∃ r, (c.beyond rest).peek? = some r ∧ r ≠ stop) ∨
    ∃ body tail, rest.dropWhile (· ≠ .char stop) = .char stop :: tail ∧
      rest.takeWhile (· ≠ .char stop) = body ∧ rest = body ++ .char stop :: tail ∧
      c.pass? (.upTo stop) = some (c.beyond body) ∧ (c.beyond body).Faces (.char stop :: tail) := by
  have hpass := h.pass?_eq (.upTo stop)
  have hsplit := List.takeWhile_append_dropWhile (p := (· ≠ Glyph.char stop)) (l := rest)
  rw [Stretch.taken_upTo hstop] at hpass
  cases hdrop : rest.dropWhile (· ≠ .char stop) with
  | nil =>
    rw [hdrop, List.append_nil] at hsplit
    rw [hsplit] at hpass
    have hdone : (c.beyond rest).Faces [] := Faces.beyond (by rwa [List.append_nil])
    exact .inl ⟨rfl, hpass, _, hdone.peek?_eq, hnull.symm⟩
  | cons g tail =>
    obtain rfl : g = .char stop := by simpa using (eq_append_of_dropWhile hdrop).1
    rw [hdrop] at hsplit
    refine .inr ⟨_, tail, rfl, rfl, hsplit.symm, hpass, Faces.beyond ?_⟩
    rwa [hsplit]

/-- A string literal goes on to the next quote, and what it holds is cut out between the
two, which are one byte each. -/
theorem Faces.readString?_eq (h : c.Faces (.char x :: rest)) (hs : c.start = c.pos)
    (hx : x = '"' ∨ x = '\'') :
    (c.beyond [.char x]).readString? x = c.leave? (.char x) rest (stringElement x rest) := by
  have hwidth : (glyphBytes [.char x]).length = 1 := by rcases hx with rfl | rfl <;> rfl
  have hnull : x ≠ '\x00' := by rcases hx with rfl | rfl <;> decide
  have hshown : x ≠ '�' := by rcases hx with rfl | rfl <;> decide
  rw [readString?, stringElement]
  rcases h.tail.upTo_cases x hnull hshown with
    ⟨hdrop, hpass, r, hpeek, hr⟩ | ⟨body, tail, hdrop, hbody, rfl, hpass, hstop⟩
  · simp only [hpass, Option.bind_eq_bind, Option.bind_some, hpeek, hr, if_false]
    simp only [hdrop, leave?, List.take_length, beyond_beyond, List.cons_append,
      List.nil_append]
  · have hparts : c.Faces ([.char x] ++ body ++ .char x :: tail) := h
    have hslice : slice? c.source (c.start + 1)
        ((((c.beyond [.char x]).beyond body).beyond [.char x]).pos - 1) =
          some (glyphBytes body) := by
      apply hparts.slice?_eq
      · omega
      · simp only [pos_beyond]
        omega
    simp only [hpass, Option.bind_eq_bind, Option.bind_some, hstop.peek?_eq, look, Glyph.shown,
      if_true, hstop.advance?_eq, source_beyond, start_beyond, hslice]
    have htake := take_succ_length_takeWhile hdrop
    rw [hbody] at htake
    simp only [hdrop, hbody, leave?, htake, beyond_beyond, List.cons_append, List.nil_append]

/-- Only the empty row of glyphs is written by nothing. -/
theorem isEmpty_glyphBytes (gs : List Glyph) : (glyphBytes gs).isEmpty = gs.isEmpty := by
  cases gs with
  | nil => rfl
  | cons g gs => simp [g.bytes_ne_nil]

/-- A bracketed attribute goes on to the closing bracket, and its name is cut out before
that. -/
theorem Faces.readBracketed?_eq {name : List Glyph}
    (h : c.Faces (.char '#' :: .char '[' :: name)) :
    (c.beyond [.char '#', .char '[']).readBracketed? =
      c.leave? (.char '#') (.char '[' :: name) (bracketedAttribute name) := by
  have hname : (c.beyond [.char '#', .char '[']).Faces name := h.beyond
  rw [readBracketed?, bracketedAttribute]
  rcases hname.upTo_cases ']' (by decide) (by decide) with
    ⟨hdrop, hpass, r, hpeek, hr⟩ | ⟨body, tail, hdrop, hbody, rfl, hpass, hstop⟩
  · simp only [hpass, Option.bind_eq_bind, Option.bind_some, hpeek, hr, if_false]
    simp only [hdrop, leave?, Nat.add_comm 1, List.take_succ_cons, List.take_length,
      beyond_beyond, List.cons_append, List.nil_append]
  · have hparts : c.Faces ([.char '#', .char '['] ++ body ++ .char ']' :: tail) := h
    have htake := take_succ_length_takeWhile hdrop
    rw [hbody] at htake
    simp only [hpass, Option.bind_eq_bind, Option.bind_some, hstop.peek?_eq, look, Glyph.shown,
      if_true, source_beyond, pos_beyond, hparts.slice?_eq rfl rfl, isEmpty_glyphBytes,
      hstop.advance?_eq, hdrop, hbody]
    cases hempty : body.isEmpty with
    | true =>
      obtain rfl := List.isEmpty_iff.1 hempty
      rfl
    | false =>
      simp only [Bool.false_eq_true, if_false, leave?, List.take_succ_cons, htake,
        beyond_beyond, List.cons_append, List.nil_append]

/-- A name starts with what looks like one. -/
theorem isNameChar_look (gs : List Glyph) :
    isNameChar (look gs) = !(gs.takeWhile Glyph.inName).isEmpty := by
  cases gs with
  | nil => exact show isNameChar '\x00' = false by decide
  | cons g gs =>
    rw [look, Stretch.isNameChar_shown, List.takeWhile_cons]
    cases g.inName <;> rfl

/-- A number sign starts an attribute, with its name in brackets or right after the sign. -/
theorem Faces.readAttribute?_eq (h : c.Faces (.char '#' :: rest)) (hs : c.start = c.pos) :
    (c.beyond [.char '#']).readAttribute? =
      c.leave? (.char '#') rest (attributeElement rest) := by
  have hrest := h.tail
  by_cases hhead : rest.head? = some (.char '[')
  · obtain ⟨name, rfl⟩ := List.head?_eq_some_iff.1 hhead
    simp only [readAttribute?, hrest.accept?_self, Option.bind_eq_bind, Option.bind_some,
      beyond_beyond, List.cons_append, List.nil_append]
    exact h.readBracketed?_eq
  · have hpass := hrest.pass?_eq .name
    have hparts : c.Faces ([.char '#'] ++ rest.takeWhile Glyph.inName ++
        rest.dropWhile Glyph.inName) := by
      rw [List.append_assoc, List.takeWhile_append_dropWhile]
      exact h
    have hslice : slice? c.source (c.start + 1)
        ((c.beyond [.char '#']).beyond (rest.takeWhile Glyph.inName)).pos =
          some (glyphBytes (rest.takeWhile Glyph.inName)) :=
      hparts.slice?_eq (by rw [hs]; rfl) (by rw [hs]; rfl)
    rw [Stretch.taken_name] at hpass
    simp only [readAttribute?, hrest.accept?_of_ne (show '[' ≠ '�' by decide) hhead,
      hrest.peek?_eq, Option.bind_eq_bind, Option.bind_some, hpass, source_beyond, start_beyond,
      hslice]
    rw [attributeElement_of_head? hhead, isNameChar_look]
    cases (rest.takeWhile Glyph.inName).isEmpty with
    | true => rfl
    | false =>
      simp only [Bool.not_false, Bool.false_eq_true, if_true, if_false, leave?,
        take_length_takeWhile, beyond_beyond, List.cons_append, List.nil_append]

/-- The text of an element that goes as far as a class of glyphs is cut out of the whole. -/
theorem Faces.slice?_takeWhile (h : c.Faces (g :: rest)) (hs : c.start = c.pos)
    (p : Glyph → Bool) :
    slice? c.source c.start (c.pos + (glyphBytes (g :: rest.takeWhile p)).length) =
      some (glyphBytes (g :: rest.takeWhile p)) := by
  have hparts : c.Faces (g :: rest.takeWhile p ++ rest.dropWhile p) := by
    rwa [List.cons_append, List.takeWhile_append_dropWhile]
  exact hparts.slice?_start hs

/-- A digit starts a number, whose text goes as far as digits and points do. -/
theorem Faces.readNumber?_eq (h : c.Faces (.char x :: rest)) (hs : c.start = c.pos) :
    (c.beyond [.char x]).readNumber? = c.leave? (.char x) rest (numberElement x rest) := by
  have hpass := h.tail.pass?_eq .number
  rw [Stretch.taken_number, beyond_beyond] at hpass
  simp only [readNumber?, hpass, Option.bind_eq_bind, Option.bind_some, source_beyond,
    start_beyond, pos_beyond, List.cons_append, List.nil_append, h.slice?_takeWhile hs,
    numberElement]
  cases Binary64.ofText? (glyphBytes (.char x :: rest.takeWhile Glyph.inNumber)) with
  | none => simp only [leave?, take_length_takeWhile]
  | some value => simp only [leave?, take_length_takeWhile]

/-- A word goes as far as its characters may stand in a name. -/
theorem Faces.readWord?_eq (h : c.Faces (.char x :: rest)) (hs : c.start = c.pos) :
    (c.beyond [.char x]).readWord? = c.leave? (.char x) rest (wordElement x rest) := by
  have hpass := h.tail.pass?_eq .name
  rw [Stretch.taken_name, beyond_beyond] at hpass
  simp only [readWord?, hpass, Option.bind_eq_bind, Option.bind_some, source_beyond,
    start_beyond, pos_beyond, List.cons_append, List.nil_append, h.slice?_takeWhile hs,
    wordElement, leave?, take_length_takeWhile]

/-- An operator that may be longer is longer if it can be. -/
theorem Faces.readLonger?_eq {first next : Char} (h : c.Faces (.char first :: rest))
    (hnext : next ≠ '�') (long short : Reading) :
    (c.beyond [.char first]).readLonger? next long short =
      c.leave? (.char first) rest (longerIf rest next long short) := by
  rw [readLonger?, longerIf]
  split
  · next hhead =>
    obtain ⟨more, rfl⟩ := List.head?_eq_some_iff.1 hhead
    simp only [h.tail.accept?_self, Option.bind_eq_bind, Option.bind_some, beyond_beyond]
    rfl
  · next hhead =>
    rw [h.tail.accept?_of_ne hnext hhead]
    rfl

/-- An operator other than the slash is read as its first character tells. -/
theorem Faces.readOperator?_eq (h : c.Faces (.char x :: rest)) {e : Element}
    (he : operatorElement? x rest = some e) :
    (c.beyond [.char x]).readOperator? x = c.leave? (.char x) rest e := by
  unfold operatorElement? at he
  split at he <;> cases he
  case h_1 | h_2 | h_3 | h_4 | h_5 | h_6 => exact h.readLonger?_eq (by decide) _ _
  case h_7 | h_8 | h_9 | h_10 => rfl

/-- A stray byte shows as a character that starts nothing. -/
theorem readAfter?_replacement (c : Cursor) :
    c.readAfter? '�' = c.finish? (.fault (.unexpectedCharacter '�')) := by
  have hpunct : Punct.ofChar? '�' = none := by decide
  have hoperator : '�' ∉ operatorChars := by decide
  have hgap : isGap '�' = false := by decide
  have hword : isNameStart '�' = false := by simp [isNameStart, Stretch.isLetter_replacement]
  simp [readAfter?, hpunct, hoperator, hgap, hword]

/-- After its first character, an element is read on as that tells. -/
theorem Faces.readAfter?_eq (h : c.Faces (.char x :: rest)) (hs : c.start = c.pos) :
    (c.beyond [.char x]).readAfter? x = c.leave? (.char x) rest (element (.char x) rest) := by
  simp only [readAfter?, element]
  cases hpunct : Punct.ofChar? x with
  | some p => rfl
  | none =>
    cases hoperator : operatorElement? x rest with
    | some e =>
      have hmem : x ∈ operatorChars := by
        by_contra hmem
        rw [operatorElement?_eq_none_iff.2 hmem] at hoperator
        cases hoperator
      simp only [hmem, if_true]
      exact h.readOperator?_eq hoperator
    | none =>
      have hmem : x ∉ operatorChars := operatorElement?_eq_none_iff.1 hoperator
      simp only [hmem, if_false]
      split
      · rfl
      split
      · next hslash =>
        subst hslash
        exact h.readSlash?_eq
      split
      · next hquote => exact h.readString?_eq hs (by simpa using hquote)
      split
      · next hsign =>
        subst hsign
        exact h.readAttribute?_eq hs
      split
      · exact h.readNumber?_eq hs
      split
      · exact h.readWord?_eq hs
      · rfl

/-- A cursor at the start of an element moves beyond it and leaves what it is read as. -/
theorem Faces.readElement?_eq (h : c.Faces (g :: rest)) (hs : c.start = c.pos) :
    c.readElement? = c.leave? g rest (element g rest) := by
  rw [readElement?, h.advance?_eq, Option.bind_eq_bind, Option.bind_some]
  cases g with
  | stray b => exact readAfter?_replacement _
  | char x => exact h.readAfter?_eq hs

end Elements

/-! ## One element after another -/

section Steps

variable {c c' : Cursor} {g : Glyph} {gs rest : List Glyph} {n : Nat}

/-- Marking the start of an element leaves the cursor where it is. -/
theorem Faces.mark (h : c.Faces gs) : c.mark.Faces gs :=
  ⟨h.pos_le, h.decode_drop⟩

/-- Reading a token leaves the cursor where it is. -/
theorem Faces.push (h : c.Faces gs) (t : Token) : (c.push t).Faces gs :=
  ⟨h.pos_le, h.decode_drop⟩

/-- An element and what follows it are what the cursor faces at its start. -/
theorem Faces.split (h : c.Faces (g :: rest)) (n : Nat) :
    c.mark.Faces (g :: rest.take n ++ rest.drop n) := by
  rw [List.cons_append, List.take_append_drop]
  exact h.mark

/-- A blank or a comment moves the cursor beyond it. -/
theorem Faces.readElement?_gap (h : c.Faces (g :: rest)) (he : element g rest = ⟨.gap, n⟩) :
    c.mark.readElement? = some (.ok (c.mark.beyond (g :: rest.take n))) := by
  rw [h.mark.readElement?_eq rfl, he]
  rfl

/-- A token moves the cursor beyond it and is put after the other tokens. -/
theorem Faces.readElement?_symbol (h : c.Faces (g :: rest)) {s : Symbol}
    (he : element g rest = ⟨.symbol s, n⟩) :
    c.mark.readElement? = some (.ok ((c.mark.beyond (g :: rest.take n)).push
      ⟨s, glyphBytes (g :: rest.take n), c.place⟩)) := by
  rw [h.mark.readElement?_eq rfl, he]
  simp only [leave?, finish?, source_beyond, start_beyond, pos_beyond,
    (h.split n).slice?_start rfl, Option.bind_eq_bind, Option.bind_some]
  rfl

/-- An element that cannot be read is a fault. -/
theorem Faces.readElement?_fault (h : c.Faces (g :: rest)) {cause : LexicalCause}
    (he : element g rest = ⟨.fault cause, n⟩) :
    c.mark.readElement? =
      some (.error ⟨cause, ⟨c.place, c.place.advanceOver (g :: rest.take n)⟩⟩) := by
  rw [h.mark.readElement?_eq rfl, he]
  rfl

/-- Before the end of the text, a cursor goes on with the element that it faces. -/
theorem Faces.run?_cons (h : c.Faces (g :: rest)) :
    c.run? = c.mark.readElement?.bind fun
      | .ok c => c.run?
      | .error fault => some (.error fault) := by
  rw [run?, h.atEnd_eq]
  rfl

/-- A cursor reads the glyphs ahead of it as scanning does. -/
theorem Faces.run?_eq (h : c.Faces gs) :
    c.run? = some ((scan c.place gs).map (c.tokens ++ ·)) := by
  generalize hp : c.place = p
  induction p, gs using scan_induction generalizing c with
  | nil p =>
    rw [run?, h.atEnd_eq, scan, hp]
    rfl
  | gap p g rest n he ih =>
    rw [h.run?_cons, h.readElement?_gap he, Option.bind_some, scan_gap he]
    exact ih (h.split n).beyond (congrArg (Position.advanceOver · _) hp)
  | symbol p g rest s n he ih =>
    rw [h.run?_cons, h.readElement?_symbol he, Option.bind_some, scan_symbol he]
    dsimp only
    rw [ih ((h.split n).beyond.push _) (congrArg (Position.advanceOver · _) hp), hp]
    cases scan (p.advanceOver (g :: rest.take n)) (rest.drop n) with
    | error fault => rfl
    | ok ts => exact congrArg (some <| Except.ok ·) (List.append_assoc c.tokens [_] ts)
  | fault p g rest cause n he =>
    rw [h.run?_cons, h.readElement?_fault he, Option.bind_some, scan_fault he, hp]
    rfl

/-- At its start, a cursor faces all glyphs of a text. -/
theorem faces_ofText (source : Bytes) : (ofText source).Faces (decode source) :=
  ⟨Nat.zero_le _, rfl⟩

/-- From its start on, a cursor reads a text as scanning does. -/
theorem run?_ofText (source : Bytes) :
    (ofText source).run? = some (scan .start (decode source)) := by
  rw [(faces_ofText source).run?_eq]
  dsimp only [ofText]
  cases scan .start (decode source) with
  | error fault => rfl
  | ok ts => rfl

/-- How a cursor that reads an element moves from its start to its end. -/
structure StepsTo (c c' : Cursor) : Prop where
  /-- The text is the same. -/
  source_eq : c'.source = c.source
  /-- The element starts where the cursor was. -/
  start_eq : c'.start = c.pos
  /-- The cursor has moved on. -/
  start_lt : c'.start < c'.pos
  /-- It is still within the text. -/
  pos_le : c'.pos ≤ c.source.length
  /-- It has read no token, or one whose text is what lies between. -/
  tokens_eq : c'.tokens = c.tokens ∨
    ∃ t, c'.tokens = c.tokens ++ [t] ∧ slice? c.source c'.start c'.pos = some t.lexeme

/-- A row of glyphs that is not empty takes a cursor further on in the text. -/
theorem Faces.stepsTo_beyond (h : c.Faces (g :: rest)) (n : Nat) :
    c.StepsTo (c.mark.beyond (g :: rest.take n)) where
  source_eq := rfl
  start_eq := rfl
  start_lt := by
    have hg := List.length_pos_iff.2 g.bytes_ne_nil
    rw [start_beyond, pos_beyond, glyphBytes_cons, List.length_append]
    exact Nat.lt_add_of_pos_right (Nat.add_pos_left hg _)
  pos_le := (h.split n).beyond.pos_le
  tokens_eq := .inl rfl

/-- Reading an element ends. It is a fault, or it takes the cursor further on in the text. -/
theorem Faces.readElement?_cases (h : c.Faces (g :: rest)) :
    (∃ cause n fault, element g rest = ⟨.fault cause, n⟩ ∧
      c.mark.readElement? = some (.error fault)) ∨
    ∃ reading n c', element g rest = ⟨reading, n⟩ ∧ reading.isFault = false ∧
      c.mark.readElement? = some (.ok c') ∧ c'.Faces (rest.drop n) ∧ c.StepsTo c' := by
  match he : element g rest with
  | ⟨.gap, n⟩ =>
    exact .inr ⟨_, n, _, rfl, rfl, h.readElement?_gap he, (h.split n).beyond,
      h.stepsTo_beyond n⟩
  | ⟨.symbol s, n⟩ =>
    have hstep := h.stepsTo_beyond n
    refine .inr ⟨_, n, _, rfl, rfl, h.readElement?_symbol he, (h.split n).beyond.push _, ?_⟩
    exact { hstep with tokens_eq := .inr ⟨_, rfl, (h.split n).slice?_start rfl⟩ }
  | ⟨.fault cause, n⟩ => exact .inl ⟨cause, n, _, rfl, h.readElement?_fault he⟩

end Steps

/-- The cursors between the elements of a text, from its start on. -/
inductive Reached (source : Bytes) : Cursor → Prop
  /-- The start of the text. -/
  | start : Reached source (ofText source)
  /-- The end of an element, if there is one and it can be read. -/
  | past {c c' : Cursor} (h : Reached source c) (hend : c.atEnd = false)
    (hread : c.mark.readElement? = some (.ok c')) : Reached source c'

end Cursor

/-- Scanning comes to what follows an element where it comes to the element. -/
theorem ComesTo.concat {gs rest : List Glyph} {g : Glyph} {reading : Reading} {n : Nat}
    (h : ComesTo gs (g :: rest)) (he : element g rest = ⟨reading, n⟩)
    (hr : reading.isFault = false) : ComesTo gs (rest.drop n) := by
  generalize hmore : g :: rest = more at h
  induction h with
  | here gs =>
    subst hmore
    exact .past he hr (.here _)
  | past he' hr' _ ih => exact .past he' hr' (ih hmore)

namespace Cursor

/-- A cursor between two elements is within the text, where scanning comes to as well. -/
theorem Reached.faces {source : Bytes} {c : Cursor} (h : Reached source c) :
    c.source = source ∧ ∃ gs, c.Faces gs ∧ ComesTo (decode source) gs := by
  induction h with
  | start => exact ⟨rfl, _, faces_ofText source, .here _⟩
  | past h hend hread ih =>
    obtain ⟨hsource, gs, hfaces, hcomes⟩ := ih
    cases gs with
    | nil =>
      rw [hfaces.atEnd_eq] at hend
      cases hend
    | cons g rest =>
      rcases hfaces.readElement?_cases with
        ⟨cause, n, fault, -, hfault⟩ | ⟨reading, n, c', he, hr, hok, hnext, hstep⟩
      · rw [hfault] at hread
        cases hread
      · rw [hok] at hread
        cases hread
        exact ⟨hstep.source_eq.trans hsource, _, hnext, hcomes.concat he hr⟩

/-- Where scanning comes to, a cursor between two elements comes to as well. -/
theorem Reached.exists_of_comesTo {source : Bytes} {gs more : List Glyph}
    (hcomes : ComesTo gs more) {c : Cursor} (h : Reached source c) (hfaces : c.Faces gs) :
    ∃ c', Reached source c' ∧ c'.Faces more := by
  induction hcomes generalizing c with
  | here gs => exact ⟨c, h, hfaces⟩
  | past he hr _ ih =>
    rcases hfaces.readElement?_cases with
      ⟨cause, n, fault, he', -⟩ | ⟨reading, n, c', he', -, hok, hnext, -⟩
    · cases he.symm.trans he'
      cases hr
    · cases he.symm.trans he'
      exact ih (.past h hfaces.atEnd_eq hok) hnext

end Cursor

/-- A text has no more tokens than bytes, the end token apart. -/
theorem length_le_of_scan {p : Position} {gs : List Glyph} {ts : List Token}
    (h : scan p gs = .ok ts) : ts.length ≤ (glyphBytes gs).length + 1 := by
  induction p, gs using scan_induction generalizing ts with
  | nil p =>
    rw [scan] at h
    cases h
    exact Nat.le_refl _
  | gap p g rest n he ih =>
    rw [scan_gap he] at h
    have hle := ih h
    rw [glyphBytes_split g rest n, List.length_append]
    omega
  | symbol p g rest s n he ih =>
    obtain ⟨more, hmore, rfl⟩ := scan_symbol_eq_ok he h
    have hle := ih hmore
    have hg := List.length_pos_iff.2 g.bytes_ne_nil
    rw [glyphBytes_split g rest n, glyphBytes_cons]
    simp only [List.length_append, List.length_cons]
    omega
  | fault p g rest cause n he =>
    rw [scan_fault he] at h
    cases h

/-- A stretch ends, wherever in a text it is entered, and ends within the text. -/
theorem Cursor.exists_pass? {c : Cursor} (h : c.pos ≤ c.source.length) (l : Stretch) :
    ∃ c', c.pass? l = some c' ∧ c.pos ≤ c'.pos ∧ c'.pos ≤ c.source.length := by
  have hfaces := faces_decode h
  obtain ⟨more, hmore⟩ := l.taken_isPrefix (decode (c.source.drop c.pos))
  rw [← hmore] at hfaces
  refine ⟨_, (faces_decode h).pass?_eq l, ?_, hfaces.beyond.pos_le⟩
  exact Nat.le_add_right _ _

/-- Scanning a text in place. At every cursor between two elements the offset is within the
text. Before the end of the text, reading an element from there has a result, so that no
slice is out of range and no loop goes on for ever: it is a fault, or the cursor has moved on
within the text and read at most one token, whose text it has moved over. Each stretch that
a cursor passes over ends, wherever it is entered. The whole text has a result too, that of
scanning its glyphs, and the cursors between two elements are where that comes to. There are
no more tokens than bytes, the end token apart. -/
theorem tokenize_in_place (source : Bytes) :
    (∀ c, Cursor.Reached source c → c.source = source ∧ c.pos ≤ source.length ∧
      (c.pos < source.length →
        (∃ fault, c.mark.readElement? = some (.error fault)) ∨
        ∃ c', c.mark.readElement? = some (.ok c') ∧ c.StepsTo c')) ∧
    (∀ (l : Stretch) (c : Cursor), c.source = source → c.pos ≤ source.length →
      ∃ c', c.pass? l = some c' ∧ c.pos ≤ c'.pos ∧ c'.pos ≤ source.length) ∧
    (∃ r, (Cursor.ofText source).run? = some r ∧
      tokenize source = r.mapError (·.diagnostic source)) ∧
    (∀ rest, ComesTo (decode source) rest ↔
      ∃ c, Cursor.Reached source c ∧ decode (source.drop c.pos) = rest) ∧
    ∀ tokens, tokenize source = .ok tokens → tokens.length ≤ source.length + 1 := by
  refine ⟨?_, ?_, ?_, ?_, ?_⟩
  · intro c hc
    obtain ⟨rfl, gs, hfaces, -⟩ := hc.faces
    refine ⟨rfl, hfaces.pos_le, fun hlt => ?_⟩
    cases gs with
    | nil =>
      have hlength := hfaces.length_eq
      simp only [glyphBytes, List.flatMap_nil, List.length_nil] at hlength
      omega
    | cons g rest =>
      rcases hfaces.readElement?_cases with
        ⟨cause, n, fault, -, hfault⟩ | ⟨reading, n, c', -, -, hok, -, hstep⟩
      · exact .inl ⟨fault, hfault⟩
      · exact .inr ⟨c', hok, hstep⟩
  · rintro l c rfl hle
    exact Cursor.exists_pass? hle l
  · exact ⟨_, Cursor.run?_ofText source, rfl⟩
  · intro rest
    constructor
    · intro hcomes
      obtain ⟨c, hc, hfaces⟩ := Cursor.Reached.exists_of_comesTo hcomes .start
        (Cursor.faces_ofText source)
      obtain ⟨rfl, -⟩ := hc.faces
      exact ⟨c, hc, hfaces.decode_drop⟩
    · rintro ⟨c, hc, rfl⟩
      obtain ⟨rfl, gs, hfaces, hcomes⟩ := hc.faces
      rwa [hfaces.decode_drop]
  · intro tokens h
    have hle := length_le_of_scan (tokenize_eq_ok.1 h)
    rwa [glyphBytes_decode] at hle

/-- Null bytes in a name and in a comment, where a cursor might take them for the end of the
text, and two characters that are cut off, one by a quote and one by the end of the text. -/
def truncatedText : Bytes :=
  utf8 "#[\x00]'" ++ [0xe2, 0x82] ++ utf8 "'/*\x00*/x//" ++ [0xf0, 0x9f]

/-- The tokens of that text. -/
def truncatedTokens : List Token :=
  [⟨.attr [0], utf8 "#[\x00]", ⟨1, 1⟩⟩, ⟨.string [0xe2, 0x82], [0x27, 0xe2, 0x82, 0x27], ⟨1, 5⟩⟩,
    ⟨.ident (utf8 "x"), utf8 "x", ⟨1, 14⟩⟩, Token.eof ⟨1, 19⟩]

/-- A cursor gets from the start of that text to its end. It starts with a step over the
attribute, and a stretch that starts within the last character ends. -/
theorem tokenize_in_place_truncated :
    tokenize truncatedText = .ok truncatedTokens ∧
    (Cursor.ofText truncatedText).run? = some (.ok truncatedTokens) ∧
    (∃ c, (Cursor.ofText truncatedText).mark.readElement? = some (.ok c) ∧
      (Cursor.ofText truncatedText).StepsTo c) ∧
    (∃ c, Cursor.pass? (.upTo '\n') { source := truncatedText, pos := 17 } = some c ∧
      17 ≤ c.pos ∧ c.pos ≤ truncatedText.length) ∧
    truncatedTokens.length ≤ truncatedText.length + 1 := by
  have h : tokenize truncatedText = .ok truncatedTokens := by decide +kernel
  obtain ⟨hreached, hstretch, ⟨r, hrun, hr⟩, -, hcount⟩ := tokenize_in_place truncatedText
  have hresult : r = .ok truncatedTokens := by
    rw [h] at hr
    cases r with
    | error fault => cases hr
    | ok ts =>
      cases hr
      rfl
  rw [hresult] at hrun
  refine ⟨h, hrun, ?_, hstretch _ _ rfl (by decide), hcount _ h⟩
  rcases (hreached _ .start).2.2 (by decide) with ⟨fault, hfault⟩ | hstep
  · have hend : (Cursor.ofText truncatedText).atEnd = false := by decide
    rw [Cursor.run?, hend, hfault] at hrun
    cases hrun
  · exact hstep

end ShaderFront
