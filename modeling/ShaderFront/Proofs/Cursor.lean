import ShaderFront.Proofs.Faults

/-!
# A cursor over the bytes of a text

A text can be scanned in place. A cursor is a byte offset into the text. It moves over one
character at a time, looks ahead over one or two, and cuts the texts of tokens out of the
whole by their offsets. Two things could go wrong that scanning a row of glyphs knows
nothing of: offsets outside the text, and loops that never end, for looking ahead at the
end of the text shows a character as everywhere else. Both are left without a result here,
so that a result says that neither happened.

A cursor that faces a row of glyphs does with it what can be said of the row alone: it
moves beyond the glyphs that it takes, and what it cuts out are their bytes.
-/

namespace ShaderFront

/-! ## Offsets -/

/-- The bytes between two offsets, if these are in order and within the text. -/
def slice? (t : Bytes) (i j : Nat) : Option Bytes :=
  if i ≤ j ∧ j ≤ t.length then some ((t.drop i).take (j - i)) else none

/-- The character that a text starts with, and its width in bytes. A stray byte shows as the
replacement character, and so does the end of the text, which has no width. -/
def firstChar (t : Bytes) : Char × Nat :=
  match decode t with
  | [] => ('�', 0)
  | g :: _ => (g.shown, g.bytes.length)

/-- A place in a text that is being scanned. -/
structure Cursor where
  /-- The whole text. -/
  source : Bytes
  /-- How many bytes of it are behind the cursor. -/
  pos : Nat := 0
  /-- The line and the column of the cursor. -/
  place : Position := .start
  /-- The offset at which the element that is being read starts. -/
  start : Nat := 0
  /-- The line and the column at which it starts. -/
  startPlace : Position := .none
  /-- The tokens that were read so far. -/
  tokens : List Token := []
  deriving DecidableEq, Repr

namespace Cursor

/-- The cursor at the start of a text. -/
def ofText (source : Bytes) : Cursor :=
  { source := source }

/-! ## Moves -/

/-- Is everything behind the cursor? -/
def atEnd (c : Cursor) : Bool :=
  c.source.length ≤ c.pos

/-- The text from the given offset on. -/
def from? (c : Cursor) (i : Nat) : Option Bytes :=
  slice? c.source i c.source.length

/-- Move over a character. -/
def advance? (c : Cursor) : Option (Char × Cursor) := do
  let (r, size) := firstChar (← c.from? c.pos)
  return (r, { c with pos := c.pos + size, place := c.place.advance (.char r) })

/-- The character ahead. The end of the text looks like a null character. -/
def peek? (c : Cursor) : Option Char :=
  if c.atEnd then some '\x00'
  else do return (firstChar (← c.from? c.pos)).1

/-- The character after the one ahead. -/
def peekNext? (c : Cursor) : Option Char :=
  if c.source.length ≤ c.pos + 1 then some '\x00'
  else do
    let (_, size) := firstChar (← c.from? c.pos)
    return (firstChar (← c.from? (c.pos + size))).1

/-- Move over the given character if it is ahead. -/
def accept? (expected : Char) (c : Cursor) : Option (Option Cursor) :=
  if c.atEnd then some none
  else do
    if (← c.peek?) = expected then return some (← c.advance?).2
    else return none

/-- An element starts at the cursor. -/
def mark (c : Cursor) : Cursor :=
  { c with start := c.pos, startPlace := c.place }

/-- A token was read. -/
def push (c : Cursor) (t : Token) : Cursor :=
  { c with tokens := c.tokens ++ [t] }

end Cursor

/-- What a cursor passes over in one go. -/
inductive Stretch where
  /-- All up to a character, or else up to the end of the text. -/
  | upTo (stop : Char)
  /-- All up to the mark that ends a block comment, or else up to the end of the text. -/
  | comment
  /-- Digits and points. -/
  | number
  /-- What may stand in a name. -/
  | name
  deriving DecidableEq, Repr

/-- Does a stretch go on with the character ahead? -/
def Stretch.goesOn? (c : Cursor) : Stretch → Option Bool
  | upTo stop => do return (← c.peek?) ≠ stop && !c.atEnd
  | comment =>
    if c.atEnd then some false
    else do
      if (← c.peek?) = '*' then return (← c.peekNext?) ≠ '/'
      else return true
  | number => do
    let r ← c.peek?
    return r.isDigit || r = '.'
  | name => do return isNameChar (← c.peek?)

namespace Cursor

/-- Move on as long as a stretch does. A stretch that never ends has no result. -/
def pass? (l : Stretch) (c : Cursor) : Option Cursor := do
  if ← l.goesOn? c then (← c.advance?).2 |>.pass? l
  else return c
partial_fixpoint

/-! ## Elements -/

/-- The element behind the cursor is read as told. -/
def finish? (c : Cursor) : Reading → Option (Except LexicalFault Cursor)
  | .gap => some (.ok c)
  | .symbol s => do
    let lexeme ← slice? c.source c.start c.pos
    return .ok (c.push ⟨s, lexeme, c.startPlace⟩)
  | .fault cause => some (.error ⟨cause, ⟨c.startPlace, c.place⟩⟩)

/-- Read on after a slash. -/
def readSlash? (c : Cursor) : Option (Except LexicalFault Cursor) := do
  match ← c.accept? '/' with
  | some c => (← c.pass? (.upTo '\n')).finish? .gap
  | none =>
    match ← c.accept? '*' with
    | some c =>
      let c ← c.pass? .comment
      if c.atEnd then c.finish? (.fault .unterminatedComment)
      else
        let c := (← c.advance?).2
        (← c.advance?).2.finish? .gap
    | none => c.finish? (.symbol (.operator .divide))

/-- Read on after the quote of a string literal. -/
def readString? (quote : Char) (c : Cursor) : Option (Except LexicalFault Cursor) := do
  let c ← c.pass? (.upTo quote)
  if (← c.peek?) = quote then
    let c := (← c.advance?).2
    c.finish? (.symbol (.string (← slice? c.source (c.start + 1) (c.pos - 1))))
  else c.finish? (.fault .unterminatedString)

/-- Read on after the opening bracket of an attribute. -/
def readBracketed? (c : Cursor) : Option (Except LexicalFault Cursor) := do
  let nameStart := c.pos
  let c ← c.pass? (.upTo ']')
  if (← c.peek?) = ']' then
    let name ← slice? c.source nameStart c.pos
    if name.isEmpty then c.finish? (.fault .emptyAttributeName)
    else (← c.advance?).2.finish? (.symbol (.attr name))
  else c.finish? (.fault .unterminatedAttribute)

/-- Read on after a number sign. -/
def readAttribute? (c : Cursor) : Option (Except LexicalFault Cursor) := do
  match ← c.accept? '[' with
  | some c => c.readBracketed?
  | none =>
    if isNameChar (← c.peek?) then
      let c ← c.pass? .name
      c.finish? (.symbol (.attr (← slice? c.source (c.start + 1) c.pos)))
    else c.finish? (.fault .missingAttributeName)

/-- Read an operator that is longer if the given character is ahead. -/
def readLonger? (next : Char) (long short : Reading) (c : Cursor) :
    Option (Except LexicalFault Cursor) := do
  match ← c.accept? next with
  | some c => c.finish? long
  | none => c.finish? short

/-- Read on after the first character of an operator other than the slash. -/
def readOperator? (c : Cursor) : Char → Option (Except LexicalFault Cursor)
  | '=' => c.readLonger? '=' (.symbol (.operator .equals)) (.symbol (.operator .assign))
  | '!' => c.readLonger? '=' (.symbol (.operator .notEquals)) (.symbol (.operator .not))
  | '<' => c.readLonger? '=' (.symbol (.operator .lessEqual)) (.symbol (.operator .less))
  | '>' => c.readLonger? '=' (.symbol (.operator .greaterEqual)) (.symbol (.operator .greater))
  | '&' => c.readLonger? '&' (.symbol (.operator .and)) (.fault (.halfOperator '&'))
  | '|' => c.readLonger? '|' (.symbol (.operator .or)) (.fault (.halfOperator '|'))
  | '+' => c.finish? (.symbol (.operator .plus))
  | '-' => c.finish? (.symbol (.operator .minus))
  | '*' => c.finish? (.symbol (.operator .times))
  | '%' => c.finish? (.symbol (.operator .mod))
  | _ => c.finish? .gap

/-- Read on after a digit. -/
def readNumber? (c : Cursor) : Option (Except LexicalFault Cursor) := do
  let c ← c.pass? .number
  let text ← slice? c.source c.start c.pos
  match Binary64.ofText? text with
  | some value => c.finish? (.symbol (.number value))
  | none => c.finish? (.fault (.malformedNumber text))

/-- Read on after the first character of a word. -/
def readWord? (c : Cursor) : Option (Except LexicalFault Cursor) := do
  let c ← c.pass? .name
  c.finish? (.symbol (wordSymbol (← slice? c.source c.start c.pos)))

/-- Read on after the first character of an element, which tells what it can be. -/
def readAfter? (r : Char) (c : Cursor) : Option (Except LexicalFault Cursor) :=
  match Punct.ofChar? r with
  | some p => c.finish? (.symbol (.punct p))
  | none =>
    if r ∈ operatorChars then c.readOperator? r
    else if isGap r then c.finish? .gap
    else if r = '/' then c.readSlash?
    else if r = '"' || r = '\'' then c.readString? r
    else if r = '#' then c.readAttribute?
    else if r.isDigit then c.readNumber?
    else if isNameStart r then c.readWord?
    else c.finish? (.fault (.unexpectedCharacter r))

/-- Read an element, which is a blank, a comment or a token, or cannot be read. -/
def readElement? (c : Cursor) : Option (Except LexicalFault Cursor) := do
  let (r, c) ← c.advance?
  c.readAfter? r

/-- Read element after element up to the end of the text, or to one that cannot be read. If
neither is ever reached, there is no result. -/
def run? (c : Cursor) : Option (Except LexicalFault (List Token)) := do
  if c.atEnd then return .ok (c.tokens ++ [Token.eof c.place])
  else
    match ← c.mark.readElement? with
    | .ok c => c |>.run?
    | .error fault => return .error fault
partial_fixpoint

/-! ## What a cursor faces -/

/-- The cursor is within its text, and these are the glyphs ahead of it. -/
structure Faces (c : Cursor) (gs : List Glyph) : Prop where
  /-- It is within its text. -/
  pos_le : c.pos ≤ c.source.length
  /-- These are the glyphs. -/
  decode_drop : decode (c.source.drop c.pos) = gs

/-- The cursor beyond a row of glyphs. -/
def beyond (c : Cursor) (taken : List Glyph) : Cursor :=
  { c with pos := c.pos + (glyphBytes taken).length, place := c.place.advanceOver taken }

@[simp] theorem source_beyond (c : Cursor) (gs : List Glyph) : (c.beyond gs).source = c.source :=
  rfl

@[simp] theorem start_beyond (c : Cursor) (gs : List Glyph) : (c.beyond gs).start = c.start := rfl

@[simp] theorem pos_beyond (c : Cursor) (gs : List Glyph) :
    (c.beyond gs).pos = c.pos + (glyphBytes gs).length := rfl

@[simp] theorem beyond_beyond (c : Cursor) (gs hs : List Glyph) :
    (c.beyond gs).beyond hs = c.beyond (gs ++ hs) := by
  simp only [beyond, glyphBytes_append, List.length_append, Nat.add_assoc,
    Position.advanceOver_append]

section Facing

variable {c : Cursor} {g : Glyph} {gs rest more : List Glyph}

/-- A cursor within its text faces what is ahead of it. -/
theorem faces_decode (h : c.pos ≤ c.source.length) : c.Faces (decode (c.source.drop c.pos)) :=
  ⟨h, rfl⟩

/-- The bytes ahead are those of the glyphs. -/
theorem Faces.drop_eq (h : c.Faces gs) : c.source.drop c.pos = glyphBytes gs := by
  rw [← h.decode_drop, glyphBytes_decode]

/-- There are as many bytes ahead as the glyphs have. -/
theorem Faces.length_eq (h : c.Faces gs) : c.source.length = c.pos + (glyphBytes gs).length := by
  have hle := h.pos_le
  rw [← h.drop_eq, List.length_drop]
  omega

/-- Decoding finds the glyphs in their bytes. -/
theorem Faces.isDecoded (h : c.Faces gs) : IsDecoded gs := by
  rw [IsDecoded, ← h.drop_eq, h.decode_drop]

/-- Beyond some of the glyphs, the cursor faces the others. -/
theorem Faces.beyond {taken : List Glyph} (h : c.Faces (taken ++ more)) :
    (c.beyond taken).Faces more := by
  have hlength := h.length_eq
  rw [glyphBytes_append, List.length_append] at hlength
  refine ⟨?_, ?_⟩
  · rw [source_beyond, pos_beyond]
    omega
  · rw [source_beyond, pos_beyond, ← List.drop_drop, h.drop_eq, glyphBytes_append, List.drop_left]
    exact h.isDecoded.of_append.2

/-- Beyond the first glyph, the cursor faces the rest. -/
theorem Faces.tail (h : c.Faces (g :: rest)) : (c.beyond [g]).Faces rest :=
  @Faces.beyond c rest [g] h

/-- Facing no glyph is being at the end. -/
theorem Faces.atEnd_eq (h : c.Faces gs) : c.atEnd = gs.isEmpty := by
  have hlength := h.length_eq
  cases gs with
  | nil => simp [atEnd, hlength, glyphBytes]
  | cons g gs =>
    have hg := List.length_pos_iff.2 g.bytes_ne_nil
    rw [glyphBytes_cons, List.length_append] at hlength
    simp only [atEnd, List.isEmpty_cons, decide_eq_false_iff_not]
    omega

/-- The bytes of glyphs in a row are cut out of the text by their offsets. -/
theorem Faces.slice?_eq {before taken : List Glyph} (h : c.Faces (before ++ taken ++ more))
    {i j : Nat} (hi : i = c.pos + (glyphBytes before).length)
    (hj : j = i + (glyphBytes taken).length) :
    slice? c.source i j = some (glyphBytes taken) := by
  have hlength := h.length_eq
  simp only [glyphBytes_append, List.length_append] at hlength
  rw [slice?, if_pos (by omega), hi, ← List.drop_drop, h.drop_eq, ← hi,
    Nat.sub_eq_of_eq_add' hj, List.append_assoc, glyphBytes_append, List.drop_left,
    glyphBytes_append, List.take_left]

/-- The text of an element is cut out of the text from its start on. -/
theorem Faces.slice?_start {taken : List Glyph} (h : c.Faces (taken ++ more))
    (hs : c.start = c.pos) :
    slice? c.source c.start (c.pos + (glyphBytes taken).length) = some (glyphBytes taken) := by
  have hparts : c.Faces ([] ++ taken ++ more) := h
  exact hparts.slice?_eq hs (by rw [hs])

/-- The text ahead is within the whole. -/
theorem Faces.from?_eq (h : c.Faces gs) : c.from? c.pos = some (c.source.drop c.pos) := by
  have hle := h.pos_le
  rw [from?, slice?, if_pos (by omega), List.take_of_length_le (by simp)]

/-- The text ahead starts with the first glyph. -/
theorem Faces.firstChar_eq (h : c.Faces (g :: rest)) :
    firstChar (c.source.drop c.pos) = (g.shown, g.bytes.length) := by
  rw [firstChar, h.decode_drop]

/-! ## What the moves do -/

/-- A character other than the replacement character shows only as itself. -/
theorem shown_eq_iff {x : Char} (hx : x ≠ '�') : g.shown = x ↔ g = .char x := by
  cases g with
  | char c => simp [Glyph.shown]
  | stray b => simp [Glyph.shown, hx.symm]

/-- How a glyph shows tells where it leads to. -/
theorem advance_shown (p : Position) (g : Glyph) : p.advance (.char g.shown) = p.advance g := by
  cases g with
  | char c => rfl
  | stray b => rfl

/-- The cursor moves over the glyph ahead. -/
theorem Faces.advance?_eq (h : c.Faces (g :: rest)) :
    c.advance? = some (g.shown, c.beyond [g]) := by
  simp [advance?, h.from?_eq, h.firstChar_eq, advance_shown, Cursor.beyond, glyphBytes]

/-- How these glyphs look from before them: as the first of them shows, and as a null
character if there are none. -/
def look : List Glyph → Char
  | [] => '\x00'
  | g :: _ => g.shown

/-- Glyphs look like a character if it is the first of them, unless it is one of the two that
something else may look like. -/
theorem look_eq_iff {x : Char} (hnull : x ≠ '\x00') (hx : x ≠ '�') :
    look gs = x ↔ gs.head? = some (.char x) := by
  cases gs with
  | nil => simp [look, hnull.symm]
  | cons g rest => simp [look, shown_eq_iff hx]

/-- Looking ahead shows how the glyphs look. -/
theorem Faces.peek?_eq (h : c.Faces gs) : c.peek? = some (look gs) := by
  rw [peek?, h.atEnd_eq]
  cases gs with
  | nil => rfl
  | cons g rest => simp [h.from?_eq, h.firstChar_eq, look]

/-- Looking beyond a glyph of one byte shows how the others look. -/
theorem Faces.peekNext?_eq (h : c.Faces (g :: rest)) (hg : g.bytes.length = 1) :
    c.peekNext? = some (look rest) := by
  have hrest := h.tail
  have hpos : (c.beyond [g]).pos = c.pos + g.bytes.length := by simp [glyphBytes]
  have hend : decide (c.source.length ≤ c.pos + 1) = rest.isEmpty := by
    rw [← hrest.atEnd_eq, atEnd, hpos, hg]
    rfl
  cases rest with
  | nil => rw [peekNext?, if_pos (of_decide_eq_true hend), look]
  | cons g' rest =>
    have hfrom : c.from? (c.pos + g.bytes.length) = some (c.source.drop (c.pos + g.bytes.length)) :=
      hpos ▸ hrest.from?_eq
    have hfirst : firstChar (c.source.drop (c.pos + g.bytes.length)) =
        (g'.shown, g'.bytes.length) := hpos ▸ hrest.firstChar_eq
    rw [peekNext?, if_neg (of_decide_eq_false hend), h.from?_eq]
    simp only [Option.bind_eq_bind, Option.bind_some, h.firstChar_eq, hfrom, hfirst, look,
      Option.pure_def]

/-- A character that is the next glyph is accepted. -/
theorem Faces.accept?_self {x : Char} (h : c.Faces (.char x :: rest)) :
    c.accept? x = some (some (c.beyond [.char x])) := by
  simp [accept?, h.atEnd_eq, h.peek?_eq, look, Glyph.shown, h.advance?_eq]

/-- A character that is not the next glyph is not accepted. -/
theorem Faces.accept?_of_ne (h : c.Faces gs) {x : Char} (hx : x ≠ '�')
    (hne : gs.head? ≠ some (.char x)) : c.accept? x = some none := by
  rw [accept?, h.atEnd_eq]
  cases gs with
  | nil => rfl
  | cons g rest =>
    have hg : g ≠ .char x := fun he => hne (congrArg some he)
    simp [h.peek?_eq, look, shown_eq_iff hx, hg]

end Facing

end Cursor

/-! ## What a stretch takes -/

namespace Stretch

/-- Does a stretch go on over the first of these glyphs? -/
def goesOver : Stretch → List Glyph → Bool
  | _, [] => false
  | upTo stop, g :: _ => g.shown ≠ stop
  | comment, g :: rest => !(g = .char '*' && rest.head? = some (.char '/'))
  | number, g :: _ => g.inNumber
  | name, g :: _ => g.inName

/-- The glyphs that a stretch takes from the head of a row. -/
def taken (l : Stretch) : List Glyph → List Glyph
  | [] => []
  | g :: rest => if l.goesOver (g :: rest) then g :: l.taken rest else []

/-- The replacement character is no letter. -/
theorem isLetter_replacement : isLetter '�' = false := by decide +kernel

/-- A glyph may stand in a name if it shows as a character that may. -/
theorem isNameChar_shown (g : Glyph) : isNameChar g.shown = g.inName := by
  cases g with
  | char c => rfl
  | stray b =>
    have hc : isNameChar '�' = false := by simp [isNameChar, isLetter_replacement]
    exact hc

/-- A glyph may stand in a number if it shows as a digit or a point. -/
theorem isDigit_shown (g : Glyph) : (g.shown.isDigit || g.shown = '.') = g.inNumber := by
  cases g with
  | char c => rfl
  | stray b => rfl

/-- A stretch goes on at the cursor if it goes on over the glyphs that the cursor faces. No
stretch goes on at the end, where none of them takes a null character for more text. -/
theorem goesOn?_eq (l : Stretch) {c : Cursor} {gs : List Glyph} (h : c.Faces gs) :
    l.goesOn? c = some (l.goesOver gs) := by
  cases gs with
  | nil =>
    cases l with
    | upTo stop => simp [goesOn?, goesOver, h.peek?_eq, h.atEnd_eq]
    | comment => simp [goesOn?, goesOver, h.atEnd_eq]
    | number => rw [goesOn?, h.peek?_eq]; rfl
    | name =>
      rw [goesOn?, h.peek?_eq]
      simp [Cursor.look, goesOver, show isNameChar '\x00' = false by decide]
  | cons g rest =>
    cases l with
    | upTo stop => simp [goesOn?, goesOver, h.peek?_eq, h.atEnd_eq, Cursor.look]
    | comment =>
      simp only [goesOn?, goesOver, h.peek?_eq, h.atEnd_eq, List.isEmpty_cons,
        Bool.false_eq_true, if_false, Option.bind_eq_bind, Option.bind_some, Cursor.look,
        Cursor.shown_eq_iff (show '*' ≠ '�' by decide)]
      split
      · next hg =>
        subst hg
        rw [h.peekNext?_eq rfl]
        simp [Cursor.look_eq_iff (show '/' ≠ '\x00' by decide) (show '/' ≠ '�' by decide)]
      · next hg => simp [hg]
    | number => simp [goesOn?, goesOver, h.peek?_eq, Cursor.look, ← isDigit_shown]
    | name => simp [goesOn?, goesOver, h.peek?_eq, Cursor.look, isNameChar_shown]

/-- A stretch takes the head of the row. -/
theorem taken_isPrefix (l : Stretch) (gs : List Glyph) : l.taken gs <+: gs := by
  induction gs with
  | nil => exact List.prefix_rfl
  | cons g rest ih =>
    rw [taken]
    split
    · exact List.cons_prefix_cons.2 ⟨rfl, ih⟩
    · exact List.nil_prefix

/-- A stretch that looks at each glyph alone takes the longest row of the glyphs that it goes
on over. -/
theorem taken_eq_takeWhile {l : Stretch} {p : Glyph → Bool}
    (hp : ∀ g rest, l.goesOver (g :: rest) = p g) (gs : List Glyph) :
    l.taken gs = gs.takeWhile p := by
  induction gs with
  | nil => rfl
  | cons g rest ih => rw [taken, hp, ih, List.takeWhile_cons]

/-- A number takes the digits and points. -/
theorem taken_number (gs : List Glyph) : number.taken gs = gs.takeWhile Glyph.inNumber :=
  taken_eq_takeWhile (fun _ _ => rfl) gs

/-- A name takes all that may stand in one. -/
theorem taken_name (gs : List Glyph) : name.taken gs = gs.takeWhile Glyph.inName :=
  taken_eq_takeWhile (fun _ _ => rfl) gs

/-- A stretch up to a character takes the glyphs before it. -/
theorem taken_upTo {stop : Char} (hstop : stop ≠ '�') (gs : List Glyph) :
    (upTo stop).taken gs = gs.takeWhile (· ≠ .char stop) := by
  apply taken_eq_takeWhile
  intro g rest
  simp [goesOver, Cursor.shown_eq_iff hstop]

/-- A comment that does not end takes everything. -/
theorem taken_comment_of_none {gs : List Glyph} (h : commentEnd? gs = none) :
    comment.taken gs = gs := by
  induction gs with
  | nil => rfl
  | cons g rest ih =>
    rw [commentEnd?] at h
    split at h
    · cases h
    · next hend =>
      rw [taken, goesOver, Bool.eq_false_iff.2 hend, ih (Option.map_eq_none_iff.1 h)]
      rfl

/-- A comment that ends takes all before its end mark. -/
theorem taken_comment_of_some {gs : List Glyph} {n : Nat} (h : commentEnd? gs = some n) :
    ∃ more, gs = comment.taken gs ++ .char '*' :: .char '/' :: more ∧
      n = (comment.taken gs).length + 2 := by
  induction gs generalizing n with
  | nil => cases h
  | cons g rest ih =>
    rw [commentEnd?] at h
    split at h
    · next hend =>
      cases h
      rw [taken, goesOver, hend]
      simp only [Bool.and_eq_true, decide_eq_true_eq] at hend
      obtain ⟨rfl, hhead⟩ := hend
      obtain ⟨more, rfl⟩ := List.head?_eq_some_iff.1 hhead
      exact ⟨more, rfl, rfl⟩
    · next hend =>
      obtain ⟨m, hm, rfl⟩ := Option.map_eq_some_iff.1 h
      obtain ⟨more, hrest, rfl⟩ := ih hm
      rw [taken, goesOver, Bool.eq_false_iff.2 hend]
      exact ⟨more, congrArg (g :: ·) hrest, rfl⟩

end Stretch

namespace Cursor

/-- A cursor passes over a stretch and stops beyond what the stretch takes. -/
theorem Faces.pass?_eq {c : Cursor} {gs : List Glyph} (h : c.Faces gs) (l : Stretch) :
    c.pass? l = some (c.beyond (l.taken gs)) := by
  induction gs generalizing c with
  | nil =>
    rw [pass?, l.goesOn?_eq h]
    rfl
  | cons g rest ih =>
    rw [pass?, l.goesOn?_eq h, Stretch.taken]
    simp only [Option.bind_eq_bind, Option.bind_some]
    split
    · rw [h.advance?_eq, Option.bind_some, ih h.tail, beyond_beyond]
      rfl
    · rfl

end Cursor

end ShaderFront
