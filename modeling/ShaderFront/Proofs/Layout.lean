import ShaderFront.Proofs.Elements
import ShaderFront.Proofs.Places

/-!
# Tokens in any layout

Tokens are written one after another with text between them that leaves nothing behind:
blanks and comments. As long as a blank comes right after each of them, scanning finds
these tokens and no others, whatever the comments hold, each at the place where it was
written. After the last token there may be nothing at all, and the end of the text may
cut off a comment.
-/

namespace ShaderFront

/-! ## Text between tokens -/

/-- The byte that starts a comment. -/
def slashByte : UInt8 := 0x2f

/-- The byte that makes a comment one between marks. -/
def starByte : UInt8 := 0x2a

/-- The blank characters. -/
inductive Blank where
  /-- A space. -/
  | space
  /-- A horizontal tab. -/
  | tab
  /-- A carriage return. -/
  | carriageReturn
  /-- A line feed. -/
  | lineFeed
  deriving DecidableEq, Repr

/-- The byte of a blank character. -/
def Blank.byte : Blank → UInt8
  | space => 0x20
  | tab => 0x09
  | carriageReturn => 0x0d
  | lineFeed => 0x0a

/-- A blank character. -/
def Blank.char : Blank → Char
  | space => ' '
  | tab => '\t'
  | carriageReturn => '\r'
  | lineFeed => '\n'

/-- What may stand in a comment that runs to the end of its line: any bytes but a line
feed. -/
abbrev LineBody := { body : Bytes // lineFeed ∉ body }

/-- What may stand in a comment between marks: any bytes without the closing mark. -/
abbrev BlockBody := { body : Bytes // ¬ [starByte, slashByte] <:+: body }

/-- A piece of text that leaves nothing behind. -/
inductive Filler where
  /-- A blank. -/
  | blank (b : Blank)
  /-- A comment between marks. -/
  | block (body : BlockBody)
  /-- A comment with the line feed that ends it. -/
  | line (body : LineBody)

/-- The bytes of a piece of filler. -/
def Filler.text : Filler → Bytes
  | blank b => [b.byte]
  | block body => slashByte :: starByte :: (body.val ++ [starByte, slashByte])
  | line body => slashByte :: slashByte :: (body.val ++ [lineFeed])

/-- The bytes of a row of filler. -/
def fillerText (gap : List Filler) : Bytes :=
  gap.flatMap Filler.text

/-- Does a row of filler start with a blank? -/
def startsBlank : List Filler → Bool
  | .blank _ :: _ => true
  | _ => false

/-- The bytes of a comment that the end of the text cuts off, if there is one. -/
def closingText : Option LineBody → Bytes
  | none => []
  | some body => slashByte :: slashByte :: body.val

/-! ## Layouts -/

/-- A token and the filler after it. -/
structure Spaced where
  /-- The token. -/
  token : Token
  /-- What stands between it and the next token. -/
  gap : List Filler

/-- The bytes of tokens with the filler after each. -/
def spacedText (items : List Spaced) : Bytes :=
  items.flatMap fun item => item.token.lexeme ++ fillerText item.gap

/-- Does a blank follow each token, or the end of the text the last one? -/
def areSeparated (closing : Option LineBody) : List Spaced → Bool
  | [] => true
  | item :: more =>
    (startsBlank item.gap || item.gap.isEmpty && more.isEmpty && closing.isNone) &&
      areSeparated closing more

/-- The tokens of a row, each at the place where it is written after the given text. -/
def placedAfter (before : Bytes) : List Spaced → List Token
  | [] => []
  | item :: more =>
    { item.token with pos := placeAfter before } ::
      placedAfter (before ++ item.token.lexeme ++ fillerText item.gap) more

/-- A text made of tokens and filler. -/
structure Layout where
  /-- The filler before the first token. -/
  lead : List Filler
  /-- The tokens, each with the filler after it. -/
  items : List Spaced
  /-- The comment that the end of the text cuts off. -/
  closing : Option LineBody

namespace Layout

/-- The bytes of a text made of tokens and filler. -/
def text (l : Layout) : Bytes :=
  fillerText l.lead ++ spacedText l.items ++ closingText l.closing

/-- The tokens of the text, each where it is written, and the end token. -/
def tokens (l : Layout) : List Token :=
  placedAfter (fillerText l.lead) l.items ++ [Token.eof (placeAfter l.text)]

end Layout

/-! ## Places -/

/-- A text after which every other text is decoded by itself. -/
def CutsAfter (s : Bytes) : Prop :=
  ∀ t, decode (s ++ t) = decode s ++ decode t

/-- The place after two texts is reached from the place after the first one. -/
theorem placeAfter_append {s t : Bytes} (h : decode (s ++ t) = decode s ++ decode t) :
    placeAfter (s ++ t) = (placeAfter s).advanceOver (decode t) := by
  rw [← Position.advanceOver_decode, ← Position.advanceOver_decode, h,
    Position.advanceOver_append]

/-- Nothing is decoded before the start of a text. -/
theorem cutsAfter_nil : CutsAfter [] := fun _ => rfl

/-- Two texts that can each be cut off can be cut off together. -/
theorem CutsAfter.append {s t : Bytes} (hs : CutsAfter s) (ht : CutsAfter t) :
    CutsAfter (s ++ t) := by
  intro u
  rw [List.append_assoc, hs, ht, hs, List.append_assoc]

/-- A byte below `0x80` can be cut off with everything before it. -/
theorem cutsAfter_ascii (s : Bytes) {b : UInt8} (hb : b < 0x80) : CutsAfter (s ++ [b]) := by
  intro t
  rw [List.append_assoc, List.singleton_append, decode_append_ascii s hb,
    decode_append_ascii s hb, List.append_assoc]
  rfl

/-- Filler can be cut off. -/
theorem Filler.cutsAfter (f : Filler) : CutsAfter f.text := by
  cases f with
  | blank b => exact cutsAfter_ascii [] (by cases b <;> decide)
  | block body =>
    have h : text (block body) =
        (slashByte :: starByte :: (body.val ++ [starByte])) ++ [slashByte] := by
      simp [text]
    rw [h]
    exact cutsAfter_ascii _ (by decide)
  | line body => exact cutsAfter_ascii (slashByte :: slashByte :: body.val) (by decide)

/-- A row of filler can be cut off. -/
theorem cutsAfter_fillerText (gap : List Filler) : CutsAfter (fillerText gap) := by
  induction gap with
  | nil => exact cutsAfter_nil
  | cons f gap ih => exact f.cutsAfter.append ih

/-! ## Scanning filler -/

/-- The blanks are the characters that are skipped between elements. -/
theorem Blank.isGap_char (b : Blank) : isGap b.char = true := by
  cases b <;> rfl

/-- The glyphs of a text that starts with a blank. -/
theorem Blank.decode_cons (b : Blank) (t : Bytes) :
    decode (b.byte :: t) = .char b.char :: decode t := by
  have hbyte : b.byte < 0x80 := by cases b <;> decide
  have hchar : Char.ofNat b.byte.toNat = b.char := by cases b <;> rfl
  rw [decode_ascii hbyte, hchar]

/-- The glyphs of a text that starts with a slash. -/
theorem decode_slash (t : Bytes) : decode (slashByte :: t) = .char '/' :: decode t :=
  decode_ascii (by decide) t

/-- The glyphs of a text that starts with a star. -/
theorem decode_star (t : Bytes) : decode (starByte :: t) = .char '*' :: decode t :=
  decode_ascii (by decide) t

/-- A blank is an element by itself. -/
theorem element_blank {w : Char} (hw : isGap w = true) (rest : List Glyph) :
    element (.char w) rest = ⟨.gap, 0⟩ := by
  rcases eq_of_isGap hw with rfl | rfl | rfl | rfl <;> rfl

/-- A slash starts a comment or is an operator. -/
theorem element_slash (rest : List Glyph) : element (.char '/') rest = slashElement rest := rfl

/-- A comment between marks ends with the first closing mark. -/
theorem commentEnd?_body {gs : List Glyph} (h : ¬ [.char '*', .char '/'] <:+: gs)
    (more : List Glyph) :
    commentEnd? (gs ++ .char '*' :: .char '/' :: more) = some (gs.length + 2) := by
  induction gs with
  | nil => simp [commentEnd?]
  | cons g gs ih =>
    have hgs : ¬ [.char '*', .char '/'] <:+: gs := fun hi => h (List.infix_cons hi)
    have hend : ¬ (g = .char '*' ∧
        (gs ++ .char '*' :: .char '/' :: more).head? = some (.char '/')) := by
      rintro ⟨rfl, hhead⟩
      cases gs with
      | nil => cases hhead
      | cons g gs =>
        cases hhead
        exact h ⟨[], gs, rfl⟩
    rw [List.cons_append, commentEnd?, if_neg (by simpa using hend), ih hgs]
    rfl

/-- Scanning passes over a blank. -/
theorem scan_blank {w : Char} (hw : isGap w = true) (p : Position) (more : List Glyph) :
    scan p (.char w :: more) = scan (p.advance (.char w)) more := by
  have h : element (.char w) ([] ++ more) = ⟨.gap, ([] : List Glyph).length⟩ :=
    element_blank hw more
  exact scan_gap_append h p

/-- Scanning passes over a comment between marks. -/
theorem scan_block (body : BlockBody) (p : Position) (more : List Glyph) :
    scan p (decode (Filler.block body).text ++ more) =
      scan (p.advanceOver (decode (Filler.block body).text)) more := by
  have hbody : ¬ [.char '*', .char '/'] <:+: decode body.val := fun hi =>
    body.property (glyphBytes_isInfix_of hi)
  have hglyphs : decode (Filler.block body).text =
      .char '/' :: (.char '*' :: decode body.val ++ [.char '*', .char '/']) := by
    rw [Filler.text, decode_slash, decode_star, decode_append_ascii _ (by decide), decode_slash]
    rfl
  rw [hglyphs, List.cons_append]
  apply scan_gap_append
  have hend := commentEnd?_body hbody more
  simp only [element_slash, List.cons_append, List.append_assoc, List.nil_append, slashElement,
    hend, List.length_cons, List.length_append, List.length_nil]
  simp only [Element.mk.injEq, true_and]
  omega

/-- Scanning passes over a comment up to the end of its line or of the text. -/
theorem scan_lineBody (body : LineBody) (p : Position) {more : List Glyph}
    (hmore : ∀ g ∈ more.head?, g = .char '\n') :
    scan p (decode (slashByte :: slashByte :: body.val) ++ more) =
      scan (p.advanceOver (decode (slashByte :: slashByte :: body.val))) more := by
  have hbody : ∀ g ∈ decode body.val, decide (g ≠ .char '\n') = true := by
    intro g hg
    have hne : g ≠ .char '\n' := fun he => newline_notMem_decode body.property (he ▸ hg)
    exact decide_eq_true hne
  have hstop : more.takeWhile (· ≠ .char '\n') = [] := by
    cases more with
    | nil => rfl
    | cons g more =>
      have hg : g = .char '\n' := hmore g rfl
      exact List.takeWhile_cons_of_neg (by simp [hg])
  have hrow : (decode body.val ++ more).takeWhile (· ≠ .char '\n') = decode body.val := by
    rw [List.takeWhile_append_of_pos hbody, hstop, List.append_nil]
  rw [decode_slash, decode_slash, List.cons_append]
  apply scan_gap_append
  simp only [element_slash, List.cons_append, slashElement, hrow, List.length_cons]
  rw [Nat.add_comm]

/-- Scanning passes over filler. -/
theorem scan_filler (f : Filler) (p : Position) (t : Bytes) :
    scan p (decode (f.text ++ t)) = scan (p.advanceOver (decode f.text)) (decode t) := by
  rw [f.cutsAfter]
  cases f with
  | blank b =>
    rw [Filler.text, b.decode_cons]
    exact scan_blank b.isGap_char p (decode t)
  | block body => exact scan_block body p (decode t)
  | line body =>
    have hglyphs : decode (Filler.line body).text =
        decode (slashByte :: slashByte :: body.val) ++ [.char '\n'] :=
      decode_append_lineFeed (slashByte :: slashByte :: body.val) []
    have hnext : ∀ g ∈ ([Glyph.char '\n'] ++ decode t).head?, g = .char '\n' := by
      rintro _ ⟨⟩
      rfl
    rw [hglyphs, List.append_assoc, scan_lineBody body p hnext, List.singleton_append,
      scan_blank rfl, Position.advanceOver_append]
    rfl

/-- Scanning passes over a row of filler. -/
theorem scan_fillerText (gap : List Filler) (p : Position) (t : Bytes) :
    scan p (decode (fillerText gap ++ t)) =
      scan (p.advanceOver (decode (fillerText gap))) (decode t) := by
  induction gap generalizing p with
  | nil => rfl
  | cons f gap ih =>
    have htext : fillerText (f :: gap) = f.text ++ fillerText gap := rfl
    rw [htext, List.append_assoc, scan_filler, ih, f.cutsAfter, Position.advanceOver_append]

/-- Nothing is left of a comment that the end of the text cuts off. -/
theorem scan_closingText (closing : Option LineBody) (p : Position) :
    scan p (decode (closingText closing)) =
      .ok [Token.eof (p.advanceOver (decode (closingText closing)))] := by
  cases closing with
  | none => rw [closingText, decode, scan, Position.advanceOver_nil]
  | some body =>
    have hnone : ∀ g ∈ ([] : List Glyph).head?, g = .char '\n' := by
      intro g hg
      cases hg
    have h := scan_lineBody body p hnone
    rw [List.append_nil] at h
    rw [closingText, h, scan]

/-! ## Scanning a token -/

/-- A token that its own text is read as takes that text as a single element. -/
theorem exists_element_of_tokenize {t : Token} {q : Position}
    (h : tokenize t.lexeme = .ok [t, Token.eof q]) :
    ∃ g rest, decode t.lexeme = g :: rest ∧
      element g rest = ⟨.symbol t.symbol, rest.length⟩ := by
  have hscan := tokenize_eq_ok.1 h
  have hbytes := glyphBytes_decode t.lexeme
  cases hd : decode t.lexeme with
  | nil =>
    rw [hd, scan] at hscan
    cases hscan
  | cons g rest =>
    refine ⟨g, rest, rfl, ?_⟩
    rw [hd] at hscan hbytes
    have hextent := extent_element_le g rest
    cases he : element g rest with
    | mk reading n =>
      rw [he] at hextent
      cases reading with
      | fault cause =>
        rw [scan_fault he] at hscan
        cases hscan
      | gap =>
        -- The token would come from the rest of its own text, which is too short for it.
        rw [scan_gap he] at hscan
        have hle := length_lexeme_le hscan List.mem_cons_self
        have hsplit := congrArg List.length (glyphBytes_split g rest n)
        have hpos := List.length_pos_iff.2 g.bytes_ne_nil
        rw [hbytes, List.length_append, glyphBytes_cons, List.length_append] at hsplit
        omega
      | symbol s =>
        obtain ⟨more, -, hts⟩ := scan_symbol_eq_ok he hscan
        obtain ⟨ht, -⟩ := List.cons.inj hts
        have hlexeme : t.lexeme = glyphBytes (g :: rest.take n) := by rw [ht]
        have hsymbol : t.symbol = s := by rw [ht]
        have hsplit := glyphBytes_split g rest n
        rw [hbytes, ← hlexeme] at hsplit
        have hdrop := eq_nil_of_glyphBytes (List.self_eq_append_right.1 hsplit)
        have hn : n = rest.length := Nat.le_antisymm hextent (List.drop_eq_nil_iff.1 hdrop)
        rw [hsymbol, hn]

/-- A text that is a single element is read as its token. -/
theorem tokenize_of_element {lexeme : Bytes} {g : Glyph} {rest : List Glyph} {s : Symbol}
    (hd : decode lexeme = g :: rest) (he : element g rest = ⟨.symbol s, rest.length⟩) :
    tokenize lexeme = .ok [⟨s, lexeme, .start⟩, Token.eof (placeAfter lexeme)] := by
  have hbytes := glyphBytes_decode lexeme
  have hscan := scan_symbol he .start
  rw [List.take_length, List.drop_length, scan, ← hd, Position.advanceOver_decode,
    hbytes] at hscan
  rw [tokenize_eq_ok, hscan]
  rfl

/-- Can a token end before this text? It can at its end and before a blank. -/
def Stops (t : Bytes) : Prop :=
  t = [] ∨ ∃ (b : Blank) (more : Bytes), t = b.byte :: more

/-- A text can be cut where a token can end. -/
theorem Stops.decode_append {t : Bytes} (h : Stops t) (s : Bytes) :
    decode (s ++ t) = decode s ++ decode t := by
  rcases h with rfl | ⟨b, more, rfl⟩
  · rw [List.append_nil, decode, List.append_nil]
  · have hbyte : b.byte < 0x80 := by cases b <;> decide
    rw [decode_append_ascii s hbyte, decode_ascii hbyte]

/-- A token is found again where its text is written, if it can end there. -/
theorem scan_token {t : Token} {q : Position} (h : tokenize t.lexeme = .ok [t, Token.eof q])
    {after : Bytes} (hafter : Stops after) (p : Position) :
    scan p (decode (t.lexeme ++ after)) =
      (scan (p.advanceOver (decode t.lexeme)) (decode after)).map ({ t with pos := p } :: ·) := by
  obtain ⟨g, rest, hd, he⟩ := exists_element_of_tokenize h
  have hbytes := glyphBytes_decode t.lexeme
  have hsame : element g (rest ++ decode after) = ⟨.symbol t.symbol, rest.length⟩ := by
    rcases hafter with rfl | ⟨b, more, rfl⟩
    · rw [decode, List.append_nil, he]
    · have hstays : (element g rest).reading.staysBefore b.char = true := by rw [he]; rfl
      rw [b.decode_cons, element_append b.isGap_char hstays, he]
  rw [hafter.decode_append, hd, List.cons_append, scan_symbol_append hsame, ← hd, hbytes]

/-! ## Scanning a layout -/

/-- A token can end before filler that starts with a blank. -/
theorem stops_of_startsBlank {gap : List Filler} (h : startsBlank gap = true) (t : Bytes) :
    Stops (fillerText gap ++ t) := by
  cases gap with
  | nil => cases h
  | cons f gap =>
    cases f with
    | blank b => exact .inr ⟨b, fillerText gap ++ t, rfl⟩
    | block body => cases h
    | line body => cases h

/-- A text can be cut off after filler that starts with a blank. -/
theorem cutsAfter_append_fillerText (s : Bytes) {gap : List Filler}
    (hgap : startsBlank gap = true) : CutsAfter (s ++ fillerText gap) := by
  intro t
  have hstops := stops_of_startsBlank hgap
  have hempty := hstops []
  rw [List.append_nil] at hempty
  rw [List.append_assoc, (hstops t).decode_append, hempty.decode_append,
    cutsAfter_fillerText gap t, List.append_assoc]

/-- The place after a token and its filler is reached over both. -/
theorem placeAfter_spaced {before : Bytes} (h : CutsAfter before) (lexeme : Bytes)
    {gap : List Filler} (hgap : startsBlank gap = true) :
    placeAfter (before ++ lexeme ++ fillerText gap) =
      ((placeAfter before).advanceOver (decode lexeme)).advanceOver
        (decode (fillerText gap)) := by
  have hempty := stops_of_startsBlank hgap []
  rw [List.append_nil] at hempty
  rw [placeAfter_append (hempty.decode_append _), placeAfter_append (h lexeme)]

/-- A token that nothing follows is found where it is written, and then the text ends. -/
theorem scan_lastToken {t : Token} {q : Position}
    (h : tokenize t.lexeme = .ok [t, Token.eof q]) {before : Bytes}
    (hbefore : CutsAfter before) :
    scan (placeAfter before) (decode t.lexeme) =
      .ok [{ t with pos := placeAfter before }, Token.eof (placeAfter (before ++ t.lexeme))] := by
  have hscan := scan_token h (.inl rfl) (placeAfter before)
  rw [List.append_nil, decode, scan] at hscan
  rw [hscan, placeAfter_append (hbefore _)]
  rfl

/-- Scanning the text of tokens and filler finds the tokens where they are written. -/
theorem scan_spacedText {closing : Option LineBody} {items : List Spaced}
    (hseparated : areSeparated closing items = true)
    (hreads : ∀ item ∈ items, ∃ q,
      tokenize item.token.lexeme = .ok [item.token, Token.eof q])
    {before : Bytes} (hbefore : CutsAfter before) :
    scan (placeAfter before) (decode (spacedText items ++ closingText closing)) =
      .ok (placedAfter before items ++
        [Token.eof (placeAfter (before ++ spacedText items ++ closingText closing))]) := by
  induction items generalizing before with
  | nil =>
    have htext : before ++ spacedText [] ++ closingText closing =
        before ++ closingText closing := by simp [spacedText]
    rw [htext, placeAfter_append (hbefore _)]
    exact scan_closingText closing _
  | cons item more ih =>
    obtain ⟨q, hitem⟩ := hreads item List.mem_cons_self
    have hmore : ∀ i ∈ more, ∃ q, tokenize i.token.lexeme = .ok [i.token, Token.eof q] :=
      fun i hi => hreads i (List.mem_cons_of_mem item hi)
    simp only [areSeparated, Bool.and_eq_true, Bool.or_eq_true] at hseparated
    obtain ⟨hgap, hseparated⟩ := hseparated
    have htext : spacedText (item :: more) ++ closingText closing = item.token.lexeme ++
        (fillerText item.gap ++ (spacedText more ++ closingText closing)) := by
      simp [spacedText]
    rcases hgap with hgap | ⟨⟨hgap, hlast⟩, hclosing⟩
    · have hend : before ++ spacedText (item :: more) ++ closingText closing =
          before ++ item.token.lexeme ++ fillerText item.gap ++ spacedText more ++
            closingText closing := by
        simp [spacedText]
      rw [htext, scan_token hitem (stops_of_startsBlank hgap _), scan_fillerText,
        ← placeAfter_spaced hbefore _ hgap,
        ih hseparated hmore (cutsAfter_append_fillerText _ hgap), hend]
      rfl
    · obtain ⟨token, gap⟩ := item
      obtain rfl : gap = [] := List.isEmpty_iff.1 hgap
      obtain rfl : more = [] := List.isEmpty_iff.1 hlast
      obtain rfl : closing = none := Option.isNone_iff_eq_none.1 hclosing
      have hlexeme : spacedText [⟨token, []⟩] ++ closingText none = token.lexeme := by
        simp [spacedText, fillerText, closingText]
      rw [List.append_assoc, hlexeme, scan_lastToken hitem hbefore]
      rfl

/-- Tokens written with filler between them are read as these tokens and nothing else,
each at the place where it is written, and then the text ends. -/
theorem tokenize_layout (l : Layout) (hseparated : areSeparated l.closing l.items = true)
    (hreads : ∀ item ∈ l.items, ∃ q,
      tokenize item.token.lexeme = .ok [item.token, Token.eof q]) :
    tokenize l.text = .ok l.tokens := by
  rw [tokenize_eq_ok, Layout.text, List.append_assoc, scan_fillerText,
    Position.advanceOver_decode]
  exact scan_spacedText hseparated hreads (cutsAfter_fillerText l.lead)

/-- A division sign, a string over two lines with a stray byte, and a name with an accent.
Comments stand before, between and after them: one of stars, one with a stray byte and one
that the end of the text cuts off within a character. -/
def commentedLayout : Layout where
  lead := [.block ⟨[starByte, starByte], by decide⟩, .line ⟨[slashByte, starByte], by decide⟩]
  items :=
    [⟨⟨.operator .divide, [slashByte], .start⟩,
        [.blank .tab, .block ⟨[slashByte, 0xff], by decide⟩]⟩,
      ⟨⟨.string [0x61, 0x0a, 0xff], [0x22, 0x61, 0x0a, 0xff, 0x22], .start⟩,
        [.blank .carriageReturn, .blank .lineFeed]⟩,
      ⟨⟨.ident (utf8 "é1"), utf8 "é1", .start⟩, [.blank .space]⟩]
  closing := some ⟨[0xc3], by decide⟩

/-- The three tokens are found on the second and fourth lines. -/
theorem tokenize_commentedLayout :
    tokenize commentedLayout.text = .ok
      [⟨.operator .divide, [slashByte], ⟨2, 1⟩⟩,
        ⟨.string [0x61, 0x0a, 0xff], [0x22, 0x61, 0x0a, 0xff, 0x22], ⟨2, 9⟩⟩,
        ⟨.ident (utf8 "é1"), utf8 "é1", ⟨4, 1⟩⟩,
        Token.eof ⟨4, 7⟩] := by
  have hreads : ∀ item ∈ commentedLayout.items, ∃ q,
      tokenize item.token.lexeme = .ok [item.token, Token.eof q] := by
    intro item hitem
    simp only [commentedLayout, List.mem_cons, List.not_mem_nil, or_false] at hitem
    rcases hitem with rfl | rfl | rfl
    · exact ⟨_, tokenize_of_element rfl rfl⟩
    · exact ⟨_, tokenize_of_element rfl rfl⟩
    · exact ⟨_, tokenize_of_element rfl rfl⟩
  exact tokenize_layout commentedLayout (by decide) hreads

end ShaderFront
