import Mathlib.Control.Monad.Basic
import ShaderFront.Proofs.Layout

/-!
# Texts on separate lines

A line feed separates what comes before it from what comes after it. A text that can be
scanned has its tokens also when a line feed and another text follow, and the other text
has the tokens or the fault that it has by itself, only further down. A fault that lies
within the first text stays, unless the text ends in the faulty element.
-/

namespace ShaderFront

/-! ## Moving down -/

/-- The position a number of lines further down. -/
def Position.down (k : Int) (p : Position) : Position :=
  ⟨p.line + k, p.column⟩

/-- The stretch of text a number of lines further down. -/
def Span.down (k : Int) (s : Span) : Span :=
  ⟨s.start.down k, s.stop.down k⟩

/-- The token a number of lines further down. -/
def Token.down (k : Int) (t : Token) : Token :=
  { t with pos := t.pos.down k }

/-- The fault a number of lines further down. -/
def LexicalFault.down (k : Int) (f : LexicalFault) : LexicalFault :=
  { f with span := f.span.down k }

/-- Advancing from further down arrives further down. -/
theorem Position.advanceOver_down (k : Int) (p : Position) (gs : List Glyph) :
    (p.down k).advanceOver gs = (p.advanceOver gs).down k := by
  induction gs generalizing p with
  | nil => rfl
  | cons g gs ih =>
    have hstep : (p.down k).advance g = (p.advance g).down k := by
      unfold advance down
      split
      · simp only [mk.injEq, and_true]
        omega
      · rfl
    rw [advanceOver_cons, advanceOver_cons, hstep, ih]

/-- What scanning comes to, a number of lines further down. -/
def scannedDown (k : Int) : Except LexicalFault (List Token) → Except LexicalFault (List Token)
  | .ok ts => .ok (ts.map (Token.down k))
  | .error f => .error (f.down k)

/-- Scanning from further down finds the same further down. -/
theorem scan_down (k : Int) (p : Position) (gs : List Glyph) :
    scan (p.down k) gs = scannedDown k (scan p gs) := by
  induction p, gs using scan_induction with
  | nil p =>
    rw [scan, scan]
    rfl
  | gap p g rest n he ih => rw [scan_gap he, scan_gap he, Position.advanceOver_down, ih]
  | symbol p g rest s n he ih =>
    rw [scan_symbol he, scan_symbol he, Position.advanceOver_down, ih]
    cases scan (p.advanceOver (g :: rest.take n)) (rest.drop n) with
    | ok ts => rfl
    | error f => rfl
  | fault p g rest cause n he =>
    rw [scan_fault he, scan_fault he, Position.advanceOver_down]
    rfl

/-! ## Before a line feed -/

/-- An element that a line feed does not go on with is the same before one, and takes the
same glyphs. -/
theorem element_newline {g : Glyph} {rest : List Glyph} {e : Element} (he : element g rest = e)
    (hstays : e.reading.staysBefore '\n' = true) (hs : List Glyph) :
    element g (rest ++ .char '\n' :: hs) = e ∧
      (rest ++ .char '\n' :: hs).take e.extent = rest.take e.extent ∧
      (rest ++ .char '\n' :: hs).drop e.extent = rest.drop e.extent ++ .char '\n' :: hs := by
  subst he
  have hle := extent_element_le g rest
  refine ⟨element_append rfl hstays hs, ?_, ?_⟩
  · rw [List.take_append_of_le_length hle]
  · rw [List.drop_append_of_le_length hle]

/-- A text with tokens keeps them before a line feed, and what follows is scanned from the
start of the next line. -/
theorem scan_newline {p : Position} {gs : List Glyph} {ts : List Token} (h : scan p gs = .ok ts)
    (hs : List Glyph) :
    ∃ (found : List Token) (q : Position), ts = found ++ [Token.eof q] ∧
      scan p (gs ++ .char '\n' :: hs) = (scan ⟨q.line + 1, 1⟩ hs).map (found ++ ·) := by
  induction p, gs using scan_induction generalizing ts with
  | nil p =>
    rw [scan] at h
    cases h
    refine ⟨[], p, rfl, ?_⟩
    rw [List.nil_append, scan_blank rfl, Position.advance, if_pos rfl]
    cases scan ⟨p.line + 1, 1⟩ hs with
    | ok more => rfl
    | error f => rfl
  | gap p g rest n he ih =>
    rw [scan_gap he] at h
    obtain ⟨found, q, hts, hmore⟩ := ih h
    obtain ⟨he', htake, hdrop⟩ := element_newline he rfl hs
    refine ⟨found, q, hts, ?_⟩
    rw [List.cons_append, scan_gap he', htake, hdrop, hmore]
  | symbol p g rest s n he ih =>
    obtain ⟨more, hscan, rfl⟩ := scan_symbol_eq_ok he h
    obtain ⟨found, q, rfl, hmore⟩ := ih hscan
    obtain ⟨he', htake, hdrop⟩ := element_newline he rfl hs
    refine ⟨⟨s, glyphBytes (g :: rest.take n), p⟩ :: found, q, rfl, ?_⟩
    rw [List.cons_append, scan_symbol he', htake, hdrop, hmore]
    cases scan ⟨q.line + 1, 1⟩ hs with
    | ok ts => rfl
    | error f => rfl
  | fault p g rest cause n he =>
    rw [scan_fault he] at h
    cases h

/-- A fault that a text does not end in stays before a line feed. -/
theorem scan_fault_newline {p : Position} {gs : List Glyph} {fault : LexicalFault}
    (h : scan p gs = .error fault) (hcause : fault.cause.isUnterminated = false)
    (hs : List Glyph) : scan p (gs ++ .char '\n' :: hs) = .error fault := by
  induction p, gs using scan_induction with
  | nil p =>
    rw [scan] at h
    cases h
  | gap p g rest n he ih =>
    rw [scan_gap he] at h
    obtain ⟨he', htake, hdrop⟩ := element_newline he rfl hs
    rw [List.cons_append, scan_gap he', htake, hdrop, ih h]
  | symbol p g rest s n he ih =>
    obtain ⟨he', htake, hdrop⟩ := element_newline he rfl hs
    rw [List.cons_append, scan_symbol he', htake, hdrop, ih (scan_symbol_eq_error he h)]
    rfl
  | fault p g rest cause n he =>
    rw [scan_fault he] at h
    cases h
    have hstays : (Reading.fault cause).staysBefore '\n' = true := by
      rw [Reading.staysBefore, hcause]
      rfl
    obtain ⟨he', htake, -⟩ := element_newline he hstays hs
    rw [List.cons_append, scan_fault he', htake]

/-! ## Whole texts -/

/-- A cause that is reported under one of these kinds does not have the text end in the
faulty element. -/
theorem LexicalCause.not_isUnterminated {cause : LexicalCause}
    (h : cause.kind ∈ [ErrorKind.malformedNumber, .unexpectedCharacter, .unknownOperator]) :
    cause.isUnterminated = false := by
  cases cause with
  | unterminatedString | unterminatedComment | unterminatedAttribute => simp [kind] at h
  | _ => rfl

/-- A text that can be scanned keeps its tokens when a line feed and another text follow.
The other text then has the tokens or the diagnostic that it has by itself, as many lines
further down as the first text has. A diagnostic of the first text stays if the text does
not end in the faulty element. -/
theorem tokenize_lines (a b : Bytes) :
    (∀ ts, tokenize a = .ok ts → ∃ (found : List Token) (p : Position),
      ts = found ++ [Token.eof p] ∧
        tokenize (a ++ lineFeed :: b) = match tokenize b with
          | .ok more => .ok (found ++ more.map (Token.down p.line))
          | .error d => .error
              { d with span := d.span.down p.line, source := a ++ lineFeed :: b }) ∧
    ∀ d, tokenize a = .error d →
      d.kind ∈ [ErrorKind.malformedNumber, .unexpectedCharacter, .unknownOperator] →
        tokenize (a ++ lineFeed :: b) = .error { d with source := a ++ lineFeed :: b } := by
  have hglyphs := decode_append_lineFeed a b
  constructor
  · intro ts h
    obtain ⟨found, p, hts, hscan⟩ := scan_newline (tokenize_eq_ok.1 h) (decode b)
    have hstart : (⟨p.line + 1, 1⟩ : Position) = Position.start.down p.line := by
      rw [Int.add_comm]
      rfl
    refine ⟨found, p, hts, ?_⟩
    rw [hstart, scan_down] at hscan
    unfold tokenize
    rw [hglyphs, hscan]
    cases scan .start (decode b) with
    | ok more => rfl
    | error f => rfl
  · intro d h hkind
    obtain ⟨fault, hfault, rfl⟩ := tokenize_eq_error.1 h
    have hstays := scan_fault_newline hfault (LexicalCause.not_isUnterminated hkind) (decode b)
    rw [← hglyphs] at hstays
    exact tokenize_eq_error.2 ⟨fault, hstays, rfl⟩

/-- A name and a comment that the end of the text cuts off within a character. -/
def cutComment : Bytes := [0x78, slashByte, slashByte, 0xc3]

/-- On the next line, the byte that would continue the character is faulty and a name is
found. Half of an operator stays faulty before its other half. -/
theorem tokenize_lines_cutComment :
    tokenize (cutComment ++ lineFeed :: [0xa9]) = .error
      ⟨.unexpectedCharacter, utf8 "unexpected character '�'", ⟨⟨2, 1⟩, ⟨2, 2⟩⟩,
        cutComment ++ lineFeed :: [0xa9]⟩ ∧
    tokenize (cutComment ++ lineFeed :: [0x79]) = .ok
      [⟨.ident [0x78], [0x78], ⟨1, 1⟩⟩, ⟨.ident [0x79], [0x79], ⟨2, 1⟩⟩, Token.eof ⟨2, 2⟩] ∧
    tokenize ([0x26] ++ lineFeed :: [0x26]) = .error
      ⟨.unknownOperator, utf8 "unknown operator \"&\"", ⟨⟨1, 1⟩, ⟨1, 2⟩⟩,
        [0x26] ++ lineFeed :: [0x26]⟩ := by
  have hname : tokenize cutComment =
      .ok ([⟨.ident [0x78], [0x78], ⟨1, 1⟩⟩] ++ [Token.eof ⟨1, 5⟩]) := by decide +kernel
  refine ⟨?_, ?_, ?_⟩
  · have hstray : tokenize [0xa9] = .error
        ⟨.unexpectedCharacter, utf8 "unexpected character '�'", ⟨⟨1, 1⟩, ⟨1, 2⟩⟩, [0xa9]⟩ := by
      decide +kernel
    obtain ⟨found, p, hts, hlines⟩ := (tokenize_lines cutComment [0xa9]).1 _ hname
    obtain ⟨rfl, hend⟩ := List.append_inj' hts rfl
    cases hend
    rw [hlines, hstray]
    rfl
  · have hnext : tokenize [0x79] =
        .ok [⟨.ident [0x79], [0x79], ⟨1, 1⟩⟩, Token.eof ⟨1, 2⟩] := by decide +kernel
    obtain ⟨found, p, hts, hlines⟩ := (tokenize_lines cutComment [0x79]).1 _ hname
    obtain ⟨rfl, hend⟩ := List.append_inj' hts rfl
    cases hend
    rw [hlines, hnext]
    rfl
  · have hhalf : tokenize [0x26] = .error
        ⟨.unknownOperator, utf8 "unknown operator \"&\"", ⟨⟨1, 1⟩, ⟨1, 2⟩⟩, [0x26]⟩ := by
      decide +kernel
    exact (tokenize_lines [0x26] [0x26]).2 _ hhalf (by decide)

end ShaderFront
