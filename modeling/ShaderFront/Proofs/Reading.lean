import Mathlib.Control.Monad.Basic
import ShaderFront.Proofs.Layout
import ShaderFront.Proofs.Spelling

/-!
# Everything in a text is read

A text that can be scanned is made of the texts of its tokens and of filler between them,
and nothing else. A text that cannot be scanned breaks off at the first element that cannot
be read. Each token and each fault stands at the place that is told by the text before it
alone.
-/

namespace ShaderFront

/-! ## How a text starts -/

/-- What a text starts with. -/
inductive Opening : Bytes → Prop
  /-- There is nothing. -/
  | nothing : Opening []
  /-- A piece of filler. -/
  | filler (f : Filler) (t : Bytes) : Opening (f.text ++ t)
  /-- A comment that the end of the text cuts off. -/
  | closing (body : LineBody) : Opening (closingText (some body))
  /-- A token. -/
  | token {g : Glyph} {taken rest : List Glyph} {s : Symbol}
    (hd : IsDecoded (g :: taken ++ rest))
    (he : element g (taken ++ rest) = ⟨.symbol s, taken.length⟩) :
    Opening (glyphBytes (g :: taken) ++ glyphBytes rest)
  /-- An element that cannot be read. -/
  | fault {g : Glyph} {rest : List Glyph} {cause : LexicalCause} {n : Nat}
    (hd : IsDecoded (g :: rest)) (he : element g rest = ⟨.fault cause, n⟩) :
    Opening (glyphBytes (g :: rest))

/-- A comment between marks that ends holds no closing mark but the last. -/
theorem exists_of_commentEnd? {gs : List Glyph} {n : Nat} (h : commentEnd? gs = some n) :
    ∃ body more, gs = body ++ .char '*' :: .char '/' :: more ∧
      ¬ [.char '*', .char '/'] <:+: body := by
  induction gs generalizing n with
  | nil => cases h
  | cons g gs ih =>
    rw [commentEnd?] at h
    split at h
    case isTrue hend =>
      simp only [Bool.and_eq_true, decide_eq_true_eq] at hend
      obtain ⟨rfl, hhead⟩ := hend
      obtain ⟨more, rfl⟩ := List.head?_eq_some_iff.1 hhead
      exact ⟨[], more, rfl, by simp⟩
    case isFalse hend =>
      obtain ⟨m, hm, -⟩ := Option.map_eq_some_iff.1 h
      obtain ⟨body, more, rfl, hbody⟩ := ih hm
      refine ⟨g :: body, more, rfl, fun hi => ?_⟩
      rcases List.infix_cons_iff.1 hi with hprefix | hi
      · -- The mark would start with this glyph, where the comment was seen not to end.
        obtain ⟨rfl, hnext⟩ := List.cons_prefix_cons.1 hprefix
        obtain ⟨tail, rfl⟩ := hnext
        simp at hend
      · exact hbody hi

/-- A text starts with a comment up to the end of its line, or is cut off in it. -/
theorem opening_of_lineComment {comment : List Glyph} (hd : IsDecoded comment) :
    Opening (slashByte :: slashByte :: glyphBytes comment) := by
  have hfree := notMem_takeWhile_ne (.char '\n') comment
  cases hdrop : comment.dropWhile (· ≠ .char '\n') with
  | nil =>
    have hall := List.takeWhile_append_dropWhile (p := (· ≠ Glyph.char '\n')) (l := comment)
    rw [hdrop, List.append_nil] at hall
    rw [hall] at hfree
    exact .closing ⟨glyphBytes comment, notMem_glyphBytes hd (by decide) hfree⟩
  | cons g tail =>
    obtain ⟨hg, hcomment⟩ := eq_append_of_dropWhile hdrop
    obtain rfl : g = .char '\n' := by simpa using hg
    generalize comment.takeWhile (· ≠ .char '\n') = body at hcomment hfree
    subst hcomment
    have hbody : lineFeed ∉ glyphBytes body :=
      notMem_glyphBytes hd.of_append.1 (by decide) hfree
    have htext : slashByte :: slashByte :: glyphBytes (body ++ .char '\n' :: tail) =
        (Filler.line ⟨glyphBytes body, hbody⟩).text ++ glyphBytes tail := by
      rw [glyphBytes_append, glyphBytes_cons]
      simp only [Filler.text, List.cons_append, List.append_assoc]
      rfl
    rw [htext]
    exact .filler _ _

/-- A text starts with a comment between marks that ends. -/
theorem opening_of_blockComment {comment : List Glyph} (hd : IsDecoded comment) {n : Nat}
    (h : commentEnd? comment = some n) :
    Opening (slashByte :: starByte :: glyphBytes comment) := by
  obtain ⟨body, more, rfl, hfree⟩ := exists_of_commentEnd? h
  have hmarks : ∀ b ∈ [starByte, slashByte], b < 0x80 :=
    List.forall_mem_cons.2 ⟨by decide, List.forall_mem_singleton.2 (by decide)⟩
  have hbody : ¬ [starByte, slashByte] <:+: glyphBytes body := fun hi =>
    hfree (isInfix_of_isInfix_glyphBytes hd.of_append.1 hmarks hi)
  have htext : slashByte :: starByte :: glyphBytes (body ++ .char '*' :: .char '/' :: more) =
      (Filler.block ⟨glyphBytes body, hbody⟩).text ++ glyphBytes more := by
    rw [glyphBytes_append, glyphBytes_cons, glyphBytes_cons]
    simp only [Filler.text, List.cons_append, List.append_assoc]
    rfl
  rw [htext]
  exact .filler _ _

/-- A text that starts with a slash that leaves nothing behind starts with a comment. -/
theorem opening_of_slash {rest : List Glyph} (hd : IsDecoded rest) {n : Nat}
    (h : slashElement rest = ⟨.gap, n⟩) : Opening (glyphBytes (.char '/' :: rest)) := by
  unfold slashElement at h
  split at h
  · next comment => exact opening_of_lineComment hd.tail
  · next comment =>
    split at h
    · next m hend =>
      exact opening_of_blockComment hd.tail hend
    · cases h
  · cases h

/-- The blanks are among the four that have bytes. -/
theorem exists_blank {c : Char} (h : isGap c = true) :
    ∃ b : Blank, Glyph.bytes (.char c) = [b.byte] := by
  rcases eq_of_isGap h with rfl | rfl | rfl | rfl
  · exact ⟨.space, rfl⟩
  · exact ⟨.tab, rfl⟩
  · exact ⟨.carriageReturn, rfl⟩
  · exact ⟨.lineFeed, rfl⟩

/-- An operator leaves something behind. -/
theorem operatorElement?_ne_gap (c : Char) (rest : List Glyph) (n : Nat) :
    operatorElement? c rest ≠ some ⟨.gap, n⟩ := by
  unfold operatorElement? longerIf
  split <;> simp only [ne_eq, Option.some.injEq, reduceCtorEq, not_false_eq_true]
  case h_1 | h_2 | h_3 | h_4 | h_5 | h_6 => split <;> simp
  case h_7 | h_8 | h_9 | h_10 => simp

/-- A string literal leaves something behind. -/
theorem stringElement_ne_gap (quote : Char) (rest : List Glyph) (n : Nat) :
    stringElement quote rest ≠ ⟨.gap, n⟩ := by
  unfold stringElement
  split <;> simp

/-- An attribute leaves something behind. -/
theorem attributeElement_ne_gap (rest : List Glyph) (n : Nat) :
    attributeElement rest ≠ ⟨.gap, n⟩ := by
  unfold attributeElement bracketedAttribute
  dsimp only
  split
  · split
    · simp
    · split <;> simp
  · split <;> simp

/-- A number leaves something behind. -/
theorem numberElement_ne_gap (first : Char) (rest : List Glyph) (n : Nat) :
    numberElement first rest ≠ ⟨.gap, n⟩ := by
  unfold numberElement
  dsimp only
  split <;> simp

/-- An element that leaves nothing behind is filler. -/
theorem opening_of_gap {g : Glyph} {rest : List Glyph} (hd : IsDecoded (g :: rest)) {n : Nat}
    (h : element g rest = ⟨.gap, n⟩) : Opening (glyphBytes (g :: rest)) := by
  cases g with
  | stray b => cases h
  | char c =>
    have hrest : IsDecoded rest := hd.tail
    have hstarts := starts_element c rest
    rw [h] at hstarts
    cases hstarts with
    | blank hc _ =>
      obtain ⟨b, hb⟩ := exists_blank hc
      rw [glyphBytes_cons, hb]
      exact .filler (.blank b) (glyphBytes rest)
    | slash hc he =>
      subst hc
      exact opening_of_slash hrest he.symm
    | punct _ he => cases he
    | operator ho => exact absurd ho (operatorElement?_ne_gap c rest n)
    | string _ he => exact absurd he.symm (stringElement_ne_gap c rest n)
    | attr _ he => exact absurd he.symm (attributeElement_ne_gap rest n)
    | number _ he => exact absurd he.symm (numberElement_ne_gap c rest n)
    | word _ he => cases he
    | unexpected he => cases he

/-- Every text starts with one of these. -/
theorem opening (s : Bytes) : Opening s := by
  have hbytes := glyphBytes_decode s
  have hd := isDecoded_decode s
  cases hs : decode s with
  | nil =>
    rw [hs] at hbytes
    rw [← hbytes]
    exact .nothing
  | cons g rest =>
    rw [hs] at hbytes hd
    rw [← hbytes]
    match he : element g rest with
    | ⟨.gap, n⟩ => exact opening_of_gap hd he
    | ⟨.fault cause, n⟩ => exact .fault hd he
    | ⟨.symbol symbol, n⟩ =>
      have hle : n ≤ rest.length := by
        have hextent := extent_element_le g rest
        rwa [he] at hextent
      have hlength : (rest.take n).length = n := by
        rw [List.length_take]
        omega
      rw [glyphBytes_split g rest n]
      apply Opening.token (s := symbol)
      · rwa [List.cons_append, List.take_append_drop]
      · rw [List.take_append_drop, he, hlength]

/-! ## Cutting a text between its elements -/

/-- The second text is decoded by itself after the first. -/
def CutsBefore (before s : Bytes) : Prop :=
  decode (before ++ s) = decode before ++ decode s

/-- A text that stands after another one can be cut where it can be cut by itself. -/
theorem CutsBefore.of_append {before x t : Bytes} (h : CutsBefore before (x ++ t))
    (hx : decode (x ++ t) = decode x ++ decode t) :
    CutsBefore before x ∧ CutsBefore (before ++ x) t := by
  have hwhole : decode (before ++ (x ++ t)) = decode before ++ decode x ++ decode t := by
    rw [List.append_assoc, ← hx]
    exact h
  have hd := isDecoded_decode (before ++ (x ++ t))
  rw [hwhole] at hd
  have hbefore : CutsBefore before x := by
    have hfirst := hd.of_append.1
    rwa [IsDecoded, glyphBytes_append, glyphBytes_decode, glyphBytes_decode] at hfirst
  refine ⟨hbefore, ?_⟩
  rw [CutsBefore, List.append_assoc, hwhole, hbefore]

/-! ## Texts that can be read -/

namespace Layout

/-- A text made of tokens and filler, with a piece of filler before it. -/
def afterFiller (f : Filler) (l : Layout) : Layout :=
  { l with lead := f :: l.lead }

/-- A text made of tokens and filler, with a token before it. -/
def afterToken (t : Token) (l : Layout) : Layout :=
  ⟨[], ⟨t, l.lead⟩ :: l.items, l.closing⟩

@[simp] theorem text_afterFiller (f : Filler) (l : Layout) :
    (l.afterFiller f).text = f.text ++ l.text := by
  simp [afterFiller, text, fillerText]

@[simp] theorem text_afterToken (t : Token) (l : Layout) :
    (l.afterToken t).text = t.lexeme ++ l.text := by
  simp [afterToken, text, fillerText, spacedText]

/-- The row of tokens is that of the text, each token stands where it is written, and each
is spelled by its own text. -/
structure IsReadAfter (before : Bytes) (l : Layout) (ts : List Token) : Prop where
  /-- The tokens, and the end of the text. -/
  tokens : ts = l.items.map Spaced.token ++ [Token.eof (placeAfter (before ++ l.text))]
  /-- Where the tokens stand. -/
  places : placedAfter (before ++ fillerText l.lead) l.items = l.items.map Spaced.token
  /-- How the tokens are spelled. -/
  spelled : ∀ item ∈ l.items,
    item.token.lexeme ≠ [] ∧ item.token.symbol.IsSpelledBy item.token.lexeme

/-- Filler moves what is read without changing it. -/
theorem IsReadAfter.afterFiller {before : Bytes} {f : Filler} {l : Layout} {ts : List Token}
    (h : l.IsReadAfter (before ++ f.text) ts) : (l.afterFiller f).IsReadAfter before ts := by
  refine ⟨?_, ?_, h.spelled⟩
  · rw [h.tokens, text_afterFiller, List.append_assoc]
    rfl
  · have hlead : before ++ fillerText (l.afterFiller f).lead =
        before ++ f.text ++ fillerText l.lead := by
      simp [Layout.afterFiller, fillerText]
    rw [hlead]
    exact h.places

/-- A token comes before what is read after it. -/
theorem IsReadAfter.afterToken {before : Bytes} {t : Token} {l : Layout} {ts : List Token}
    (h : l.IsReadAfter (before ++ t.lexeme) ts) (hpos : t.pos = placeAfter before)
    (hne : t.lexeme ≠ []) (hs : t.symbol.IsSpelledBy t.lexeme) :
    (l.afterToken t).IsReadAfter before (t :: ts) := by
  refine ⟨?_, ?_, ?_⟩
  · rw [h.tokens, text_afterToken, List.append_assoc]
    rfl
  · have hlead : before ++ fillerText (l.afterToken t).lead = before := List.append_nil before
    have hplaced : { t with pos := placeAfter before } = t := by rw [← hpos]
    rw [hlead]
    simp only [Layout.afterToken, placedAfter, hplaced, h.places, List.map_cons]
  · intro item hitem
    rcases List.mem_cons.1 hitem with rfl | hitem
    · exact ⟨hne, hs⟩
    · exact h.spelled item hitem

end Layout

/-- A text that stands after another one and is scanned without a fault, from the place
after that one, is made of its tokens and of filler. -/
theorem exists_layout_of_scan (s : Bytes) {before : Bytes} (hcut : CutsBefore before s)
    {ts : List Token} (h : scan (placeAfter before) (decode s) = .ok ts) :
    ∃ l : Layout, l.text = s ∧ l.IsReadAfter before ts := by
  -- The induction follows the text from one element to the next.
  induction hn : s.length using Nat.strongRecOn generalizing s before ts with
  | ind n ih =>
    subst hn
    cases opening s with
    | nothing =>
      rw [decode, scan] at h
      cases h
      refine ⟨⟨[], [], none⟩, rfl, ?_, rfl, ?_⟩
      · simp [Layout.text, fillerText, spacedText, closingText]
      · intro item hitem
        cases hitem
    | filler f t =>
      obtain ⟨hf, ht⟩ := hcut.of_append (f.cutsAfter t)
      have hlength : t.length < (f.text ++ t).length := by
        have hpos : 0 < f.text.length := by cases f <;> simp [Filler.text]
        rw [List.length_append]
        omega
      rw [scan_filler, ← placeAfter_append hf] at h
      obtain ⟨l, rfl, hl⟩ := ih t.length hlength t ht h rfl
      exact ⟨l.afterFiller f, l.text_afterFiller f, hl.afterFiller⟩
    | closing body =>
      rw [scan_closingText, ← placeAfter_append hcut] at h
      cases h
      refine ⟨⟨[], [], some body⟩, rfl, ?_, rfl, ?_⟩
      · simp [Layout.text, fillerText, spacedText]
      · intro item hitem
        cases hitem
    | @token g taken rest symbol hd he =>
      have hne : glyphBytes (g :: taken) ≠ [] := fun h =>
        List.cons_ne_nil _ _ (eq_nil_of_glyphBytes h)
      have hlength : (glyphBytes rest).length <
          (glyphBytes (g :: taken) ++ glyphBytes rest).length := by
        have hpos := List.length_pos_iff.2 hne
        rw [List.length_append]
        omega
      have hspelled : symbol.IsSpelledBy (glyphBytes (g :: taken)) := by
        have hwhole : IsDecoded (g :: (taken ++ rest)) := hd
        have hs := element_isSpelledBy hwhole he
        rwa [List.take_left] at hs
      obtain ⟨hx, ht⟩ := hcut.of_append hd.decode_append
      obtain ⟨htaken, hrest⟩ := hd.of_append
      rw [hd.decode_append, htaken, hrest, List.cons_append] at h
      obtain ⟨more, hmore, rfl⟩ := scan_symbol_eq_ok he h
      rw [List.take_left, List.drop_left] at hmore
      have hplace : placeAfter (before ++ glyphBytes (g :: taken)) =
          (placeAfter before).advanceOver (g :: taken) := by
        rw [placeAfter_append hx, htaken]
      rw [← hplace, ← hrest] at hmore
      obtain ⟨l, hl, hread⟩ := ih _ hlength _ ht hmore rfl
      rw [List.take_left, ← hl]
      exact ⟨l.afterToken ⟨symbol, glyphBytes (g :: taken), placeAfter before⟩,
        l.text_afterToken _, hread.afterToken rfl hne hspelled⟩
    | fault hd he =>
      rw [hd, scan_fault he] at h
      cases h

/-! ## Texts that cannot be read -/

/-- Does an element that is read so put an end to scanning? -/
def Reading.isFault : Reading → Bool
  | .fault _ => true
  | _ => false

/-- Scanning a row of glyphs comes to a rest of it after whole elements that can be read. -/
inductive ComesTo : List Glyph → List Glyph → Prop
  /-- Nothing is read yet. -/
  | here (gs : List Glyph) : ComesTo gs gs
  /-- An element is read first. -/
  | past {g : Glyph} {rest more : List Glyph} {reading : Reading} {n : Nat}
    (he : element g rest = ⟨reading, n⟩) (hr : reading.isFault = false)
    (h : ComesTo (rest.drop n) more) : ComesTo (g :: rest) more

/-- Where scanning a row of glyphs breaks off. -/
structure Break (gs : List Glyph) where
  /-- The glyphs of the elements before the faulty one. -/
  read : List Glyph
  /-- The glyph that the faulty element starts with. -/
  first : Glyph
  /-- All that follows it. -/
  rest : List Glyph
  /-- Why the element cannot be read. -/
  cause : LexicalCause
  /-- How many glyphs were looked at after the first. -/
  extent : Nat
  /-- These are the glyphs. -/
  glyphs : gs = read ++ first :: rest
  /-- All elements before the faulty one can be read. -/
  comes : ComesTo gs (first :: rest)
  /-- The element cannot be read. -/
  faulty : element first rest = ⟨.fault cause, extent⟩

namespace Break

variable {gs : List Glyph}

/-- The glyphs of the faulty element that were looked at. -/
def looked (b : Break gs) : List Glyph :=
  b.first :: b.rest.take b.extent

/-- The fault of a row of glyphs that starts at the given position: it reaches from the
place where the element starts to the place after what was looked at. -/
def fault (p : Position) (b : Break gs) : LexicalFault :=
  ⟨b.cause, ⟨p.advanceOver b.read, p.advanceOver (b.read ++ b.looked)⟩⟩

/-- What was looked at comes right after what was read. -/
theorem glyphs_eq (b : Break gs) : gs = b.read ++ b.looked ++ b.rest.drop b.extent := by
  rw [looked, List.append_assoc, List.cons_append, List.take_append_drop]
  exact b.glyphs

/-- Scanning breaks off at the same element if another one comes first. -/
def past {g : Glyph} {rest : List Glyph} {reading : Reading} {n : Nat}
    (he : element g rest = ⟨reading, n⟩) (hr : reading.isFault = false)
    (b : Break (rest.drop n)) : Break (g :: rest) where
  read := g :: rest.take n ++ b.read
  first := b.first
  rest := b.rest
  cause := b.cause
  extent := b.extent
  glyphs := by
    rw [List.append_assoc, ← b.glyphs, List.cons_append, List.take_append_drop]
  comes := .past he hr b.comes
  faulty := b.faulty

/-- The fault is that of the glyphs after the element that comes first. -/
theorem fault_past {g : Glyph} {rest : List Glyph} {reading : Reading} {n : Nat}
    (he : element g rest = ⟨reading, n⟩) (hr : reading.isFault = false)
    (b : Break (rest.drop n)) (p : Position) :
    (b.past he hr).fault p = b.fault (p.advanceOver (g :: rest.take n)) := by
  unfold fault
  rw [← Position.advanceOver_append, ← Position.advanceOver_append, ← List.append_assoc]
  rfl

end Break

/-- Scanning that fails breaks off at the first element that cannot be read. -/
theorem exists_break_of_scan {p : Position} {gs : List Glyph} {f : LexicalFault}
    (h : scan p gs = .error f) : ∃ b : Break gs, f = b.fault p := by
  induction p, gs using scan_induction with
  | nil p =>
    rw [scan] at h
    cases h
  | gap p g rest n he ih =>
    rw [scan_gap he] at h
    obtain ⟨b, rfl⟩ := ih h
    exact ⟨b.past he rfl, (b.fault_past he rfl p).symm⟩
  | symbol p g rest s n he ih =>
    obtain ⟨b, rfl⟩ := ih (scan_symbol_eq_error he h)
    exact ⟨b.past he rfl, (b.fault_past he rfl p).symm⟩
  | fault p g rest cause n he =>
    rw [scan_fault he] at h
    cases h
    exact ⟨⟨[], g, rest, cause, n, rfl, .here _, he⟩, rfl⟩

/-! ## Whole texts -/

/-- Nothing spells the end of a text. -/
theorem Symbol.IsSpelledBy.ne_eof {s : Symbol} {lexeme : Bytes} (h : s.IsSpelledBy lexeme) :
    s ≠ .eof := by
  rintro rfl
  exact h

/-- A whole text with tokens is made of them and of filler. -/
theorem exists_layout_of_tokenize {source : Bytes} {tokens : List Token}
    (h : tokenize source = .ok tokens) :
    ∃ l : Layout, l.text = source ∧ l.IsReadAfter [] tokens := by
  have hcut : CutsBefore [] source := rfl
  exact exists_layout_of_scan source hcut (tokenize_eq_ok.1 h)

/-- A text that can be scanned is made of its tokens and of filler. Each token is spelled
by its text, which is not empty, and carries nothing that does not belong to it; the end
comes once, after all of them. -/
theorem tokenize_lossless (source : Bytes) (tokens : List Token)
    (h : tokenize source = .ok tokens) :
    ∃ (l : Layout) (p : Position), l.text = source ∧
      tokens = l.items.map Spaced.token ++ [Token.eof p] ∧
      (∀ item ∈ l.items, item.token.symbol ≠ .eof ∧ item.token.lexeme ≠ [] ∧
        item.token.toRecord.IsSpelled) ∧
      ∀ t ∈ tokens, t.toRecord.HasOwnFieldsOnly := by
  obtain ⟨l, htext, hread⟩ := exists_layout_of_tokenize h
  refine ⟨l, _, htext, hread.tokens, ?_, fun t _ => t.hasOwnFieldsOnly⟩
  intro item hitem
  obtain ⟨hne, hspelled⟩ := hread.spelled item hitem
  exact ⟨hspelled.ne_eof, hne, item.token.isSpelled_iff.2 hspelled⟩

/-- Tokens of all sorts with a comment between two of them, nothing between the others, and
a comment that the end of the text cuts off. -/
def crowdedText : Bytes := utf8 "if/*=*/='é\"'#[a b]1.5true//;"

/-- The tokens of that text. -/
def crowdedTokens : List Token :=
  [⟨.keyword .cond, utf8 "if", ⟨1, 1⟩⟩, ⟨.operator .assign, utf8 "=", ⟨1, 8⟩⟩,
    ⟨.string (utf8 "é\""), utf8 "'é\"'", ⟨1, 9⟩⟩, ⟨.attr (utf8 "a b"), utf8 "#[a b]", ⟨1, 13⟩⟩,
    ⟨.number ⟨0x3ff8000000000000⟩, utf8 "1.5", ⟨1, 19⟩⟩, ⟨.bool true, utf8 "true", ⟨1, 22⟩⟩,
    Token.eof ⟨1, 29⟩]

theorem tokenize_lossless_crowdedText :
    tokenize crowdedText = .ok crowdedTokens ∧
      ∃ (l : Layout) (p : Position), l.text = crowdedText ∧
        crowdedTokens = l.items.map Spaced.token ++ [Token.eof p] ∧
        (∀ item ∈ l.items, item.token.symbol ≠ .eof ∧ item.token.lexeme ≠ [] ∧
          item.token.toRecord.IsSpelled) ∧
        ∀ t ∈ crowdedTokens, t.toRecord.HasOwnFieldsOnly := by
  have h : tokenize crowdedText = .ok crowdedTokens := by decide +kernel
  exact ⟨h, tokenize_lossless crowdedText crowdedTokens h⟩

/-- Tokens come one after the other, the first no earlier than the text starts. -/
theorem scan_ordered {p : Position} {gs : List Glyph} {ts : List Token}
    (h : scan p gs = .ok ts) :
    ts.Pairwise (fun t u => t.pos.Before u.pos) ∧ ∀ t ∈ ts, t.pos = p ∨ p.Before t.pos := by
  induction p, gs using scan_induction generalizing ts with
  | nil p =>
    rw [scan] at h
    cases h
    exact ⟨List.pairwise_singleton _ _, fun t ht => .inl (by rw [List.mem_singleton.1 ht]; rfl)⟩
  | gap p g rest n he ih =>
    rw [scan_gap he] at h
    obtain ⟨hpairs, hlater⟩ := ih h
    refine ⟨hpairs, fun t ht => .inr ?_⟩
    have hp := p.before_advanceOver g (rest.take n)
    rcases hlater t ht with heq | hbefore
    · rwa [heq]
    · exact hp.trans hbefore
  | symbol p g rest s n he ih =>
    obtain ⟨more, hmore, rfl⟩ := scan_symbol_eq_ok he h
    obtain ⟨hpairs, hlater⟩ := ih hmore
    have hp := p.before_advanceOver g (rest.take n)
    have hafter : ∀ t ∈ more, p.Before t.pos := by
      intro t ht
      rcases hlater t ht with heq | hbefore
      · rwa [heq]
      · exact hp.trans hbefore
    refine ⟨List.pairwise_cons.2 ⟨hafter, hpairs⟩, fun t ht => ?_⟩
    rcases List.mem_cons.1 ht with rfl | ht
    · exact .inl rfl
    · exact .inr (hafter t ht)
  | fault p g rest cause n he =>
    rw [scan_fault he] at h
    cases h

/-- Every token of a text stands at the place after the text before it, and every token
comes after the ones before it. A text without tokens breaks off at an element that cannot
be read. Its diagnostic reaches from the place where that element starts to the place after
the part of it that was looked at, which is not empty, and has the whole text. -/
theorem tokenize_places (source : Bytes) :
    (∀ tokens, tokenize source = .ok tokens →
      (∃ l : Layout, l.text = source ∧ tokens = l.tokens) ∧
        tokens.Pairwise fun t u => t.pos.Before u.pos) ∧
    ∀ d, tokenize source = .error d →
      ∃ b : Break (decode source),
        glyphBytes b.read ++ glyphBytes b.looked <+: source ∧ glyphBytes b.looked ≠ [] ∧
        d = { kind := b.cause.kind, message := b.cause.message,
              span := ⟨placeAfter (glyphBytes b.read),
                placeAfter (glyphBytes b.read ++ glyphBytes b.looked)⟩,
              source := source } := by
  constructor
  · intro tokens h
    obtain ⟨l, htext, hread⟩ := exists_layout_of_tokenize h
    refine ⟨⟨l, htext, ?_⟩, (scan_ordered (tokenize_eq_ok.1 h)).1⟩
    rw [hread.tokens, Layout.tokens, ← hread.places]
    rfl
  · intro d h
    obtain ⟨fault, hfault, rfl⟩ := tokenize_eq_error.1 h
    obtain ⟨b, rfl⟩ := exists_break_of_scan hfault
    have hparts : IsDecoded (b.read ++ b.looked ++ b.rest.drop b.extent) :=
      b.glyphs_eq ▸ isDecoded_decode source
    have hlooked := hparts.of_append.1
    have hread := hlooked.of_append.1
    have hstart : Position.start.advanceOver b.read = placeAfter (glyphBytes b.read) := by
      rw [← Position.advanceOver_decode, hread]
    have hstop : Position.start.advanceOver (b.read ++ b.looked) =
        placeAfter (glyphBytes b.read ++ glyphBytes b.looked) := by
      rw [← glyphBytes_append, ← Position.advanceOver_decode, hlooked]
    refine ⟨b, ?_, fun he => List.cons_ne_nil _ _ (eq_nil_of_glyphBytes he), ?_⟩
    · refine ⟨glyphBytes (b.rest.drop b.extent), ?_⟩
      rw [← glyphBytes_append, ← glyphBytes_append, ← b.glyphs_eq, glyphBytes_decode]
    · rw [← hstart, ← hstop]
      rfl

/-- A name, a comment over two lines, and a string literal that the text ends in. -/
def brokenText : Bytes := utf8 "é/*\n*/ 'ab"

/-- The tokens of the crowded text are where they are written, and the broken text breaks off
at the quote on its second line. -/
theorem tokenize_places_crowded_broken :
    ((∃ l : Layout, l.text = crowdedText ∧ crowdedTokens = l.tokens) ∧
      crowdedTokens.Pairwise fun t u => t.pos.Before u.pos) ∧
    ∃ b : Break (decode brokenText),
      glyphBytes b.read ++ glyphBytes b.looked <+: brokenText ∧ glyphBytes b.looked ≠ [] ∧
      b.cause.kind = .unterminatedString ∧ placeAfter (glyphBytes b.read) = ⟨2, 4⟩ ∧
      placeAfter (glyphBytes b.read ++ glyphBytes b.looked) = ⟨2, 7⟩ := by
  have htokens : tokenize crowdedText = .ok crowdedTokens := by decide +kernel
  have hbroken : tokenize brokenText =
      .error ⟨.unterminatedString, utf8 "unterminated string", ⟨⟨2, 4⟩, ⟨2, 7⟩⟩, brokenText⟩ := by
    decide +kernel
  refine ⟨(tokenize_places crowdedText).1 crowdedTokens htokens, ?_⟩
  obtain ⟨b, hprefix, hlooked, hd⟩ := (tokenize_places brokenText).2 _ hbroken
  obtain ⟨hkind, -, hspan, -⟩ := Diagnostic.mk.inj hd
  obtain ⟨hstart, hstop⟩ := Span.mk.inj hspan
  exact ⟨b, hprefix, hlooked, hkind.symm, hstart.symm, hstop.symm⟩

end ShaderFront
