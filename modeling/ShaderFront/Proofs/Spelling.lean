import ShaderFront.Proofs.Elements
import ShaderFront.Token.Record

/-!
# Tokens are spelled by their text

The text that a token was read from spells the token: a mark, an operator or a reserved
word by itself, a name by its characters, a string literal and an attribute by their
content and what encloses it, a number by digits that have its value. So the tables of
spellings agree with the way in which elements are told apart.
-/

namespace ShaderFront

/-! ## Spelled records -/

/-- The bytes that may enclose a string literal. -/
def quoteBytes : Bytes := [0x22, 0x27]

/-- The byte that starts an attribute. -/
def signByte : UInt8 := 0x23

/-- The byte before the name of a bracketed attribute. -/
def openBracketByte : UInt8 := 0x5b

/-- The byte after the name of a bracketed attribute. -/
def closeBracketByte : UInt8 := 0x5d

/-- The words that are no names. -/
def reservedWords : List Bytes :=
  utf8 "true" :: utf8 "false" :: Keyword.all.map fun k => utf8 k.spelling

namespace TokenRecord

/-- Does the text of the token spell it? Nothing spells the end of a text. -/
def IsSpelled (r : TokenRecord) : Prop :=
  match r.kind with
  | .punct _ | .keyword _ => r.lexeme = utf8 r.kind.name
  | .operator => r.lexeme = utf8 r.op.spelling
  | .bool => r.lexeme = utf8 (if r.bool then "true" else "false")
  | .number => Binary64.ofText? r.lexeme = some r.number
  | .string => ∃ quote ∈ quoteBytes, quote ∉ r.text ∧ r.lexeme = quote :: (r.text ++ [quote])
  | .ident => r.text = r.lexeme ∧ r.lexeme ∉ reservedWords
  | .attr =>
    r.lexeme = signByte :: r.text ∨
      r.lexeme = signByte :: openBracketByte :: (r.text ++ [closeBracketByte])
  | .eof | .unassigned _ => False

/-- A record that is empty in every field that does not belong to its sort. -/
structure HasOwnFieldsOnly (r : TokenRecord) : Prop where
  /-- Only an operator has an operator. -/
  op : r.kind ≠ .operator → r.op = .empty
  /-- Only a truth value has a truth value. -/
  bool : r.kind ≠ .bool → r.bool = false
  /-- Only a number has a value. -/
  number : r.kind ≠ .number → r.number = .zero
  /-- Only a string literal, a name or an attribute has a text apart from the one that it
  was read from. -/
  text : r.kind ≠ .string → r.kind ≠ .ident → r.kind ≠ .attr → r.text = []

end TokenRecord

/-- The records with no fields but their own are those that are made of tokens. Nothing else is
lost when a record is read as a token. -/
theorem TokenRecord.hasOwnFieldsOnly_iff (r : TokenRecord) :
    r.HasOwnFieldsOnly ↔ (Token.ofRecord r).toRecord = r := by
  constructor
  · rintro ⟨hop, hbool, hnumber, htext⟩
    obtain ⟨kind, op, bool, number, text, lexeme, pos⟩ := r
    cases kind <;> simp_all [Token.ofRecord, symbol, Token.toRecord, Symbol.kind]
  · intro h
    rw [← h]
    generalize Token.ofRecord r = t
    obtain ⟨s, lexeme, p⟩ := t
    cases s <;> constructor <;> simp [Token.toRecord, Symbol.kind]

/-- The record of a token has no fields but its own. -/
theorem Token.hasOwnFieldsOnly (t : Token) : t.toRecord.HasOwnFieldsOnly := by
  rw [TokenRecord.hasOwnFieldsOnly_iff, ofRecord_toRecord]

/-! ## What the first character makes of an element -/

/-- What an element can be, by its first character. -/
inductive Starts (c : Char) (rest : List Glyph) (e : Element) : Prop
  /-- A punctuation mark. -/
  | punct {p : Punct} (h : Punct.ofChar? c = some p) (he : e = ⟨.symbol (.punct p), 0⟩)
  /-- An operator other than the slash. -/
  | operator (h : operatorElement? c rest = some e)
  /-- A blank. -/
  | blank (h : isGap c = true) (he : e = ⟨.gap, 0⟩)
  /-- A comment or division sign. -/
  | slash (h : c = '/') (he : e = slashElement rest)
  /-- A string literal. -/
  | string (h : c = '"' ∨ c = '\'') (he : e = stringElement c rest)
  /-- An attribute. -/
  | attr (h : c = '#') (he : e = attributeElement rest)
  /-- A number literal. -/
  | number (h : c.isDigit = true) (he : e = numberElement c rest)
  /-- A word. -/
  | word (h : isNameStart c = true) (he : e = wordElement c rest)
  /-- Nothing that can be read. -/
  | unexpected (he : e = ⟨.fault (.unexpectedCharacter c), 0⟩)

/-- Every element is one of these. -/
theorem starts_element (c : Char) (rest : List Glyph) : Starts c rest (element (.char c) rest) := by
  unfold element
  dsimp only
  split
  · next p _ hp => exact .punct hp rfl
  · next e _ he => exact .operator he
  · split
    · next h => exact .blank h rfl
    split
    · next h => exact .slash h rfl
    split
    · next h => exact .string (by simpa using h) rfl
    split
    · next h => exact .attr h rfl
    split
    · next h => exact .number h rfl
    split
    · next h => exact .word h rfl
    · exact .unexpected rfl

/-! ## Rows of glyphs -/

/-- The longest row of a class is what a text starts with. -/
theorem take_length_takeWhile (p : Glyph → Bool) (rest : List Glyph) :
    rest.take (rest.takeWhile p).length = rest.takeWhile p :=
  (List.prefix_iff_eq_take.1 (List.takeWhile_prefix p)).symm

/-- A row of a class that ends within a text is followed by a glyph outside the class. -/
theorem eq_append_of_dropWhile {p : Glyph → Bool} {rest tail : List Glyph} {g : Glyph}
    (h : rest.dropWhile p = g :: tail) :
    p g = false ∧ rest = rest.takeWhile p ++ g :: tail := by
  constructor
  · have hhead := List.head?_dropWhile_not p rest
    rw [h] at hhead
    simpa using hhead
  · rw [← h, List.takeWhile_append_dropWhile]

/-- That glyph comes right after the row. -/
theorem take_succ_length_takeWhile {p : Glyph → Bool} {rest tail : List Glyph} {g : Glyph}
    (h : rest.dropWhile p = g :: tail) :
    rest.take ((rest.takeWhile p).length + 1) = rest.takeWhile p ++ [g] := by
  obtain ⟨-, hrest⟩ := eq_append_of_dropWhile h
  generalize rest.takeWhile p = row at hrest
  rw [hrest, List.take_length_add_append, List.take_succ_cons, List.take_zero]

/-- No glyph of the longest row of others is the one that ends it. -/
theorem notMem_takeWhile_ne (g : Glyph) (rest : List Glyph) : g ∉ rest.takeWhile (· ≠ g) := by
  intro hg
  have hne := List.all_eq_true.1 List.all_takeWhile g hg
  simp at hne

/-! ## Spelled elements -/

/-- Does the text spell the symbol? -/
def Symbol.IsSpelledBy (s : Symbol) (lexeme : Bytes) : Prop :=
  (⟨s, lexeme, .none⟩ : Token).toRecord.IsSpelled

/-- Where a token stands has no part in its spelling. -/
theorem Token.isSpelled_iff (t : Token) :
    t.toRecord.IsSpelled ↔ t.symbol.IsSpelledBy t.lexeme := by
  obtain ⟨s, lexeme, p⟩ := t
  cases s <;> exact Iff.rfl

/-- A mark is spelled by its character. -/
theorem punct_isSpelledBy {c : Char} {p : Punct} (h : Punct.ofChar? c = some p) :
    (Symbol.punct p).IsSpelledBy (glyphBytes [.char c]) := by
  have hc : p.char = c := by simpa using List.find?_some h
  subst hc
  cases p <;> rfl

/-- An operator that may be longer is read with its second character or without it. -/
theorem longerIf_eq_symbol {rest : List Glyph} {next : Char} {long short : Reading} {s : Symbol}
    {n : Nat} (h : longerIf rest next long short = ⟨.symbol s, n⟩) :
    rest.take n = [.char next] ∧ long = .symbol s ∨ rest.take n = [] ∧ short = .symbol s := by
  unfold longerIf at h
  split at h
  · next hnext =>
    cases h
    cases rest with
    | nil => cases hnext
    | cons g rest =>
      cases hnext
      exact .inl ⟨rfl, rfl⟩
  · cases h
    exact .inr ⟨rfl, rfl⟩

/-- An operator other than the slash is spelled by its characters. -/
theorem operatorElement?_isSpelledBy {c : Char} {rest : List Glyph} {s : Symbol} {n : Nat}
    (h : operatorElement? c rest = some ⟨.symbol s, n⟩) :
    s.IsSpelledBy (glyphBytes (.char c :: rest.take n)) := by
  unfold operatorElement? at h
  split at h
  case h_1 | h_2 | h_3 | h_4 =>
    rcases longerIf_eq_symbol (Option.some.inj h) with ⟨htake, hs⟩ | ⟨htake, hs⟩
    · cases hs
      rw [htake]
      exact rfl
    · cases hs
      rw [htake]
      exact rfl
  case h_5 | h_6 =>
    rcases longerIf_eq_symbol (Option.some.inj h) with ⟨htake, hs⟩ | ⟨_, hs⟩
    · cases hs
      rw [htake]
      exact rfl
    · cases hs
  case h_7 | h_8 | h_9 | h_10 =>
    cases h
    rw [List.take_zero]
    exact rfl
  case h_11 => cases h

/-- A slash that is a token is spelled by itself. -/
theorem slashElement_isSpelledBy {rest : List Glyph} {s : Symbol} {n : Nat}
    (h : slashElement rest = ⟨.symbol s, n⟩) :
    s.IsSpelledBy (glyphBytes (.char '/' :: rest.take n)) := by
  unfold slashElement at h
  split at h
  · cases h
  · split at h <;> cases h
  · cases h
    rw [List.take_zero]
    exact rfl

/-- A string literal is spelled by its text between two quotes. -/
theorem stringElement_isSpelledBy {quote : Char} (hq : quote = '"' ∨ quote = '\'')
    {rest : List Glyph} (hd : IsDecoded rest) {s : Symbol} {n : Nat}
    (h : stringElement quote rest = ⟨.symbol s, n⟩) :
    s.IsSpelledBy (glyphBytes (.char quote :: rest.take n)) := by
  unfold stringElement at h
  split at h
  · cases h
  · next g tail hdrop =>
    cases h
    obtain ⟨hg, hrest⟩ := eq_append_of_dropWhile hdrop
    obtain rfl : g = .char quote := by simpa using hg
    have hbody : IsDecoded (rest.takeWhile (· ≠ .char quote)) := by
      rw [hrest] at hd
      exact hd.of_append.1
    have hfree := notMem_takeWhile_ne (.char quote) rest
    rw [take_succ_length_takeWhile hdrop]
    generalize rest.takeWhile (· ≠ .char quote) = body at hbody hfree
    rcases hq with rfl | rfl
    · refine ⟨0x22, by decide, notMem_glyphBytes hbody (by decide) hfree, ?_⟩
      rw [glyphBytes_cons, glyphBytes_append]
      rfl
    · refine ⟨0x27, by decide, notMem_glyphBytes hbody (by decide) hfree, ?_⟩
      rw [glyphBytes_cons, glyphBytes_append]
      rfl

/-- An attribute is spelled by its name after a number sign, in brackets or not. -/
theorem attributeElement_isSpelledBy {rest : List Glyph} {s : Symbol} {n : Nat}
    (h : attributeElement rest = ⟨.symbol s, n⟩) :
    s.IsSpelledBy (glyphBytes (.char '#' :: rest.take n)) := by
  unfold attributeElement at h
  split at h
  · next name =>
    unfold bracketedAttribute at h
    split at h
    · cases h
    · next g tail hdrop =>
      dsimp only at h
      split at h
      · cases h
      · cases h
        obtain ⟨hg, -⟩ := eq_append_of_dropWhile hdrop
        obtain rfl : g = .char ']' := by simpa using hg
        rw [List.take_succ_cons, take_succ_length_takeWhile hdrop, glyphBytes_cons,
          glyphBytes_cons, glyphBytes_append]
        exact .inr rfl
  · dsimp only at h
    split at h
    · cases h
    · cases h
      rw [take_length_takeWhile, glyphBytes_cons]
      exact .inl rfl

/-- A number is spelled by digits and points that have its value. -/
theorem numberElement_isSpelledBy {first : Char} {rest : List Glyph} {s : Symbol} {n : Nat}
    (h : numberElement first rest = ⟨.symbol s, n⟩) :
    s.IsSpelledBy (glyphBytes (.char first :: rest.take n)) := by
  unfold numberElement at h
  dsimp only at h
  split at h
  · next value hvalue =>
    cases h
    rw [take_length_takeWhile]
    exact hvalue
  · cases h

/-- A text that no reserved word is spelled by is none of them. -/
theorem notMem_reservedWords {word : Bytes} (htrue : word ≠ utf8 "true")
    (hfalse : word ≠ utf8 "false") (hkeyword : Keyword.ofText? word = none) :
    word ∉ reservedWords := by
  intro hm
  rcases List.mem_cons.1 hm with h | hm
  · exact htrue h
  · rcases List.mem_cons.1 hm with h | hm
    · exact hfalse h
    · obtain ⟨k, hk, he⟩ := List.mem_map.1 hm
      have hne := List.find?_eq_none.1 hkeyword k hk
      exact hne (decide_eq_true he)

/-- A word is spelled by its characters. -/
theorem wordSymbol_isSpelledBy (word : Bytes) : (wordSymbol word).IsSpelledBy word := by
  unfold wordSymbol
  split
  · next h => exact h
  · next htrue =>
    split
    · next h => exact h
    · next hfalse =>
      split
      · next k hk =>
        have hspelling : utf8 k.spelling = word := by simpa using List.find?_some hk
        exact hspelling.symm
      · next hk => exact ⟨rfl, notMem_reservedWords htrue hfalse hk⟩

/-- The text of an element that is read as a token spells the token. -/
theorem element_isSpelledBy {g : Glyph} {rest : List Glyph} (hd : IsDecoded (g :: rest))
    {s : Symbol} {n : Nat} (h : element g rest = ⟨.symbol s, n⟩) :
    s.IsSpelledBy (glyphBytes (g :: rest.take n)) := by
  cases g with
  | stray b => cases h
  | char c =>
    have hrest : IsDecoded rest := hd.tail
    have hstarts := starts_element c rest
    rw [h] at hstarts
    cases hstarts with
    | punct hp he =>
      cases he
      exact punct_isSpelledBy hp
    | operator ho => exact operatorElement?_isSpelledBy ho
    | blank _ he => cases he
    | slash hc he =>
      subst hc
      exact slashElement_isSpelledBy he.symm
    | string hc he => exact stringElement_isSpelledBy hc hrest he.symm
    | attr hc he =>
      subst hc
      exact attributeElement_isSpelledBy he.symm
    | number _ he => exact numberElement_isSpelledBy he.symm
    | word _ he =>
      cases he
      rw [take_length_takeWhile]
      exact wordSymbol_isSpelledBy _
    | unexpected he => cases he

end ShaderFront
