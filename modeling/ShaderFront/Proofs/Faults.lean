import ShaderFront.Proofs.LongestMatch
import ShaderFront.Proofs.Lines

/-!
# Faults are told by the text they start with

Scanning that fails has read all that comes before the faulty element, and the text from
there on shows what the fault is: each kind belongs to texts of one form, and no text has
the forms of two kinds. The other way round, a text of such a form is faulty in this way
wherever an element can start, as at the start of a line.
-/

namespace ShaderFront

/-! ## Forms of faulty texts -/

/-- May this byte stand in a number literal? -/
def inNumber (b : UInt8) : Bool :=
  Numeral.isDigit b || b = 0x2e

/-- The bytes that are operators only when doubled. -/
def doubledBytes : Bytes := [0x26, 0x7c]

/-- The characters that start operators, the slash apart. -/
def operatorChars : List Char := ['=', '!', '<', '>', '&', '|', '+', '-', '*', '%']

/-- The characters that start elements other than blanks, numbers and words: marks, operators,
comments, string literals and attributes. -/
def startChars : List Char :=
  Punct.all.map Punct.char ++ operatorChars ++ ['/', '"', '\'', '#']

/-- Does this glyph start an element? -/
def Glyph.startsElement : Glyph → Bool
  | .char c => startChars.contains c || isGap c || c.isDigit || isNameStart c
  | .stray _ => false

/-- Is this the form of a text that starts with a fault of the given kind? -/
def ErrorKind.Opens (kind : ErrorKind) (s : Bytes) : Prop :=
  match kind with
  | .malformedNumber =>
    (∃ b ∈ s.head?, Numeral.isDigit b = true) ∧ Binary64.ofText? (s.takeWhile inNumber) = none
  | .unterminatedString => ∃ quote ∈ quoteBytes, ∃ rest, s = quote :: rest ∧ quote ∉ rest
  | .unterminatedComment =>
    ∃ rest, s = slashByte :: starByte :: rest ∧ ¬ [starByte, slashByte] <:+: rest
  | .unterminatedAttribute =>
    ∃ rest, s = signByte :: openBracketByte :: rest ∧ closeBracketByte ∉ rest
  | .unknownOperator => ∃ half ∈ doubledBytes, ∃ rest, s = half :: rest ∧ rest.head? ≠ some half
  | .unexpectedCharacter =>
    [signByte, openBracketByte, closeBracketByte] <+: s ∨
      (∃ rest, s = signByte :: rest ∧ rest.head? ≠ some openBracketByte ∧
        ∀ g ∈ (decode rest).head?, g.inName = false) ∨
      ∃ g ∈ (decode s).head?, g.startsElement = false
  | _ => False

/-! ## Bytes and glyphs -/

/-- A row of bytes below `0x80` is spelled by its characters. -/
theorem glyphBytes_asciiRow {bs : Bytes} (hbs : ∀ b ∈ bs, b < 0x80) :
    glyphBytes (bs.map asciiGlyph) = bs := by
  have hdecode := decode_asciiRow hbs []
  rw [List.append_nil, decode, List.append_nil] at hdecode
  rw [← hdecode, glyphBytes_decode]

/-- All bytes of a row are below `0x80` if a look at each of them says so. -/
theorem forall_lt_of_all {bs : Bytes} (h : bs.all (· < 0x80) = true) : ∀ b ∈ bs, b < 0x80 := by
  intro b hb
  exact of_decide_eq_true (List.all_eq_true.mp h b hb)

/-- A row of bytes below `0x80` is in a text if its characters are. -/
theorem isInfix_glyphBytes_iff {gs : List Glyph} (h : IsDecoded gs) {bs : Bytes}
    (hbs : ∀ b ∈ bs, b < 0x80) : bs <:+: glyphBytes gs ↔ bs.map asciiGlyph <:+: gs := by
  constructor
  · exact isInfix_of_isInfix_glyphBytes h hbs
  · intro hi
    rw [← h] at hi
    have hbytes := glyphBytes_isInfix_of hi
    rwa [glyphBytes_asciiRow hbs] at hbytes

/-- A byte below `0x80` is in a text if its character is. -/
theorem mem_glyphBytes_iff {gs : List Glyph} (h : IsDecoded gs) {b : UInt8} (hb : b < 0x80) :
    b ∈ glyphBytes gs ↔ asciiGlyph b ∈ gs := by
  constructor
  · intro hm
    by_contra hg
    exact notMem_glyphBytes h hb hg hm
  · intro hg
    refine List.mem_flatMap.2 ⟨asciiGlyph b, hg, ?_⟩
    rw [asciiGlyph, Glyph.bytes, encode_ascii hb]
    exact List.mem_singleton.2 rfl

/-- A text starts with a byte below `0x80` if it starts with its character. -/
theorem head?_glyphBytes_iff {gs : List Glyph} (h : IsDecoded gs) {b : UInt8} (hb : b < 0x80) :
    (glyphBytes gs).head? = some b ↔ gs.head? = some (asciiGlyph b) := by
  constructor
  · intro hhead
    obtain ⟨tail, htail⟩ := List.head?_eq_some_iff.1 hhead
    rw [← h, htail, decode_ascii hb]
    rfl
  · intro hhead
    obtain ⟨tail, rfl⟩ := List.head?_eq_some_iff.1 hhead
    rw [glyphBytes_cons, asciiGlyph, Glyph.bytes, encode_ascii hb]
    rfl

/-- A byte of a number is a character. -/
theorem ascii_of_inNumber {b : UInt8} (h : inNumber b = true) : b < 0x80 := by
  unfold inNumber Numeral.isDigit at h
  simp only [Bool.or_eq_true, Bool.and_eq_true, decide_eq_true_eq] at h
  rcases h with ⟨-, h⟩ | rfl
  · exact UInt8.lt_of_le_of_lt h (by decide)
  · decide

/-- What holds of every number below 128 holds of every byte below `0x80`. -/
theorem forall_ascii {P : UInt8 → Prop} (h : ∀ n : Fin 128, P (UInt8.ofNat n)) {b : UInt8}
    (hb : b < 0x80) : P b := by
  have hn := h ⟨b.toNat, hb⟩
  rwa [UInt8.ofNat_toNat] at hn

/-- A byte below `0x80` is a digit if its character is. -/
theorem isDigit_ascii {b : UInt8} (hb : b < 0x80) :
    (Char.ofNat b.toNat).isDigit = Numeral.isDigit b :=
  forall_ascii (P := fun b => (Char.ofNat b.toNat).isDigit = Numeral.isDigit b) (by decide) hb

/-- A byte below `0x80` may stand in a number if its character may. -/
theorem inNumber_asciiGlyph {b : UInt8} (hb : b < 0x80) : (asciiGlyph b).inNumber = inNumber b :=
  forall_ascii (P := fun b => (asciiGlyph b).inNumber = inNumber b) (by decide) hb

/-- A glyph of a number is a byte below `0x80`. -/
theorem exists_ascii_of_inNumber {g : Glyph} (h : g.inNumber = true) :
    ∃ b, b < 0x80 ∧ g = asciiGlyph b := by
  cases g with
  | stray b => cases h
  | char c =>
    have hlt : c.toNat < 128 := by
      simp only [Glyph.inNumber, Bool.or_eq_true, decide_eq_true_eq] at h
      rcases h with hdigit | rfl
      · have hle : c.toNat ≤ 57 := by
          simp only [Char.isDigit, Bool.and_eq_true, decide_eq_true_eq] at hdigit
          exact hdigit.2
        omega
      · decide
    have hbyte : (UInt8.ofNat c.toNat).toNat = c.toNat := by
      rw [UInt8.toNat_ofNat']
      omega
    refine ⟨UInt8.ofNat c.toNat, ?_, ?_⟩
    · rw [UInt8.lt_iff_toNat_lt, hbyte]
      exact hlt
    · rw [asciiGlyph, hbyte, Char.ofNat_toNat]

/-- The longest row of digits and points is the same in bytes and in glyphs. -/
theorem takeWhile_inNumber {gs : List Glyph} (h : IsDecoded gs) :
    (glyphBytes gs).takeWhile inNumber = glyphBytes (gs.takeWhile Glyph.inNumber) := by
  induction gs with
  | nil => rfl
  | cons g gs ih =>
    rw [glyphBytes_cons]
    by_cases hg : g.inNumber = true
    · obtain ⟨b, hb, rfl⟩ := exists_ascii_of_inNumber hg
      have hbytes : (asciiGlyph b).bytes = [b] := encode_ascii hb
      have hrow : inNumber b = true := inNumber_asciiGlyph hb ▸ hg
      rw [List.takeWhile_cons_of_pos hg, glyphBytes_cons, hbytes, List.singleton_append,
        List.takeWhile_cons_of_pos hrow, ih h.tail, List.singleton_append]
    · obtain ⟨b, tail, hbytes⟩ := List.exists_cons_of_ne_nil g.bytes_ne_nil
      have hrow : ¬ inNumber b = true := by
        intro hb
        have hascii := ascii_of_inNumber hb
        have hsingle : IsDecoded [g] := (@IsDecoded.of_append [g] gs h).1
        have hmem : b ∈ glyphBytes [g] := by
          rw [glyphBytes_cons, hbytes]
          exact List.mem_cons_self
        have hglyph := (mem_glyphBytes_iff hsingle hascii).1 hmem
        rw [← List.mem_singleton.1 hglyph, inNumber_asciiGlyph hascii] at hg
        exact hg hb
      rw [List.takeWhile_cons_of_neg hg, hbytes, List.cons_append,
        List.takeWhile_cons_of_neg hrow]
      rfl

/-! ## Elements that cannot be read -/

section Fault

variable {c : Char} {rest : List Glyph} {cause : LexicalCause} {n : Nat}

/-- Where one of two readings is a fault, the other character does not follow. -/
theorem longerIf_eq_fault {next : Char} {s : Symbol} {short : Reading}
    (h : longerIf rest next (.symbol s) short = ⟨.fault cause, n⟩) :
    short = .fault cause ∧ rest.head? ≠ some (.char next) := by
  unfold longerIf at h
  split at h
  · cases h
  · next hhead => exact ⟨(Element.mk.inj h).1, hhead⟩

/-- An operator that cannot be read is half of one. -/
theorem operatorElement?_eq_fault (h : operatorElement? c rest = some ⟨.fault cause, n⟩) :
    (c = '&' ∨ c = '|') ∧ cause = .halfOperator c ∧ rest.head? ≠ some (.char c) := by
  unfold operatorElement? at h
  split at h
  case h_1 | h_2 | h_3 | h_4 => cases (longerIf_eq_fault (Option.some.inj h)).1
  case h_5 =>
    obtain ⟨hcause, hhead⟩ := longerIf_eq_fault (Option.some.inj h)
    cases hcause
    exact ⟨.inl rfl, rfl, hhead⟩
  case h_6 =>
    obtain ⟨hcause, hhead⟩ := longerIf_eq_fault (Option.some.inj h)
    cases hcause
    exact ⟨.inr rfl, rfl, hhead⟩
  case h_7 | h_8 | h_9 | h_10 | h_11 => cases h

/-- A comment between marks has no end if there is no closing mark. -/
theorem commentEnd?_eq_none_iff {gs : List Glyph} :
    commentEnd? gs = none ↔ ¬ [.char '*', .char '/'] <:+: gs := by
  induction gs with
  | nil => simp [commentEnd?]
  | cons g gs ih =>
    have hprefix : [.char '*', .char '/'] <+: g :: gs ↔
        (g = .char '*' && gs.head? = some (.char '/')) = true := by
      simp only [Bool.and_eq_true, decide_eq_true_eq]
      constructor
      · intro h
        obtain ⟨hg, tail, rfl⟩ := List.cons_prefix_cons.1 h
        exact ⟨hg.symm, rfl⟩
      · rintro ⟨rfl, hhead⟩
        obtain ⟨tail, rfl⟩ := List.head?_eq_some_iff.1 hhead
        exact ⟨tail, rfl⟩
    rw [commentEnd?, List.infix_cons_iff, hprefix, not_or, ← ih]
    split
    case isTrue hend => simp [hend]
    case isFalse hend => simp [hend]

/-- A comment that cannot be read has no end. -/
theorem slashElement_eq_fault (h : slashElement rest = ⟨.fault cause, n⟩) :
    cause = .unterminatedComment ∧
      ∃ comment, rest = .char '*' :: comment ∧ commentEnd? comment = none := by
  fun_cases slashElement rest with
  | case1 comment => cases h
  | case2 comment m hend =>
    rw [slashElement, hend] at h
    cases h
  | case3 comment hend =>
    rw [slashElement, hend] at h
    cases h
    exact ⟨rfl, comment, rfl, hend⟩
  | case4 rest hline hblock =>
    rw [slashElement.eq_3 rest hline hblock] at h
    cases h

/-- A search that finds nothing goes over glyphs other than the one that is searched for. -/
theorem notMem_of_dropWhile {g : Glyph} (h : rest.dropWhile (· ≠ g) = []) : g ∉ rest := by
  have hall := List.takeWhile_append_dropWhile (p := (· ≠ g)) (l := rest)
  rw [h, List.append_nil] at hall
  rw [← hall]
  exact notMem_takeWhile_ne g rest

/-- A string literal that cannot be read has no other quote. -/
theorem stringElement_eq_fault (h : stringElement c rest = ⟨.fault cause, n⟩) :
    cause = .unterminatedString ∧ .char c ∉ rest := by
  unfold stringElement at h
  split at h
  · next hdrop =>
    cases h
    exact ⟨rfl, notMem_of_dropWhile hdrop⟩
  · cases h

/-- An attribute that cannot be read has no name or no closing bracket. -/
theorem attributeElement_eq_fault (h : attributeElement rest = ⟨.fault cause, n⟩) :
    (cause = .unterminatedAttribute ∧ ∃ name, rest = .char '[' :: name ∧ .char ']' ∉ name) ∨
      (cause = .emptyAttributeName ∧ ∃ more, rest = .char '[' :: .char ']' :: more) ∨
      cause = .missingAttributeName ∧ rest.head? ≠ some (.char '[') ∧
        ∀ g ∈ rest.head?, g.inName = false := by
  by_cases hhead : rest.head? = some (.char '[')
  · obtain ⟨name, rfl⟩ := List.head?_eq_some_iff.1 hhead
    rw [attributeElement] at h
    unfold bracketedAttribute at h
    split at h
    · next hdrop =>
      cases h
      exact .inl ⟨rfl, name, rfl, notMem_of_dropWhile hdrop⟩
    · next g tail hdrop =>
      dsimp only at h
      split at h
      · next hempty =>
        cases h
        obtain ⟨hg, hrow⟩ := eq_append_of_dropWhile hdrop
        obtain rfl : g = .char ']' := by simpa using hg
        rw [List.isEmpty_iff.1 hempty, List.nil_append] at hrow
        exact .inr (.inl ⟨rfl, tail, by rw [hrow]⟩)
      · cases h
  · rw [attributeElement_of_head? hhead] at h
    split at h
    · next hempty =>
      cases h
      refine .inr (.inr ⟨rfl, hhead, fun g hg => ?_⟩)
      obtain ⟨tail, rfl⟩ := List.head?_eq_some_iff.1 hg
      cases hname : g.inName with
      | false => rfl
      | true =>
        rw [List.takeWhile_cons_of_pos hname] at hempty
        cases hempty
    · cases h

/-- A number that cannot be read is a row of digits and points without a value. -/
theorem numberElement_eq_fault (h : numberElement c rest = ⟨.fault cause, n⟩) :
    ∃ text, cause = .malformedNumber text ∧
      Binary64.ofText? (glyphBytes (.char c :: rest.takeWhile Glyph.inNumber)) = none := by
  unfold numberElement at h
  dsimp only at h
  split at h
  · cases h
  · next hnone =>
    cases h
    exact ⟨_, rfl, hnone⟩

/-- A character that is no mark is read as none. -/
theorem ofChar?_eq_none_iff : Punct.ofChar? c = none ↔ c ∉ Punct.all.map Punct.char := by
  constructor
  · intro h hc
    obtain ⟨p, hp, rfl⟩ := List.mem_map.1 hc
    exact List.find?_eq_none.1 h p hp (decide_eq_true rfl)
  · intro hc
    refine List.find?_eq_none.2 fun p hp h => hc ?_
    exact List.mem_map.2 ⟨p, hp, of_decide_eq_true h⟩

/-- A character that starts no operator is read as none. -/
theorem operatorElement?_eq_none_iff : operatorElement? c rest = none ↔ c ∉ operatorChars := by
  constructor
  · intro h hc
    simp only [operatorChars, List.mem_cons, List.not_mem_nil, or_false] at hc
    rcases hc with rfl | rfl | rfl | rfl | rfl | rfl | rfl | rfl | rfl | rfl <;> cases h
  · intro hc
    simp only [operatorChars, List.mem_cons, List.not_mem_nil, or_false, not_or] at hc
    simp [operatorElement?, hc]

/-- A character that starts no other element starts a blank, a number, a word or nothing. -/
theorem element_of_notMem (h : c ∉ startChars) (rest : List Glyph) :
    element (.char c) rest =
      if isGap c then ⟨.gap, 0⟩
      else if c.isDigit then numberElement c rest
      else if isNameStart c then wordElement c rest
      else ⟨.fault (.unexpectedCharacter c), 0⟩ := by
  simp only [startChars, List.mem_append, not_or] at h
  obtain ⟨⟨hpunct, hoperator⟩, hother⟩ := h
  simp only [List.mem_cons, List.not_mem_nil, or_false, not_or] at hother
  simp [element, ofChar?_eq_none_iff.2 hpunct, operatorElement?_eq_none_iff.2 hoperator, hother]

/-- A character that is not expected starts no element. -/
theorem startsElement_of_unexpected {d : Char}
    (h : element (.char c) rest = ⟨.fault (.unexpectedCharacter d), n⟩) :
    (Glyph.char c).startsElement = false := by
  unfold element at h
  dsimp only at h
  split at h
  · cases h
  · next hoperator =>
    rw [h] at hoperator
    cases (operatorElement?_eq_fault hoperator).2.1
  · next hpunct hoperator =>
    split at h
    · cases h
    next hgap =>
    split at h
    · cases (slashElement_eq_fault h).1
    next hslash =>
    split at h
    · cases (stringElement_eq_fault h).1
    next hquote =>
    split at h
    · rcases attributeElement_eq_fault h with ⟨hcause, -⟩ | ⟨hcause, -⟩ | ⟨hcause, -⟩ <;>
        cases hcause
    next hsign =>
    split at h
    · obtain ⟨text, hcause, -⟩ := numberElement_eq_fault h
      cases hcause
    next hdigit =>
    split at h
    · cases h
    next hname =>
    have hother : c ∉ ['/', '"', '\'', '#'] := by simp_all
    have hmark : c ∉ startChars := by
      simp only [startChars, List.mem_append, not_or]
      exact ⟨⟨ofChar?_eq_none_iff.1 hpunct, operatorElement?_eq_none_iff.1 hoperator⟩, hother⟩
    simp [Glyph.startsElement, hmark, hgap, hdigit, hname]

end Fault

/-! ## Faults and forms -/

/-- The text from an element that cannot be read has the form of its fault. -/
theorem opens_of_fault {g : Glyph} {rest : List Glyph} (hd : IsDecoded (g :: rest))
    {cause : LexicalCause} {n : Nat} (h : element g rest = ⟨.fault cause, n⟩) :
    cause.kind.Opens (glyphBytes (g :: rest)) := by
  have hfirst : g ∈ (decode (glyphBytes (g :: rest))).head? := by
    rw [hd]
    rfl
  cases g with
  | stray b =>
    cases h
    exact .inr (.inr ⟨_, hfirst, rfl⟩)
  | char c =>
    have hrest : IsDecoded rest := hd.tail
    have hstarts := starts_element c rest
    rw [h] at hstarts
    cases hstarts with
    | punct hp he => cases he
    | operator ho =>
      obtain ⟨hc, rfl, hhead⟩ := operatorElement?_eq_fault ho
      rcases hc with rfl | rfl
      · exact ⟨0x26, by decide, glyphBytes rest, rfl, fun hb =>
          hhead ((head?_glyphBytes_iff hrest (by decide)).1 hb)⟩
      · exact ⟨0x7c, by decide, glyphBytes rest, rfl, fun hb =>
          hhead ((head?_glyphBytes_iff hrest (by decide)).1 hb)⟩
    | blank _ he => cases he
    | slash hc he =>
      subst hc
      obtain ⟨rfl, comment, rfl, hend⟩ := slashElement_eq_fault he.symm
      refine ⟨glyphBytes comment, rfl, fun hi => ?_⟩
      have hglyphs := (isInfix_glyphBytes_iff hrest.tail (forall_lt_of_all rfl)).1 hi
      exact commentEnd?_eq_none_iff.1 hend hglyphs
    | string hc he =>
      obtain ⟨rfl, hfree⟩ := stringElement_eq_fault he.symm
      rcases hc with rfl | rfl
      · exact ⟨0x22, by decide, glyphBytes rest, rfl, notMem_glyphBytes hrest (by decide) hfree⟩
      · exact ⟨0x27, by decide, glyphBytes rest, rfl, notMem_glyphBytes hrest (by decide) hfree⟩
    | attr hc he =>
      subst hc
      rcases attributeElement_eq_fault he.symm with
        ⟨rfl, name, rfl, hfree⟩ | ⟨rfl, more, rfl⟩ | ⟨rfl, hhead, hname⟩
      · exact ⟨glyphBytes name, rfl, notMem_glyphBytes hrest.tail (by decide) hfree⟩
      · exact .inl ⟨glyphBytes more, rfl⟩
      · refine .inr (.inl ⟨glyphBytes rest, rfl, fun hb => ?_, ?_⟩)
        · exact hhead ((head?_glyphBytes_iff hrest (by decide)).1 hb)
        · rw [hrest]
          exact hname
    | number hc he =>
      obtain ⟨text, rfl, hnone⟩ := numberElement_eq_fault he.symm
      have hin : (Glyph.char c).inNumber = true := by simp [Glyph.inNumber, hc]
      refine ⟨?_, ?_⟩
      · obtain ⟨b, hb, hchar⟩ := exists_ascii_of_inNumber hin
        obtain rfl := Glyph.char.inj hchar
        refine ⟨b, (head?_glyphBytes_iff hd hb).2 rfl, ?_⟩
        rw [← isDigit_ascii hb, hc]
      · rw [takeWhile_inNumber hd, List.takeWhile_cons_of_pos hin, hnone]
    | word _ he => cases he
    | unexpected he =>
      cases he
      exact .inr (.inr ⟨_, hfirst, startsElement_of_unexpected h⟩)

/-- Digits start numbers. -/
theorem element_digit {c : Char} (h : c.isDigit = true) (rest : List Glyph) :
    element (.char c) rest = numberElement c rest := by
  have hmark : c ∉ startChars := by
    intro hc
    have hnone : startChars.all (fun d => !d.isDigit) = true := by decide
    have hno := List.all_eq_true.mp hnone c hc
    rw [h] at hno
    cases hno
  have hgap : isGap c = false := by
    cases hgap : isGap c with
    | false => rfl
    | true => rcases eq_of_isGap hgap with rfl | rfl | rfl | rfl <;> cases h
  rw [element_of_notMem hmark, if_neg (by simp [hgap]), if_pos h]

/-- A search for a glyph that is not there goes over all glyphs. -/
theorem dropWhile_of_notMem {g : Glyph} {rest : List Glyph} (h : g ∉ rest) :
    rest.dropWhile (· ≠ g) = [] := by
  have hall : ∀ g' ∈ rest, decide (g' ≠ g) = true := by
    intro g' hg'
    have hne : g' ≠ g := fun he => h (he ▸ hg')
    exact decide_eq_true hne
  have hdrop : (rest ++ []).dropWhile (· ≠ g) = [] := List.dropWhile_append_of_pos hall
  rwa [List.append_nil] at hdrop

/-- Digits and points without a value cannot be read. -/
theorem element_of_malformed {c : Char} (h : c.isDigit = true) {rest : List Glyph}
    (hnone : Binary64.ofText? (glyphBytes (.char c :: rest.takeWhile Glyph.inNumber)) = none) :
    element (.char c) rest =
      ⟨.fault (.malformedNumber (glyphBytes (.char c :: rest.takeWhile Glyph.inNumber))),
        (rest.takeWhile Glyph.inNumber).length⟩ := by
  rw [element_digit h]
  unfold numberElement
  simp only [hnone]

/-- A quote without another one cannot be read. -/
theorem element_of_lone_quote {quote : Char} (hquote : quote = '"' ∨ quote = '\'')
    {rest : List Glyph} (h : .char quote ∉ rest) :
    element (.char quote) rest = ⟨.fault .unterminatedString, rest.length⟩ := by
  have hstring : element (.char quote) rest = stringElement quote rest := by
    rcases hquote with rfl | rfl <;> rfl
  rw [hstring]
  unfold stringElement
  simp only [dropWhile_of_notMem h]

/-- A comment without its closing mark cannot be read. -/
theorem element_of_lone_mark {comment : List Glyph} (h : commentEnd? comment = none) :
    element (.char '/') (.char '*' :: comment) =
      ⟨.fault .unterminatedComment, (.char '*' :: comment).length⟩ := by
  rw [element_slash, slashElement, h]

/-- An attribute without its closing bracket cannot be read. -/
theorem element_of_lone_bracket {name : List Glyph} (h : .char ']' ∉ name) :
    element (.char '#') (.char '[' :: name) =
      ⟨.fault .unterminatedAttribute, 1 + name.length⟩ := by
  have hattr : element (.char '#') (.char '[' :: name) = bracketedAttribute name := rfl
  rw [hattr]
  unfold bracketedAttribute
  simp only [dropWhile_of_notMem h]

/-- A number sign without a name after it cannot be read. -/
theorem element_of_lone_sign {rest : List Glyph} (hhead : rest.head? ≠ some (.char '['))
    (hname : ∀ g ∈ rest.head?, g.inName = false) :
    element (.char '#') rest = ⟨.fault .missingAttributeName, 0⟩ := by
  have hattr : element (.char '#') rest = attributeElement rest := rfl
  have hnone : rest.takeWhile Glyph.inName = [] := by
    cases rest with
    | nil => rfl
    | cons g rest => exact List.takeWhile_cons_of_neg (by simp [hname g rfl])
  rw [hattr, attributeElement_of_head? hhead, hnone]
  rfl

/-- A character that starts no element is not expected. -/
theorem element_of_not_startsElement {g : Glyph} (h : g.startsElement = false)
    (rest : List Glyph) : element g rest = ⟨.fault (.unexpectedCharacter g.shown), 0⟩ := by
  cases g with
  | stray b => rfl
  | char c =>
    simp only [Glyph.startsElement, Bool.or_eq_false_iff] at h
    obtain ⟨⟨⟨hmark, hgap⟩, hdigit⟩, hname⟩ := h
    rw [element_of_notMem (by simpa using hmark)]
    simp [hgap, hdigit, hname, Glyph.shown]

/-- A byte below `0x80` that is not in a text is none of its characters. -/
theorem asciiGlyph_notMem_decode {b : UInt8} (hb : b < 0x80) {s : Bytes} (h : b ∉ s) :
    asciiGlyph b ∉ decode s := by
  rwa [← mem_glyphBytes_iff (isDecoded_decode s) hb, glyphBytes_decode]

/-- A text that does not start with a byte below `0x80` does not start with its character. -/
theorem head?_decode_ne {b : UInt8} (hb : b < 0x80) {s : Bytes} (h : s.head? ≠ some b) :
    (decode s).head? ≠ some (asciiGlyph b) := by
  rwa [ne_eq, ← head?_glyphBytes_iff (isDecoded_decode s) hb, glyphBytes_decode]

/-- A text of the form of a fault starts with an element that has this fault. -/
theorem exists_fault_of_opens {kind : ErrorKind} {s : Bytes} (h : kind.Opens s) :
    ∃ g rest cause n, decode s = g :: rest ∧ element g rest = ⟨.fault cause, n⟩ ∧
      cause.kind = kind := by
  cases kind with
  | malformedNumber =>
    obtain ⟨⟨b, hb, hdigit⟩, hnone⟩ := h
    obtain ⟨rest, rfl⟩ := List.head?_eq_some_iff.1 hb
    have hin : inNumber b = true := by simp [inNumber, hdigit]
    have hascii := ascii_of_inNumber hin
    have hd := decode_ascii hascii rest
    have hdigit' : (Char.ofNat b.toNat).isDigit = true := by rw [isDigit_ascii hascii, hdigit]
    have hglyph : (Glyph.char (Char.ofNat b.toNat)).inNumber = true := by
      simp [Glyph.inNumber, hdigit']
    have hrow := takeWhile_inNumber (isDecoded_decode (b :: rest))
    rw [glyphBytes_decode, hd, List.takeWhile_cons_of_pos hglyph] at hrow
    rw [hrow] at hnone
    exact ⟨_, decode rest, _, _, hd, element_of_malformed hdigit' hnone, rfl⟩
  | unterminatedString =>
    obtain ⟨quote, hquote, rest, rfl, hfree⟩ := h
    simp only [quoteBytes, List.mem_cons, List.not_mem_nil, or_false] at hquote
    rcases hquote with rfl | rfl
    · have hglyphs := asciiGlyph_notMem_decode (by decide) hfree
      exact ⟨.char '"', decode rest, _, _, decode_ascii (by decide) rest,
        element_of_lone_quote (.inl rfl) hglyphs, rfl⟩
    · have hglyphs := asciiGlyph_notMem_decode (by decide) hfree
      exact ⟨.char '\'', decode rest, _, _, decode_ascii (by decide) rest,
        element_of_lone_quote (.inr rfl) hglyphs, rfl⟩
  | unterminatedComment =>
    obtain ⟨rest, rfl, hfree⟩ := h
    have hend : commentEnd? (decode rest) = none := by
      refine commentEnd?_eq_none_iff.2 fun hi => hfree ?_
      exact glyphBytes_isInfix_of hi
    have hd : decode (slashByte :: starByte :: rest) = .char '/' :: .char '*' :: decode rest := by
      rw [decode_slash, decode_star]
    exact ⟨_, _, _, _, hd, element_of_lone_mark hend, rfl⟩
  | unterminatedAttribute =>
    obtain ⟨rest, rfl, hfree⟩ := h
    have hrow : ∀ b ∈ [signByte, openBracketByte], b < 0x80 := forall_lt_of_all rfl
    have hglyphs := asciiGlyph_notMem_decode (by decide) hfree
    exact ⟨.char '#', .char '[' :: decode rest, _, _, decode_asciiRow hrow rest,
      element_of_lone_bracket hglyphs, rfl⟩
  | unknownOperator =>
    obtain ⟨half, hhalf, rest, rfl, hhead⟩ := h
    simp only [doubledBytes, List.mem_cons, List.not_mem_nil, or_false] at hhalf
    rcases hhalf with rfl | rfl
    · refine ⟨.char '&', decode rest, .halfOperator '&', 0, decode_ascii (by decide) rest, ?_, rfl⟩
      exact if_neg (head?_decode_ne (by decide) hhead)
    · refine ⟨.char '|', decode rest, .halfOperator '|', 0, decode_ascii (by decide) rest, ?_, rfl⟩
      exact if_neg (head?_decode_ne (by decide) hhead)
  | unexpectedCharacter =>
    rcases h with ⟨rest, rfl⟩ | ⟨rest, rfl, hhead, hname⟩ | ⟨g, hg, hstarts⟩
    · have hrow : ∀ b ∈ [signByte, openBracketByte, closeBracketByte], b < 0x80 :=
        forall_lt_of_all rfl
      exact ⟨.char '#', .char '[' :: .char ']' :: decode rest, .emptyAttributeName, 1,
        decode_asciiRow hrow rest, rfl, rfl⟩
    · have hglyphs := head?_decode_ne (by decide) hhead
      exact ⟨.char '#', decode rest, _, _, decode_ascii (by decide) rest,
        element_of_lone_sign hglyphs hname, rfl⟩
    · obtain ⟨rest, hd⟩ := List.head?_eq_some_iff.1 hg
      exact ⟨g, rest, _, _, hd, element_of_not_startsElement hstarts rest, rfl⟩
  | _ => exact h.elim

/-! ## Before and after a fault -/

/-- What scanning has read can be scanned by itself. -/
theorem ComesTo.exists_read {gs more : List Glyph} (h : ComesTo gs more) :
    ∃ read, gs = read ++ more ∧
      ∀ p : Position, ∃ found, scan p read = .ok (found ++ [Token.eof (p.advanceOver read)]) := by
  induction h with
  | here gs => exact ⟨[], rfl, fun p => ⟨[], by rw [scan]; rfl⟩⟩
  | @past g rest more reading n he hr _ ih =>
    obtain ⟨read, hdrop, hscan⟩ := ih
    have hsplit : rest = rest.take n ++ read ++ more := by
      rw [List.append_assoc, ← hdrop, List.take_append_drop]
    have hlength : (rest.take n).length = n := by
      have hle := extent_element_le g rest
      rw [he] at hle
      exact List.length_take_of_le hle
    have hown : element g (rest.take n ++ read) = ⟨reading, (rest.take n).length⟩ := by
      rw [hsplit] at he
      rw [hlength]
      refine element_of_append he hr ?_
      rw [List.length_append]
      omega
    refine ⟨g :: (rest.take n ++ read), ?_, fun p => ?_⟩
    · rw [List.cons_append, ← hsplit]
    · obtain ⟨found, hfound⟩ := hscan (p.advanceOver (g :: rest.take n))
      rw [← Position.advanceOver_append, List.cons_append] at hfound
      cases reading with
      | gap => exact ⟨found, by rw [scan_gap_append hown, hfound]⟩
      | symbol s => exact ⟨_ :: found, by rw [scan_symbol_append hown, hfound]; rfl⟩
      | fault cause => cases hr

/-- An element that a text ends in goes on over a line feed. -/
theorem element_unterminated_newline {g : Glyph} {rest : List Glyph} {cause : LexicalCause}
    {n : Nat} (h : element g rest = ⟨.fault cause, n⟩) (hcause : cause.isUnterminated = true) :
    ∃ m, element g (rest ++ [.char '\n']) = ⟨.fault cause, m⟩ := by
  cases g with
  | stray b =>
    cases h
    cases hcause
  | char c =>
    have hstarts := starts_element c rest
    rw [h] at hstarts
    cases hstarts with
    | punct _ he | blank _ he | word _ he => cases he
    | operator ho =>
      obtain ⟨-, rfl, -⟩ := operatorElement?_eq_fault ho
      cases hcause
    | slash hc he =>
      subst hc
      obtain ⟨rfl, comment, rfl, hend⟩ := slashElement_eq_fault he.symm
      have hend' : commentEnd? (comment ++ [.char '\n']) = none := by
        rw [commentEnd?_eq_none_iff] at hend ⊢
        intro hi
        rcases List.infix_concat_iff.1 hi with hsuffix | hi
        · obtain ⟨before, hbefore⟩ := hsuffix
          have hlast := congrArg List.getLast? hbefore
          rw [List.getLast?_concat, List.getLast?_append] at hlast
          cases hlast
        · exact hend hi
      exact ⟨_, element_of_lone_mark hend'⟩
    | string hc he =>
      obtain ⟨rfl, hfree⟩ := stringElement_eq_fault he.symm
      have hfree' : .char c ∉ rest ++ [.char '\n'] := by
        rcases hc with rfl | rfl <;> simp [hfree]
      exact ⟨_, element_of_lone_quote hc hfree'⟩
    | attr hc he =>
      subst hc
      rcases attributeElement_eq_fault he.symm with
        ⟨rfl, name, rfl, hfree⟩ | ⟨rfl, more, rfl⟩ | ⟨rfl, hhead, hname⟩
      · have hfree' : .char ']' ∉ name ++ [.char '\n'] := by simp [hfree]
        exact ⟨_, element_of_lone_bracket hfree'⟩
      · cases hcause
      · cases hcause
    | number hc he =>
      obtain ⟨text, rfl, -⟩ := numberElement_eq_fault he.symm
      cases hcause
    | unexpected he =>
      cases he
      cases hcause

/-- A text that cannot be scanned cannot be scanned with a line feed after it. -/
theorem exists_fault_newline {p : Position} {gs : List Glyph} {fault : LexicalFault}
    (h : scan p gs = .error fault) : ∃ fault', scan p (gs ++ [.char '\n']) = .error fault' := by
  induction p, gs using scan_induction with
  | nil p =>
    rw [scan] at h
    cases h
  | gap p g rest n he ih =>
    rw [scan_gap he] at h
    obtain ⟨he', htake, hdrop⟩ := element_newline he rfl []
    rw [List.cons_append, scan_gap he', htake, hdrop]
    exact ih h
  | symbol p g rest s n he ih =>
    obtain ⟨he', htake, hdrop⟩ := element_newline he rfl []
    obtain ⟨fault', hfault⟩ := ih (scan_symbol_eq_error he h)
    rw [List.cons_append, scan_symbol he', htake, hdrop, hfault]
    exact ⟨fault', rfl⟩
  | fault p g rest cause n he =>
    cases hcause : cause.isUnterminated with
    | true =>
      obtain ⟨m, he'⟩ := element_unterminated_newline he hcause
      exact ⟨_, scan_fault he' p⟩
    | false =>
      have hstays : (Reading.fault cause).staysBefore '\n' = true := by
        rw [Reading.staysBefore, hcause]
        rfl
      exact ⟨_, scan_fault (element_newline he hstays []).1 p⟩

/-- What comes after a line feed is scanned from where the text before it ends. -/
theorem scan_after_newline {p q : Position} {gs : List Glyph} {found : List Token}
    (h : scan p (gs ++ [.char '\n']) = .ok (found ++ [Token.eof q])) (hs : List Glyph) :
    scan p (gs ++ .char '\n' :: hs) = (scan q hs).map (found ++ ·) := by
  cases hgs : scan p gs with
  | error fault =>
    obtain ⟨fault', hfault⟩ := exists_fault_newline hgs
    rw [hfault] at h
    cases h
  | ok ts =>
    obtain ⟨before, r, hts, hend⟩ := scan_newline hgs []
    obtain ⟨before', r', hts', hmore⟩ := scan_newline hgs hs
    rw [h, scan] at hend
    obtain ⟨hfound, hq⟩ := List.append_inj' (Except.ok.inj hend) rfl
    obtain ⟨hbefore, hr⟩ := List.append_inj' (hts.symm.trans hts') rfl
    have hplace : q = ⟨r.line + 1, 1⟩ := congrArg Token.pos (List.cons.inj hq).1
    have hplace' : r = r' := congrArg Token.pos (List.cons.inj hr).1
    rw [hmore, hfound, hbefore, hplace, hplace']

/-- Where a text that starts a line has the form of a fault, scanning comes to that fault. -/
theorem exists_error_of_opens {before rest : Bytes} {found : List Token} {p : Position}
    (hbefore : before = [] ∨ ∃ text, before = text ++ [lineFeed])
    (h : tokenize before = .ok (found ++ [Token.eof p])) {kind : ErrorKind}
    (hrest : kind.Opens rest) :
    ∃ d, tokenize (before ++ rest) = .error d ∧ d.kind = kind ∧ d.span.start = p := by
  obtain ⟨g, more, cause, n, hd, he, rfl⟩ := exists_fault_of_opens hrest
  have hscan : scan .start (decode (before ++ rest)) =
      .error ⟨cause, ⟨p, p.advanceOver (g :: more.take n)⟩⟩ := by
    rw [tokenize_eq_ok] at h
    rcases hbefore with rfl | ⟨text, rfl⟩
    · rw [decode, scan] at h
      obtain ⟨-, hp⟩ := List.append_inj' (Except.ok.inj h : [] ++ [Token.eof .start] = _) rfl
      have hplace : Position.start = p := congrArg Token.pos (List.cons.inj hp).1
      rw [List.nil_append, hd, scan_fault he, hplace]
    · rw [decode_append_lineFeed] at h
      rw [List.append_assoc, List.singleton_append, decode_append_lineFeed,
        scan_after_newline h, hd, scan_fault he]
      rfl
  exact ⟨_, tokenize_eq_error.2 ⟨_, hscan, rfl⟩, rfl, rfl⟩

/-- A text that cannot be scanned is cut in two by its fault: the first part can be scanned and
ends where the fault starts, and the second part, which is not empty, has the form of the fault
and of no other kind. The other way round, a text of the form of some kind after a text that can
be scanned, and that is empty or ends with a line feed, has a fault of this kind at the place
after the first text. -/
theorem tokenize_faults :
    (∀ source d, tokenize source = .error d →
      ∃ before rest, source = before ++ rest ∧ rest ≠ [] ∧
        (∃ found, tokenize before = .ok (found ++ [Token.eof d.span.start])) ∧
        ∀ kind : ErrorKind, d.kind = kind ↔ kind.Opens rest) ∧
    ∀ (before rest : Bytes) (found : List Token) (p : Position) (kind : ErrorKind),
      (before = [] ∨ ∃ text, before = text ++ [lineFeed]) →
      tokenize before = .ok (found ++ [Token.eof p]) → kind.Opens rest →
        p = placeAfter before ∧
          ∃ d, tokenize (before ++ rest) = .error d ∧ d.kind = kind ∧ d.span.start = p := by
  constructor
  · intro source d h
    obtain ⟨fault, hfault, rfl⟩ := tokenize_eq_error.1 h
    obtain ⟨b, rfl⟩ := exists_break_of_scan hfault
    obtain ⟨read, hglyphs, hscan⟩ := b.comes.exists_read
    obtain ⟨found, hfound⟩ := hscan .start
    obtain rfl : read = b.read := List.append_cancel_right (hglyphs.symm.trans b.glyphs)
    have hd : IsDecoded (b.read ++ b.first :: b.rest) := b.glyphs ▸ isDecoded_decode source
    obtain ⟨hread, hrest⟩ := hd.of_append
    refine ⟨glyphBytes b.read, glyphBytes (b.first :: b.rest), ?_, ?_, ⟨found, ?_⟩, fun kind => ?_⟩
    · rw [← glyphBytes_append, ← b.glyphs, glyphBytes_decode]
    · exact fun he => List.cons_ne_nil _ _ (eq_nil_of_glyphBytes he)
    · rw [tokenize_eq_ok, hread]
      exact hfound
    · constructor
      · rintro rfl
        exact opens_of_fault hrest b.faulty
      · intro hkind
        -- The form of a text fixes the fault that its first element has.
        obtain ⟨g, more, cause, n, hcut, he, rfl⟩ := exists_fault_of_opens hkind
        obtain ⟨rfl, rfl⟩ := List.cons.inj (hcut.symm.trans hrest)
        cases b.faulty.symm.trans he
        rfl
  · intro before rest found p kind hbefore h hkind
    refine ⟨?_, exists_error_of_opens hbefore h hkind⟩
    obtain ⟨l, htext, hread⟩ := exists_layout_of_tokenize h
    obtain ⟨-, hend⟩ := List.append_inj' hread.tokens rfl
    rw [List.nil_append, htext] at hend
    exact congrArg Token.pos (List.cons.inj hend).1

/-- The broken text is cut before its last quote, and half an operator on a line of its own is
found there. -/
theorem tokenize_faults_broken :
    (∃ before rest, brokenText = before ++ rest ∧ rest ≠ [] ∧
      (∃ found, tokenize before = .ok (found ++ [Token.eof ⟨2, 4⟩])) ∧
      ErrorKind.unterminatedString.Opens rest) ∧
    ∃ d, tokenize (utf8 "a\n" ++ utf8 "|é") = .error d ∧ d.kind = .unknownOperator ∧
      d.span.start = ⟨2, 1⟩ := by
  have hbroken : tokenize brokenText =
      .error ⟨.unterminatedString, utf8 "unterminated string", ⟨⟨2, 4⟩, ⟨2, 7⟩⟩, brokenText⟩ := by
    decide +kernel
  have hline : tokenize (utf8 "a\n") =
      .ok ([⟨.ident (utf8 "a"), utf8 "a", .start⟩] ++ [Token.eof ⟨2, 1⟩]) := by decide +kernel
  have hhalf : ErrorKind.unknownOperator.Opens (utf8 "|é") :=
    ⟨0x7c, by decide, utf8 "é", by decide +kernel, by decide +kernel⟩
  constructor
  · obtain ⟨before, rest, hsource, hne, hbefore, hkind⟩ := tokenize_faults.1 brokenText _ hbroken
    exact ⟨before, rest, hsource, hne, hbefore, (hkind _).1 rfl⟩
  · exact (tokenize_faults.2 _ _ _ _ _ (.inr ⟨utf8 "a", by decide +kernel⟩) hline hhalf).2

end ShaderFront
