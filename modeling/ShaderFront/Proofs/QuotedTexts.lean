import ShaderFront.Proofs.LongestMatch
import ShaderFront.Proofs.SingleLine

/-!
# Quoted texts are read in one way

Between quotes a glyph stands for itself or is written after a backslash. What comes after the
backslash says how many bytes belong to the glyph and which glyph it is, and no character that
stands for itself starts like that. So the glyphs of a quoted text can be read off it one by
one, and two texts that are quoted alike are the same.
-/

namespace ShaderFront

/-! ## Digits of base sixteen -/

/-- The value of a digit of base sixteen. -/
def hexDigitValue (b : UInt8) : Nat :=
  if b.toNat < 0x3a then b.toNat - 0x30 else b.toNat - 0x57

/-- The number that a row of digits of base sixteen stands for. -/
def hexValue (digits : Bytes) : Nat :=
  digits.foldl (fun n b => 16 * n + hexDigitValue b) 0

theorem hexDigitValue_hexDigit {n : Nat} (h : n < 16) :
    hexDigitValue (Numeral.hexDigit n) = n := by
  unfold Numeral.hexDigit Numeral.digit hexDigitValue
  split
  · rw [UInt8.toNat_ofNat']
    split <;> omega
  · rw [UInt8.toNat_ofNat']
    split <;> omega

/-- The lowest digits of a number give the number back if there are no others. -/
theorem hexValue_hex {width n : Nat} (h : n < Nat.pow 16 width) :
    hexValue (Numeral.hex width n) = n := by
  induction width generalizing n with
  | zero =>
    have hzero : n < 1 := h
    obtain rfl : n = 0 := by omega
    rfl
  | succ width ih =>
    have hpow : Nat.pow 16 (width + 1) = Nat.pow 16 width * 16 := rfl
    have hhigh : n / 16 < Nat.pow 16 width := by
      rw [hpow] at h
      omega
    have hlow := hexDigitValue_hexDigit (Nat.mod_lt n (by decide : 16 > 0))
    have hdigits := ih hhigh
    unfold hexValue at hdigits ⊢
    rw [Numeral.hex, List.foldl_append, hdigits, List.foldl_cons, List.foldl_nil, hlow]
    omega

/-! ## Glyphs after a backslash -/

/-- The byte before what is not written as it is. -/
def backslashByte : UInt8 := 0x5c

/-- How many bytes belong to a glyph after a backslash and the given byte. -/
def escapeWidth (marker : UInt8) : Nat :=
  if marker = 0x78 then 2 else if marker = 0x75 then 4 else if marker = 0x55 then 8 else 0

/-- The character that a letter or a mark stands for after a backslash. -/
def namedChar (marker : UInt8) : Char :=
  match marker with
  | 0x61 => Char.ofNat 0x07
  | 0x62 => Char.ofNat 0x08
  | 0x74 => Char.ofNat 0x09
  | 0x6e => Char.ofNat 0x0a
  | 0x76 => Char.ofNat 0x0b
  | 0x66 => Char.ofNat 0x0c
  | 0x72 => Char.ofNat 0x0d
  | _ => Char.ofNat marker.toNat

/-- The glyph that is written with the given bytes after a backslash. -/
def readEscape (marker : UInt8) (code : Bytes) : Glyph :=
  if marker = 0x78 then
    if hexValue code < 0x80 then .char (Char.ofNat (hexValue code))
    else .stray (UInt8.ofNat (hexValue code))
  else if marker = 0x75 ∨ marker = 0x55 then .char (Char.ofNat (hexValue code))
  else .char (namedChar marker)

/-- Is the glyph written so after a backslash? -/
structure IsEscape (g : Glyph) (text : Bytes) (marker : UInt8) (code : Bytes) : Prop where
  /-- This is its text. -/
  text : text = backslashByte :: marker :: code
  /-- It has as many bytes as the marker asks for. -/
  width : code.length = escapeWidth marker
  /-- It can be read back. -/
  reads : g = readEscape marker code

/-- A character can be read back from a code that is wide enough. -/
theorem char_hexValue {width : Nat} {c : Char} (h : c.toNat < Nat.pow 16 width) :
    Glyph.char (Char.ofNat (hexValue (Numeral.hex width c.toNat))) = .char c := by
  rw [hexValue_hex h, Char.ofNat_toNat]

/-- A character that is written by its letter or its code can be read back. -/
theorem exists_isEscape_escapeCode (c : Char) :
    ∃ marker code, IsEscape (.char c) (escapeCode c) marker code := by
  unfold escapeCode
  split
  · next letter hletter =>
    unfold controlLetter? at hletter
    split at hletter
    case h_8 => cases hletter
    all_goals
      next hc =>
      cases hletter
      have hchar := congrArg Char.ofNat hc
      rw [Char.ofNat_toNat] at hchar
      subst hchar
      exact ⟨_, [], rfl, rfl, rfl⟩
  · have hbound : c.toNat < 0x110000 := by
      have hvalid : c.toNat.isValidChar := c.valid
      unfold Nat.isValidChar at hvalid
      omega
    split
    · next hc =>
      have hvalue : hexValue (Numeral.hex 2 c.toNat) = c.toNat :=
        hexValue_hex (Nat.lt_trans hc (by decide))
      refine ⟨0x78, Numeral.hex 2 c.toNat, rfl, Numeral.length_hex _ _, ?_⟩
      rw [readEscape, if_pos rfl, hvalue, if_pos hc, Char.ofNat_toNat]
    · split
      · next hc =>
        exact ⟨0x75, Numeral.hex 4 c.toNat, rfl, Numeral.length_hex _ _, (char_hexValue hc).symm⟩
      · exact ⟨0x55, Numeral.hex 8 c.toNat, rfl, Numeral.length_hex _ _,
          (char_hexValue (Nat.lt_trans hbound (by decide))).symm⟩

/-- A byte that is part of no character is not below `0x80`. -/
theorem not_lt_of_isDecoded {b : UInt8} (h : IsDecoded [.stray b]) : ¬ b < 0x80 := by
  intro hb
  rw [IsDecoded, show glyphBytes [.stray b] = [b] from rfl, decode_ascii hb] at h
  cases h

/-- Between double quotes a glyph is written after a backslash, or is a character other than
the backslash that stands for itself. -/
theorem Glyph.escaped_cases {g : Glyph} (h : IsDecoded [g]) :
    (∃ c, g = .char c ∧ c ≠ '\\' ∧ g.escaped '"' = String.utf8EncodeChar c) ∨
      ∃ marker code, IsEscape g (g.escaped '"') marker code := by
  cases g with
  | stray b =>
    right
    have hvalue : hexValue (Numeral.hex 2 b.toNat) = b.toNat :=
      hexValue_hex (UInt8.toNat_lt b)
    have hb : ¬ b.toNat < 0x80 := not_lt_of_isDecoded h
    refine ⟨0x78, Numeral.hex 2 b.toNat, rfl, Numeral.length_hex _ _, ?_⟩
    rw [readEscape, if_pos rfl, hvalue, if_neg hb, UInt8.ofNat_toNat]
  | char c =>
    rw [escaped]
    split
    · next hc =>
      right
      simp only [Bool.or_eq_true, decide_eq_true_eq] at hc
      rcases hc with rfl | rfl <;> exact ⟨_, [], rfl, rfl, rfl⟩
    · next hc =>
      simp only [Bool.or_eq_true, decide_eq_true_eq, not_or] at hc
      split
      · exact .inl ⟨c, rfl, hc.2, rfl⟩
      · exact .inr (exists_isEscape_escapeCode c)

/-! ## Glyph by glyph -/

/-- A character that is written as it is does not start with a backslash. -/
theorem encode_append_ne_backslash {c : Char} (hc : c ≠ '\\') (r s : Bytes) :
    String.utf8EncodeChar c ++ r ≠ backslashByte :: s := by
  intro h
  cases hbytes : String.utf8EncodeChar c with
  | nil => exact String.utf8EncodeChar_ne_nil hbytes
  | cons b bs =>
    rw [hbytes, List.cons_append] at h
    obtain ⟨rfl, -⟩ := List.cons.inj h
    have hvalue := toNat_of_mem_encode (by decide) (hbytes ▸ List.mem_cons_self)
    exact hc (Char.toNat_inj.1 hvalue)

/-- The text before which a glyph is written says which glyph it is and where it ends. -/
theorem Glyph.escaped_append_inj {g g' : Glyph} (hg : IsDecoded [g]) (hg' : IsDecoded [g'])
    {r r' : Bytes} (h : g.escaped '"' ++ r = g'.escaped '"' ++ r') : g = g' ∧ r = r' := by
  rcases escaped_cases hg with ⟨c, rfl, hc, htext⟩ | ⟨marker, code, hcode⟩ <;>
    rcases escaped_cases hg' with ⟨c', rfl, hc', htext'⟩ | ⟨marker', code', hcode'⟩
  · rw [htext, htext'] at h
    have hfirst := congrArg decode h
    have hdecode : decode (String.utf8EncodeChar c) = [.char c] := by
      simpa [IsDecoded, glyphBytes, Glyph.bytes] using hg
    have hdecode' : decode (String.utf8EncodeChar c') = [.char c'] := by
      simpa [IsDecoded, glyphBytes, Glyph.bytes] using hg'
    rw [decode_append_char hdecode, decode_append_char hdecode'] at hfirst
    have hchar := (List.cons.inj hfirst).1
    cases hchar
    exact ⟨rfl, List.append_cancel_left h⟩
  · rw [htext, hcode'.text] at h
    exact absurd h (encode_append_ne_backslash hc _ _)
  · rw [htext', hcode.text] at h
    exact absurd h.symm (encode_append_ne_backslash hc' _ _)
  · rw [hcode.text, hcode'.text] at h
    simp only [List.cons_append, List.cons.injEq, true_and] at h
    obtain ⟨rfl, hrest⟩ := h
    have hwidth : code.length = code'.length := hcode.width.trans hcode'.width.symm
    obtain ⟨rfl, rfl⟩ := List.append_inj hrest hwidth
    exact ⟨hcode.reads.trans hcode'.reads.symm, rfl⟩

theorem Glyph.escaped_ne_nil {g : Glyph} (h : IsDecoded [g]) : g.escaped '"' ≠ [] := by
  rcases escaped_cases h with ⟨c, -, -, htext⟩ | ⟨marker, code, hcode⟩
  · rw [htext]
    exact String.utf8EncodeChar_ne_nil
  · rw [hcode.text]
    exact List.cons_ne_nil _ _

/-- Two rows of glyphs that are written alike are the same. -/
theorem eq_of_flatMap_escaped {gs gs' : List Glyph} (hg : IsDecoded gs) (hg' : IsDecoded gs')
    (h : gs.flatMap (Glyph.escaped '"') = gs'.flatMap (Glyph.escaped '"')) : gs = gs' := by
  induction gs generalizing gs' with
  | nil =>
    cases gs' with
    | nil => rfl
    | cons g' gs' =>
      have hfirst := (@IsDecoded.of_append [g'] gs' hg').1
      exact absurd (List.append_eq_nil_iff.1 h.symm).1 (Glyph.escaped_ne_nil hfirst)
  | cons g gs ih =>
    have hfirst := (@IsDecoded.of_append [g] gs hg).1
    cases gs' with
    | nil => exact absurd (List.append_eq_nil_iff.1 h).1 (Glyph.escaped_ne_nil hfirst)
    | cons g' gs' =>
      have hfirst' := (@IsDecoded.of_append [g'] gs' hg').1
      obtain ⟨rfl, hrest⟩ := Glyph.escaped_append_inj hfirst hfirst' h
      rw [ih hg.tail hg'.tail hrest]

/-- A text is determined by how it is quoted. -/
theorem quoted_injective {t t' : Bytes} (h : quoted t = quoted t') : t = t' := by
  have hbody := List.append_cancel_left (List.append_cancel_right h)
  have hglyphs := eq_of_flatMap_escaped (isDecoded_decode t) (isDecoded_decode t') hbody
  rw [← glyphBytes_decode t, hglyphs, glyphBytes_decode]

end ShaderFront
