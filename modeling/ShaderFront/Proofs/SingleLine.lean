import ShaderFront.Number.Written
import ShaderFront.Proofs.Decoding
import ShaderFront.Text.Quoted

/-!
# Texts that take one line

Numbers and quoted texts are printed without line feeds, whatever they stand for. A line
feed in a quoted text is written by its letter, and every other byte below `0x80` is a
character by itself.
-/

namespace ShaderFront

/-- A byte below `0x80` is in the encoding of a character only if it is the character. -/
theorem toNat_of_mem_encode {c : Char} {b : UInt8} (hb : b < 0x80)
    (h : b ∈ String.utf8EncodeChar c) : c.toNat = b.toNat := by
  simp only [UInt8.lt_iff_toNat_lt, UInt8.reduceToNat] at hb
  have hbyte : ∀ n, n < 256 → b = UInt8.ofNat n → b.toNat = n := by
    rintro n hn rfl
    exact UInt8.toNat_ofNat_of_lt' hn
  unfold String.utf8EncodeChar at h
  dsimp only at h
  have hvalue : c.toNat = c.val.toNat := rfl
  split at h
  · have hn := hbyte _ (by omega) (List.mem_singleton.1 h)
    omega
  · -- All bytes of a longer encoding are at least `0x80`.
    have hlow : ∃ n, 128 ≤ n ∧ n < 256 ∧ b = UInt8.ofNat n := by
      split at h
      · simp only [List.mem_cons, List.not_mem_nil, or_false] at h
        rcases h with h | h <;> exact ⟨_, by omega, by omega, h⟩
      · split at h <;> simp only [List.mem_cons, List.not_mem_nil, or_false] at h
        · rcases h with h | h | h <;> exact ⟨_, by omega, by omega, h⟩
        · rcases h with h | h | h | h <;> exact ⟨_, by omega, by omega, h⟩
    obtain ⟨n, hge, hlt, hb'⟩ := hlow
    have hn := hbyte n hlt hb'
    omega

/-- Only the line feed is encoded with a line feed. -/
theorem lineFeed_notMem_encode {c : Char} (h : c ≠ '\n') :
    lineFeed ∉ String.utf8EncodeChar c := by
  intro hm
  have hc := toNat_of_mem_encode (by decide) hm
  exact h (Char.toNat_inj.1 hc)

/-! ## Numbers -/

theorem digit_ne_lineFeed {n : Nat} (h : n < 10) : Numeral.digit n ≠ lineFeed := by
  intro he
  have hn := congrArg UInt8.toNat he
  rw [Numeral.digit, UInt8.toNat_ofNat_of_lt' (by omega : 0x30 + n < 256)] at hn
  simp only [lineFeed, UInt8.reduceToNat] at hn
  omega

theorem hexDigit_ne_lineFeed {n : Nat} (h : n < 16) : Numeral.hexDigit n ≠ lineFeed := by
  unfold Numeral.hexDigit
  split
  · exact digit_ne_lineFeed ‹_›
  · intro he
    have hn := congrArg UInt8.toNat he
    rw [UInt8.toNat_ofNat_of_lt' (by omega : 0x57 + n < 256)] at hn
    simp only [lineFeed, UInt8.reduceToNat] at hn
    omega

theorem lineFeed_notMem_ofNat (n : Nat) : lineFeed ∉ Numeral.ofNat n := by
  induction n using Numeral.ofNat.induct with
  | case1 n h =>
    rw [Numeral.ofNat, if_pos h]
    simpa using (digit_ne_lineFeed h).symm
  | case2 n h ih =>
    rw [Numeral.ofNat, if_neg h]
    simpa [ih] using (digit_ne_lineFeed (Nat.mod_lt n (by omega))).symm

theorem lineFeed_notMem_hex (width n : Nat) : lineFeed ∉ Numeral.hex width n := by
  induction width generalizing n with
  | zero => exact List.not_mem_nil
  | succ width ih =>
    rw [Numeral.hex]
    simpa [ih] using (hexDigit_ne_lineFeed (Nat.mod_lt n (by omega))).symm

theorem notMem_zeros {b : UInt8} (h : b ≠ 0x30) (n : Nat) :
    b ∉ List.replicate n (0x30 : UInt8) := by
  intro hm
  exact h (List.eq_of_mem_replicate hm)

namespace Decimal

/-- Positional notation adds zeros and a point to the digits, and nothing else. -/
theorem notMem_positional {b : UInt8} {digits : Bytes} (h : b ∉ digits) (hzero : b ≠ 0x30)
    (hpoint : b ≠ 0x2e) (place : Int) : b ∉ positional digits place := by
  have htake : ∀ n, b ∉ digits.take n := fun n hm => h (List.mem_of_mem_take hm)
  have hdrop : ∀ n, b ∉ digits.drop n := fun n hm => h (List.mem_of_mem_drop hm)
  have hdot : b ∉ utf8 "." := fun hm => hpoint (List.mem_singleton.1 hm)
  have hlead : b ∉ utf8 "0." := by
    intro hm
    rcases List.mem_cons.1 hm with hm | hm
    · exact hzero hm
    · exact hpoint (List.mem_singleton.1 hm)
  unfold positional
  dsimp only
  split
  · simp only [List.mem_append, not_or]
    exact ⟨⟨hlead, notMem_zeros hzero _⟩, h⟩
  · split
    · simp only [List.mem_append, not_or]
      exact ⟨htake _, notMem_zeros hzero _⟩
    · simp only [List.mem_append, not_or]
      exact ⟨⟨htake _, hdot⟩, hdrop _⟩

theorem lineFeed_notMem_exponentText (e : Int) : lineFeed ∉ exponentText e := by
  have hsign : lineFeed ∉ if e < 0 then utf8 "-" else utf8 "+" := by
    split <;> decide
  unfold exponentText
  simp only [List.mem_append, not_or]
  exact ⟨⟨hsign, notMem_zeros (by decide) _⟩, lineFeed_notMem_ofNat _⟩

theorem lineFeed_notMem_scientific {digits : Bytes} (h : lineFeed ∉ digits) (exponent : Int) :
    lineFeed ∉ scientific digits exponent := by
  have hfirst : lineFeed ∉ digits.take 1 := fun hm => h (List.mem_of_mem_take hm)
  have hdrop : lineFeed ∉ digits.drop 1 := fun hm => h (List.mem_of_mem_drop hm)
  have hpoint : lineFeed ∉ utf8 "." := by decide
  have hmark : lineFeed ∉ utf8 "e" := by decide
  have hfraction : lineFeed ∉
      if (digits.drop 1).isEmpty then [] else utf8 "." ++ digits.drop 1 := by
    split
    · exact List.not_mem_nil
    · simp only [List.mem_append, not_or]
      exact ⟨hpoint, hdrop⟩
  unfold scientific
  simp only [List.mem_append, not_or]
  exact ⟨⟨⟨hfirst, hfraction⟩, hmark⟩, lineFeed_notMem_exponentText _⟩

/-- A decimal is written without line feeds. -/
theorem lineFeed_notMem_text (d : Decimal) : lineFeed ∉ d.text := by
  have hdigits := lineFeed_notMem_ofNat d.coefficient
  unfold text
  dsimp only
  split
  · exact notMem_positional hdigits (by decide) (by decide) _
  · exact lineFeed_notMem_scientific hdigits _

end Decimal

/-- A number is written without line feeds. -/
theorem Binary64.lineFeed_notMem_text (x : Binary64) : lineFeed ∉ x.text := by
  unfold text
  split
  · decide
  · split
    · split <;> decide
    · have hsign : lineFeed ∉ if x.negative then utf8 "-" else [] := by
        split <;> decide
      have hdigits : lineFeed ∉ if x.isZero then utf8 "0" else (Decimal.shortest x.abs).text := by
        split
        · decide
        · exact Decimal.lineFeed_notMem_text _
      simp only [List.mem_append, not_or]
      exact ⟨hsign, hdigits⟩

/-! ## Quoted texts -/

/-- A character that is written by its letter or its code takes one line. -/
theorem lineFeed_notMem_escapeCode (c : Char) : lineFeed ∉ escapeCode c := by
  have hletter : ∀ letter ∈ controlLetter? c, letter ≠ '\n' := by
    intro letter hm
    unfold controlLetter? at hm
    split at hm <;> cases hm <;> decide
  have hslash : lineFeed ∉ utf8 "\\" := by decide
  have hx : lineFeed ∉ utf8 "\\x" := by decide
  have hu : lineFeed ∉ utf8 "\\u" := by decide
  have hU : lineFeed ∉ utf8 "\\U" := by decide
  unfold escapeCode
  split
  · next letter hm =>
    simp only [List.mem_append, not_or]
    exact ⟨hslash, lineFeed_notMem_encode (hletter letter hm)⟩
  · split
    · simp only [List.mem_append, not_or]
      exact ⟨hx, lineFeed_notMem_hex _ _⟩
    · split <;> simp only [List.mem_append, not_or]
      · exact ⟨hu, lineFeed_notMem_hex _ _⟩
      · exact ⟨hU, lineFeed_notMem_hex _ _⟩

theorem Glyph.lineFeed_notMem_escaped {quote : Char} (hq : quote ≠ '\n') (g : Glyph) :
    lineFeed ∉ g.escaped quote := by
  have hslash : lineFeed ∉ utf8 "\\" := by decide
  have hx : lineFeed ∉ utf8 "\\x" := by decide
  cases g with
  | stray b =>
    rw [escaped]
    simp only [List.mem_append, not_or]
    exact ⟨hx, lineFeed_notMem_hex _ _⟩
  | char c =>
    rw [escaped]
    split
    · next hc =>
      have hne : c ≠ '\n' := by
        rintro rfl
        simp only [Bool.or_eq_true, decide_eq_true_eq] at hc
        rcases hc with rfl | hc
        · exact hq rfl
        · exact absurd hc (by decide)
      simp only [List.mem_append, not_or]
      exact ⟨hslash, lineFeed_notMem_encode hne⟩
    · split
      · next hp =>
        refine lineFeed_notMem_encode ?_
        rintro rfl
        exact absurd hp (by decide)
      · exact lineFeed_notMem_escapeCode c

/-- A quoted text takes one line. -/
theorem lineFeed_notMem_quoted (t : Bytes) : lineFeed ∉ quoted t := by
  have hquote : lineFeed ∉ utf8 "\"" := by decide
  have hbody : lineFeed ∉ (decode t).flatMap (Glyph.escaped '"') := by
    intro hm
    obtain ⟨g, -, hg⟩ := List.mem_flatMap.1 hm
    exact g.lineFeed_notMem_escaped (by decide) hg
  unfold quoted
  simp only [List.mem_append, not_or]
  exact ⟨⟨hquote, hbody⟩, hquote⟩

end ShaderFront
