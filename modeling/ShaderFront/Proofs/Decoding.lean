import ShaderFront.Text.Glyph

/-!
# Decoding loses nothing and stays local

The glyphs of a text spell the text again, whatever bytes it holds. A byte that
continues no character starts a glyph of its own, so a text can be cut before such a
byte and decoded in two parts; a byte below `0x80` is a glyph by itself and can be cut
off on both sides. A text can also be cut between any two of its glyphs, and both parts
are decoded as before.
-/

namespace ShaderFront

/-! ## Characters and their bytes -/

/-- A valid code point is the value of its character. -/
theorem val_ofNat {n : Nat} (h : n.isValidChar) : (Char.ofNat n).val.toNat = n := by
  unfold Char.ofNat
  rw [dif_pos h]
  rfl

/-- A byte below `0x80` is the whole encoding of its character. -/
theorem encode_ascii {a : UInt8} (ha : a < 0x80) :
    String.utf8EncodeChar (Char.ofNat a.toNat) = [a] := by
  simp only [UInt8.lt_iff_toNat_lt, UInt8.reduceToNat] at ha
  have hv : a.toNat.isValidChar := by
    unfold Nat.isValidChar
    omega
  unfold String.utf8EncodeChar
  rw [val_ofNat hv]
  dsimp only
  rw [if_pos (by omega), UInt8.ofNat_toNat]

/-- The character of two bytes is encoded by them. -/
theorem encode_of_pairChar? {a b : UInt8} {x : Char} (h : pairChar? a b = some x) :
    String.utf8EncodeChar x = [a, b] := by
  unfold pairChar? isTail at h
  split at h
  case isTrue hc =>
    simp only [Bool.and_eq_true, decide_eq_true_eq, UInt8.le_iff_toNat_le,
      UInt8.reduceToNat] at hc
    cases h
    have hv : (a.toNat % 0x20 * 0x40 + tailBits b).isValidChar := by
      unfold Nat.isValidChar tailBits
      omega
    unfold String.utf8EncodeChar
    rw [val_ofNat hv]
    unfold tailBits
    dsimp only
    rw [if_neg (by omega), if_pos (by omega)]
    have h₁ : (a.toNat % 32 * 64 + b.toNat % 64) / 64 % 32 + 192 = a.toNat := by omega
    have h₂ : (a.toNat % 32 * 64 + b.toNat % 64) % 64 + 128 = b.toNat := by omega
    rw [h₁, h₂, UInt8.ofNat_toNat, UInt8.ofNat_toNat]
  case isFalse => cases h

/-- The character of three bytes is encoded by them. -/
theorem encode_of_tripleChar? {a b c : UInt8} {x : Char} (h : tripleChar? a b c = some x) :
    String.utf8EncodeChar x = [a, b, c] := by
  unfold tripleChar? isTail at h
  split at h
  case isTrue hc =>
    simp only [Bool.and_eq_true, Bool.or_eq_true, bne_iff_ne, ne_eq, decide_eq_true_eq,
      UInt8.le_iff_toNat_le, ← UInt8.toNat_inj, UInt8.reduceToNat] at hc
    cases h
    have hv : ((a.toNat % 0x10 * 0x40 + tailBits b) * 0x40 + tailBits c).isValidChar := by
      unfold Nat.isValidChar tailBits
      omega
    unfold String.utf8EncodeChar
    rw [val_ofNat hv]
    unfold tailBits
    generalize hn : (a.toNat % 16 * 64 + b.toNat % 64) * 64 + c.toNat % 64 = n
    dsimp only
    rw [if_neg (by omega), if_neg (by omega), if_pos (by omega)]
    have h₁ : n / 4096 % 16 + 224 = a.toNat := by omega
    have h₂ : n / 64 % 64 + 128 = b.toNat := by omega
    have h₃ : n % 64 + 128 = c.toNat := by omega
    rw [h₁, h₂, h₃, UInt8.ofNat_toNat, UInt8.ofNat_toNat, UInt8.ofNat_toNat]
  case isFalse => cases h

/-- The character of four bytes is encoded by them. -/
theorem encode_of_quadChar? {a b c d : UInt8} {x : Char} (h : quadChar? a b c d = some x) :
    String.utf8EncodeChar x = [a, b, c, d] := by
  unfold quadChar? isTail at h
  split at h
  case isTrue hc =>
    simp only [Bool.and_eq_true, Bool.or_eq_true, bne_iff_ne, ne_eq, decide_eq_true_eq,
      UInt8.le_iff_toNat_le, ← UInt8.toNat_inj, UInt8.reduceToNat] at hc
    cases h
    have hv : (((a.toNat % 0x08 * 0x40 + tailBits b) * 0x40 + tailBits c) * 0x40 +
        tailBits d).isValidChar := by
      unfold Nat.isValidChar tailBits
      omega
    unfold String.utf8EncodeChar
    rw [val_ofNat hv]
    unfold tailBits
    generalize hn : ((a.toNat % 8 * 64 + b.toNat % 64) * 64 + c.toNat % 64) * 64 +
      d.toNat % 64 = n
    dsimp only
    rw [if_neg (by omega), if_neg (by omega), if_neg (by omega)]
    have h₁ : n / 262144 % 8 + 240 = a.toNat := by omega
    have h₂ : n / 4096 % 64 + 128 = b.toNat := by omega
    have h₃ : n / 64 % 64 + 128 = c.toNat := by omega
    have h₄ : n % 64 + 128 = d.toNat := by omega
    rw [h₁, h₂, h₃, h₄, UInt8.ofNat_toNat, UInt8.ofNat_toNat, UInt8.ofNat_toNat,
      UInt8.ofNat_toNat]
  case isFalse => cases h

/-! ## Nothing is lost -/

@[simp] theorem glyphBytes_cons (g : Glyph) (gs : List Glyph) :
    glyphBytes (g :: gs) = g.bytes ++ glyphBytes gs := rfl

@[simp] theorem glyphBytes_append (gs hs : List Glyph) :
    glyphBytes (gs ++ hs) = glyphBytes gs ++ glyphBytes hs :=
  List.flatMap_append

/-- Every glyph stands for at least one byte. -/
theorem Glyph.bytes_ne_nil (g : Glyph) : g.bytes ≠ [] := by
  cases g with
  | char c => exact String.utf8EncodeChar_ne_nil
  | stray b => exact List.cons_ne_nil b []

/-- Only the empty row of glyphs has no bytes. -/
theorem eq_nil_of_glyphBytes {gs : List Glyph} (h : glyphBytes gs = []) : gs = [] := by
  cases gs with
  | nil => rfl
  | cons g gs => exact absurd (List.append_eq_nil_iff.1 h).1 g.bytes_ne_nil

/-- A byte below `0x80` is a glyph by itself. -/
theorem decode_ascii {a : UInt8} (ha : a < 0x80) (s : Bytes) :
    decode (a :: s) = .char (Char.ofNat a.toNat) :: decode s := by
  rw [decode.eq_def]
  simp only [ha, if_true]

/-- Two bytes that make a character are read as it. -/
theorem decode_pair {a b : UInt8} {x : Char} (ha : ¬ a < 0x80) (hx : pairChar? a b = some x)
    (s : Bytes) : decode (a :: b :: s) = .char x :: decode s := by
  rw [decode.eq_def]
  simp only [ha, if_false, hx]

/-- Three bytes that make a character are read as it. -/
theorem decode_triple {a b c : UInt8} {x : Char} (ha : ¬ a < 0x80) (hb : pairChar? a b = none)
    (hx : tripleChar? a b c = some x) (s : Bytes) :
    decode (a :: b :: c :: s) = .char x :: decode s := by
  rw [decode.eq_def]
  simp only [ha, if_false, hb, hx]

/-- Four bytes that make a character are read as it. -/
theorem decode_quad {a b c d : UInt8} {x : Char} (ha : ¬ a < 0x80) (hb : pairChar? a b = none)
    (hc : tripleChar? a b c = none) (hx : quadChar? a b c d = some x) (s : Bytes) :
    decode (a :: b :: c :: d :: s) = .char x :: decode s := by
  rw [decode.eq_def]
  simp only [ha, if_false, hb, hc, hx]

/-- A byte that makes no character with the bytes after it. -/
structure StandsAlone (a : UInt8) (s : Bytes) : Prop where
  /-- It is no character by itself. -/
  one : ¬ a < 0x80
  /-- It makes none with the next byte. -/
  two : ∀ b t, s = b :: t → pairChar? a b = none
  /-- It makes none with the next two bytes. -/
  three : ∀ b c t, s = b :: c :: t → tripleChar? a b c = none
  /-- It makes none with the next three bytes. -/
  four : ∀ b c d t, s = b :: c :: d :: t → quadChar? a b c d = none

/-- A byte that makes no character is a stray glyph. -/
theorem decode_stray {a : UInt8} {s : Bytes} (h : StandsAlone a s) :
    decode (a :: s) = .stray a :: decode s := by
  rw [decode.eq_def]
  simp only [h.one, if_false]
  match s, h with
  | [], _ => rfl
  | b :: s, h =>
    simp only [h.two b s rfl]
    match s, h with
    | [], _ => rfl
    | c :: s, h =>
      simp only [h.three b c s rfl]
      match s, h with
      | [], _ => rfl
      | d :: s, h => simp only [h.four b c d s rfl]

/-- Reading a text glyph by glyph: what holds of the empty text, and of a text whenever it
holds of what follows the first glyph, holds of every text. -/
theorem decode_induction {P : Bytes → Prop} (nil : P [])
    (ascii : ∀ a s, a < 0x80 → P s → P (a :: s))
    (pair : ∀ a b x s, ¬ a < 0x80 → pairChar? a b = some x → P s → P (a :: b :: s))
    (triple : ∀ a b c x s, ¬ a < 0x80 → pairChar? a b = none → tripleChar? a b c = some x →
      P s → P (a :: b :: c :: s))
    (quad : ∀ a b c d x s, ¬ a < 0x80 → pairChar? a b = none → tripleChar? a b c = none →
      quadChar? a b c d = some x → P s → P (a :: b :: c :: d :: s))
    (stray : ∀ a s, StandsAlone a s → P s → P (a :: s)) (s : Bytes) : P s := by
  induction s using decode.induct with
  | case1 => exact nil
  | case2 a s ha ih => exact ascii a s ha ih
  | case3 a ha => exact stray a [] ⟨ha, nofun, nofun, nofun⟩ nil
  | case4 a ha b s x hx ih => exact pair a b x s ha hx ih
  | case5 a ha b hb ih =>
    refine stray a [b] ⟨ha, ?_, nofun, nofun⟩ ih
    rintro _ _ ⟨⟩
    exact hb
  | case6 a ha b hb c s x hx ih => exact triple a b c x s ha hb hx ih
  | case7 a ha b hb c hc ih =>
    refine stray a [b, c] ⟨ha, ?_, ?_, nofun⟩ ih
    · rintro _ _ ⟨⟩
      exact hb
    · rintro _ _ _ ⟨⟩
      exact hc
  | case8 a ha b hb c hc d s x hx ih => exact quad a b c d x s ha hb hc hx ih
  | case9 a ha b hb c hc d s hd ih =>
    refine stray a (b :: c :: d :: s) ⟨ha, ?_, ?_, ?_⟩ ih
    · rintro _ _ ⟨⟩
      exact hb
    · rintro _ _ _ ⟨⟩
      exact hc
    · rintro _ _ _ _ ⟨⟩
      exact hd

/-- The glyphs of a text spell the text. -/
theorem glyphBytes_decode (s : Bytes) : glyphBytes (decode s) = s := by
  induction s using decode_induction with
  | nil => rfl
  | ascii a s ha ih =>
    rw [decode_ascii ha, glyphBytes_cons, ih, Glyph.bytes, encode_ascii ha]
    rfl
  | pair a b x s ha hx ih =>
    rw [decode_pair ha hx, glyphBytes_cons, ih, Glyph.bytes, encode_of_pairChar? hx]
    rfl
  | triple a b c x s ha hb hx ih =>
    rw [decode_triple ha hb hx, glyphBytes_cons, ih, Glyph.bytes, encode_of_tripleChar? hx]
    rfl
  | quad a b c d x s ha hb hc hx ih =>
    rw [decode_quad ha hb hc hx, glyphBytes_cons, ih, Glyph.bytes, encode_of_quadChar? hx]
    rfl
  | stray a s h ih =>
    rw [decode_stray h, glyphBytes_cons, ih]
    rfl

/-! ## Cutting a text -/

/-- A byte that continues no character is the second of no pair. -/
theorem pairChar?_eq_none {a b : UInt8} (h : isTail b = false) : pairChar? a b = none := by
  simp [pairChar?, h]

/-- Three bytes of which one but the first continues no character make no character. -/
theorem tripleChar?_eq_none {a b c : UInt8} (h : isTail b = false ∨ isTail c = false) :
    tripleChar? a b c = none := by
  rcases h with h | h <;> simp [tripleChar?, h]

/-- Four bytes of which one but the first continues no character make no character. -/
theorem quadChar?_eq_none {a b c d : UInt8}
    (h : isTail b = false ∨ isTail c = false ∨ isTail d = false) : quadChar? a b c d = none := by
  rcases h with h | h | h <;> simp [quadChar?, h]

/-- A byte that stands alone still does when a text is put after the text it is in, unless
that text continues a character. -/
theorem StandsAlone.append {a : UInt8} {s t : Bytes} (h : StandsAlone a s)
    (ht : ∀ b ∈ t.head?, isTail b = false) : StandsAlone a (s ++ t) := by
  refine ⟨h.one, ?_, ?_, ?_⟩
  · intro b u hu
    match s, h with
    | [], _ =>
      obtain rfl : t = b :: u := hu
      exact pairChar?_eq_none (ht b rfl)
    | b' :: s, h =>
      obtain ⟨rfl, -⟩ := List.cons.inj hu
      exact h.two b' s rfl
  · intro b c u hu
    match s, h with
    | [], _ =>
      obtain rfl : t = b :: c :: u := hu
      exact tripleChar?_eq_none (.inl (ht b rfl))
    | [b'], _ =>
      obtain ⟨rfl, rfl⟩ := List.cons.inj hu
      exact tripleChar?_eq_none (.inr (ht c rfl))
    | b' :: c' :: s, h =>
      obtain ⟨rfl, rfl, -⟩ : b' = b ∧ c' = c ∧ s ++ t = u := by simpa using hu
      exact h.three b' c' s rfl
  · intro b c d u hu
    match s, h with
    | [], _ =>
      obtain rfl : t = b :: c :: d :: u := hu
      exact quadChar?_eq_none (.inl (ht b rfl))
    | [b'], _ =>
      obtain ⟨rfl, rfl⟩ := List.cons.inj hu
      exact quadChar?_eq_none (.inr (.inl (ht c rfl)))
    | [b', c'], _ =>
      obtain ⟨rfl, rfl, rfl⟩ : b' = b ∧ c' = c ∧ t = d :: u := by simpa using hu
      exact quadChar?_eq_none (.inr (.inr (ht d rfl)))
    | b' :: c' :: d' :: s, h =>
      obtain ⟨rfl, rfl, rfl, -⟩ : b' = b ∧ c' = c ∧ d' = d ∧ s ++ t = u := by simpa using hu
      exact h.four b' c' d' s rfl

/-- A text can be cut before a byte that continues no character. -/
theorem decode_append {s t : Bytes} (ht : ∀ b ∈ t.head?, isTail b = false) :
    decode (s ++ t) = decode s ++ decode t := by
  induction s using decode_induction with
  | nil => rfl
  | ascii a s ha ih => rw [List.cons_append, decode_ascii ha, decode_ascii ha, ih]; rfl
  | pair a b x s ha hx ih =>
    rw [List.cons_append, List.cons_append, decode_pair ha hx, decode_pair ha hx, ih]
    rfl
  | triple a b c x s ha hb hx ih =>
    simp only [List.cons_append, decode_triple ha hb hx, ih]
  | quad a b c d x s ha hb hc hx ih =>
    simp only [List.cons_append, decode_quad ha hb hc hx, ih]
  | stray a s h ih =>
    rw [List.cons_append, decode_stray h, decode_stray (h.append ht), ih]
    rfl

/-- A byte below `0x80` continues no character. -/
theorem isTail_of_ascii {b : UInt8} (hb : b < 0x80) : isTail b = false := by
  unfold isTail
  have h : ¬ 0x80 ≤ b := UInt8.not_le.2 hb
  rw [decide_eq_false h, Bool.false_and]

/-- A byte below `0x80` is cut off on both sides. -/
theorem decode_append_ascii (s : Bytes) {b : UInt8} (hb : b < 0x80) (t : Bytes) :
    decode (s ++ b :: t) = decode s ++ .char (Char.ofNat b.toNat) :: decode t := by
  rw [decode_append, decode_ascii hb]
  rintro _ ⟨⟩
  exact isTail_of_ascii hb

/-! ## Stretches of a text -/

/-- A byte that stands alone still does when the text after it is cut short. -/
theorem StandsAlone.of_append {a : UInt8} {s t : Bytes} (h : StandsAlone a (s ++ t)) :
    StandsAlone a s := by
  refine ⟨h.one, ?_, ?_, ?_⟩
  · rintro b u rfl
    exact h.two b (u ++ t) rfl
  · rintro b c u rfl
    exact h.three b c (u ++ t) rfl
  · rintro b c d u rfl
    exact h.four b c d (u ++ t) rfl

/-- A text starts with a glyph, and still does when it is cut short after the glyph. -/
theorem exists_first_glyph {s : Bytes} (hs : s ≠ []) :
    ∃ g t, s = Glyph.bytes g ++ t ∧
      ∀ u v, t = u ++ v → decode (g.bytes ++ u) = g :: decode u := by
  induction s using decode_induction with
  | nil => exact absurd rfl hs
  | ascii a s ha _ =>
    refine ⟨.char (Char.ofNat a.toNat), s, ?_, fun u v _ => ?_⟩
    · rw [Glyph.bytes, encode_ascii ha, List.singleton_append]
    · rw [Glyph.bytes, encode_ascii ha, List.singleton_append, decode_ascii ha]
  | pair a b x s ha hx _ =>
    refine ⟨.char x, s, ?_, fun u v _ => ?_⟩
    · rw [Glyph.bytes, encode_of_pairChar? hx]
      rfl
    · rw [Glyph.bytes, encode_of_pairChar? hx]
      exact decode_pair ha hx u
  | triple a b c x s ha hb hx _ =>
    refine ⟨.char x, s, ?_, fun u v _ => ?_⟩
    · rw [Glyph.bytes, encode_of_tripleChar? hx]
      rfl
    · rw [Glyph.bytes, encode_of_tripleChar? hx]
      exact decode_triple ha hb hx u
  | quad a b c d x s ha hb hc hx _ =>
    refine ⟨.char x, s, ?_, fun u v _ => ?_⟩
    · rw [Glyph.bytes, encode_of_quadChar? hx]
      rfl
    · rw [Glyph.bytes, encode_of_quadChar? hx]
      exact decode_quad ha hb hc hx u
  | stray a s h _ =>
    refine ⟨.stray a, s, rfl, ?_⟩
    rintro u v rfl
    exact decode_stray h.of_append

/-- A row of glyphs that decoding finds in its own bytes. -/
def IsDecoded (gs : List Glyph) : Prop :=
  decode (glyphBytes gs) = gs

/-- The glyphs of a text are such a row. -/
theorem isDecoded_decode (s : Bytes) : IsDecoded (decode s) := by
  rw [IsDecoded, glyphBytes_decode]

/-- A text whose glyphs are cut in two is cut in two texts with these glyphs. -/
theorem IsDecoded.of_append {gs hs : List Glyph} (h : IsDecoded (gs ++ hs)) :
    IsDecoded gs ∧ IsDecoded hs := by
  induction gs with
  | nil => exact ⟨rfl, h⟩
  | cons g gs ih =>
    have hne : glyphBytes (g :: gs ++ hs) ≠ [] := by
      intro he
      exact List.cons_ne_nil g (gs ++ hs) (eq_nil_of_glyphBytes he)
    obtain ⟨g', t, ht, hcut⟩ := exists_first_glyph hne
    have hwhole : decode (g'.bytes ++ t) = g :: (gs ++ hs) := ht ▸ h
    rw [hcut t [] (List.append_nil t).symm] at hwhole
    obtain ⟨rfl, hrest⟩ := List.cons.inj hwhole
    have hbytes : t = glyphBytes gs ++ glyphBytes hs := by
      rw [← glyphBytes_append, ← hrest, glyphBytes_decode]
    have hmore : IsDecoded (gs ++ hs) := by
      rw [IsDecoded, glyphBytes_append, ← hbytes, hrest]
    obtain ⟨hgs, hhs⟩ := ih hmore
    refine ⟨?_, hhs⟩
    rw [IsDecoded, glyphBytes_cons, hcut _ _ hbytes, hgs]

/-- What is left after the first glyph is read by itself as in the whole. -/
theorem IsDecoded.tail {g : Glyph} {gs : List Glyph} (h : IsDecoded (g :: gs)) : IsDecoded gs :=
  (@IsDecoded.of_append [g] gs h).2

/-- The glyphs before a cut are decoded apart from those after it. -/
theorem IsDecoded.decode_append {gs hs : List Glyph} (h : IsDecoded (gs ++ hs)) :
    decode (glyphBytes gs ++ glyphBytes hs) =
      decode (glyphBytes gs) ++ decode (glyphBytes hs) := by
  obtain ⟨hgs, hhs⟩ := h.of_append
  rw [← glyphBytes_append, h, hgs, hhs]

/-- The character that a byte below `0x80` is. -/
def asciiGlyph (b : UInt8) : Glyph :=
  .char (Char.ofNat b.toNat)

/-- A row of bytes below `0x80` is decoded byte by byte. -/
theorem decode_asciiRow {bs : Bytes} (hbs : ∀ b ∈ bs, b < 0x80) (t : Bytes) :
    decode (bs ++ t) = bs.map asciiGlyph ++ decode t := by
  induction bs with
  | nil => rfl
  | cons b bs ih =>
    have hb : b < 0x80 := hbs b List.mem_cons_self
    have hmore : ∀ c ∈ bs, c < 0x80 := fun c hc => hbs c (List.mem_cons_of_mem b hc)
    rw [List.cons_append, decode_ascii hb, ih hmore]
    rfl

/-- A row of bytes below `0x80` in a text is a row of characters among its glyphs. -/
theorem isInfix_of_isInfix_glyphBytes {gs : List Glyph} (h : IsDecoded gs) {bs : Bytes}
    (hbs : ∀ b ∈ bs, b < 0x80) (hi : bs <:+: glyphBytes gs) : bs.map asciiGlyph <:+: gs := by
  obtain ⟨before, after, hi⟩ := hi
  cases bs with
  | nil => exact ⟨[], gs, rfl⟩
  | cons b bs =>
    have hhead : ∀ c ∈ (b :: bs ++ after).head?, isTail c = false := by
      rintro c ⟨⟩
      exact isTail_of_ascii (hbs b List.mem_cons_self)
    refine ⟨decode before, decode after, ?_⟩
    rw [List.append_assoc, ← decode_asciiRow hbs, ← ShaderFront.decode_append hhead,
      ← List.append_assoc, hi, h]

/-- A byte below `0x80` is in a text only as a character. -/
theorem notMem_glyphBytes {gs : List Glyph} (h : IsDecoded gs) {b : UInt8} (hb : b < 0x80)
    (hg : asciiGlyph b ∉ gs) : b ∉ glyphBytes gs := by
  intro hm
  obtain ⟨before, after, he⟩ := List.append_of_mem hm
  have hi : [b] <:+: glyphBytes gs := ⟨before, after, by rw [he]; simp⟩
  have hrow : ∀ c ∈ [b], c < 0x80 := by
    rintro c hc
    rw [List.mem_singleton.1 hc]
    exact hb
  exact hg ((isInfix_of_isInfix_glyphBytes h hrow hi).mem (List.mem_singleton.2 rfl))

/-- A row of glyphs in a text is a row of bytes in it. -/
theorem glyphBytes_isInfix_of {gs : List Glyph} {s : Bytes} (h : gs <:+: decode s) :
    glyphBytes gs <:+: s := by
  obtain ⟨before, after, h⟩ := h
  refine ⟨glyphBytes before, glyphBytes after, ?_⟩
  rw [← glyphBytes_append, ← glyphBytes_append, h, glyphBytes_decode]

end ShaderFront
