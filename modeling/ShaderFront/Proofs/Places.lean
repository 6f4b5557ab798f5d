import ShaderFront.Proofs.Decoding
import ShaderFront.Source.Position

/-!
# Places in a text

The place after a text can be told by looking at the text as a whole: one line more than
it has line feeds, and one column more than its last line has glyphs. Advancing over the
glyphs one at a time arrives at the same place, and every glyph leads to a later one.
-/

namespace ShaderFront

/-- The bytes of a text after its last line feed. -/
def lastLine (s : Bytes) : Bytes :=
  (s.reverse.takeWhile (· ≠ lineFeed)).reverse

/-- The line and the column after a text, both counted from one. -/
def placeAfter (s : Bytes) : Position :=
  ⟨1 + s.count lineFeed, 1 + (decode (lastLine s)).length⟩

/-- A text is a single line, or it has a last line feed. -/
theorem eq_or_last_lineFeed (s : Bytes) :
    lineFeed ∉ s ∨ ∃ before line, s = before ++ lineFeed :: line ∧ lineFeed ∉ line := by
  induction s with
  | nil => exact .inl List.not_mem_nil
  | cons b s ih =>
    rcases ih with hs | ⟨before, line, rfl, hline⟩
    · by_cases hb : b = lineFeed
      · exact .inr ⟨[], s, by rw [hb]; rfl, hs⟩
      · refine .inl fun hm => ?_
        rcases List.mem_cons.1 hm with h | h
        · exact hb h.symm
        · exact hs h
    · exact .inr ⟨b :: before, line, rfl, hline⟩

/-- Read from its end, a text without line feeds is passed over in a search for one. -/
theorem takeWhile_reverse_append {line : Bytes} (h : lineFeed ∉ line) (s : Bytes) :
    (line.reverse ++ s).takeWhile (· ≠ lineFeed) =
      line.reverse ++ s.takeWhile (· ≠ lineFeed) := by
  apply List.takeWhile_append_of_pos
  intro b hb
  have hne : b ≠ lineFeed := fun he => h (he ▸ List.mem_reverse.1 hb)
  exact decide_eq_true hne

/-- A text without line feeds is its own last line. -/
theorem lastLine_of_notMem {s : Bytes} (h : lineFeed ∉ s) : lastLine s = s := by
  have hall := takeWhile_reverse_append h []
  rw [List.append_nil, List.takeWhile_nil, List.append_nil] at hall
  rw [lastLine, hall, List.reverse_reverse]

/-- The last line starts after the last line feed. -/
theorem lastLine_append_lineFeed (s : Bytes) {line : Bytes} (h : lineFeed ∉ line) :
    lastLine (s ++ lineFeed :: line) = line := by
  have hrev : (s ++ lineFeed :: line).reverse = line.reverse ++ (lineFeed :: s.reverse) := by
    simp
  rw [lastLine, hrev, takeWhile_reverse_append h, List.takeWhile_cons_of_neg (by simp),
    List.append_nil, List.reverse_reverse]

/-- The line feed is decoded as its character. -/
theorem decode_append_lineFeed (s line : Bytes) :
    decode (s ++ lineFeed :: line) = decode s ++ .char '\n' :: decode line :=
  decode_append_ascii s (by decide) line

/-- A text without line feeds has no glyph that ends a line. -/
theorem newline_notMem_decode {s : Bytes} (h : lineFeed ∉ s) : .char '\n' ∉ decode s := by
  intro hm
  obtain ⟨before, after, he⟩ := List.append_of_mem hm
  have hglyph : [.char '\n'] <:+: decode s := ⟨before, after, by rw [he]; simp⟩
  have hbyte : [lineFeed] <:+: s := glyphBytes_isInfix_of hglyph
  exact h (List.IsInfix.mem (List.mem_singleton.2 rfl) hbyte)

namespace Position

/-- Glyphs that end no line only move the column. -/
theorem advanceOver_of_notMem {gs : List Glyph} (h : .char '\n' ∉ gs) (p : Position) :
    p.advanceOver gs = ⟨p.line, p.column + gs.length⟩ := by
  induction gs generalizing p with
  | nil => simp
  | cons g gs ih =>
    have hg : g ≠ .char '\n' := fun he => h (he ▸ List.mem_cons_self)
    have hgs : .char '\n' ∉ gs := fun hm => h (List.mem_cons_of_mem g hm)
    rw [advanceOver_cons, ih hgs, advance, if_neg hg]
    simp only [List.length_cons, mk.injEq, true_and]
    omega

/-- Does a position come before another one, on an earlier line or further left on the same? -/
def Before (p q : Position) : Prop :=
  p.line < q.line ∨ p.line = q.line ∧ p.column < q.column

/-- What comes before a position comes before all that comes after it. -/
theorem Before.trans {p q r : Position} (h : p.Before q) (h' : q.Before r) : p.Before r := by
  unfold Before at *
  omega

/-- A glyph leads to a later position. -/
theorem before_advance (p : Position) (g : Glyph) : p.Before (p.advance g) := by
  unfold advance Before
  split
  · exact .inl (Int.lt_succ p.line)
  · exact .inr ⟨rfl, Int.lt_succ p.column⟩

/-- Glyphs lead to a later position. -/
theorem before_advanceOver (p : Position) (g : Glyph) (gs : List Glyph) :
    p.Before (p.advanceOver (g :: gs)) := by
  induction gs generalizing p g with
  | nil => exact p.before_advance g
  | cons g' gs ih => exact (p.before_advance g).trans (ih (p.advance g) g')

/-- Advancing over the glyphs of a text arrives at the place after it. -/
theorem advanceOver_decode (s : Bytes) : start.advanceOver (decode s) = placeAfter s := by
  rcases eq_or_last_lineFeed s with h | ⟨before, line, rfl, h⟩
  · rw [advanceOver_of_notMem (newline_notMem_decode h), placeAfter, lastLine_of_notMem h,
      List.count_eq_zero.2 h]
    rfl
  · have hbefore := advanceOver_decode before
    rw [decode_append_lineFeed, advanceOver_append, hbefore, advanceOver_cons,
      advanceOver_of_notMem (newline_notMem_decode h), placeAfter, placeAfter,
      lastLine_append_lineFeed before h, advance, if_pos rfl, List.count_append,
      List.count_cons_self, List.count_eq_zero.2 h]
    simp only [mk.injEq, and_true]
    omega
termination_by s.length

end Position

end ShaderFront
