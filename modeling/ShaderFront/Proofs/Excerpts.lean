import Mathlib.Control.Monad.Basic
import ShaderFront.Proofs.Reading
import ShaderFront.Proofs.Viable

/-!
# What diagnostics show

A diagnostic of a source text is about a place in it. The line that it shows is the line
of that place, and the mark stands under the glyph there: the first of the token that is
refused, or of the element that cannot be read. Carriage returns at the end of the line are
not shown, but no token and no such element starts with one, so they never matter, except
that a diagnostic about the end of the text is marked before them.
-/

namespace ShaderFront

/-! ## The line of a place -/

/-- The line with a number, counted from one, of those that the line feeds of a text
separate. -/
structure IsLine (source : Bytes) (number : Int) (line : Bytes) : Prop where
  /-- It is one line. -/
  notMem : lineFeed ∉ line
  /-- It starts at the start of the text or after a line feed, ends at the end of the text or
  before a line feed, and its number counts the line feeds before it. -/
  exists_around : ∃ before after, source = before ++ line ++ after ∧
    number = before.count lineFeed + 1 ∧ (before = [] ∨ before.getLast? = some lineFeed) ∧
    (after = [] ∨ after.head? = some lineFeed)

/-- The first line of a text goes up to the first line feed. -/
theorem getElem?_zero_splitLines (s : Bytes) :
    (splitLines s)[0]? = some (s.takeWhile (· ≠ lineFeed)) := by
  unfold splitLines
  induction s with
  | nil => rfl
  | cons b rest ih =>
    by_cases hb : b = lineFeed
    · simp [splitAtByte, hb]
    · cases hs : splitAtByte lineFeed rest with
      | nil => simp [hs] at ih
      | cons part more =>
        simp only [hs, List.getElem?_cons_zero, Option.some.injEq] at ih
        simp [splitAtByte, hb, hs, ih]

/-- A text without line feeds is passed over in a search for one. -/
theorem takeWhile_lineFeed_append {line : Bytes} (h : lineFeed ∉ line) (s : Bytes) :
    (line ++ s).takeWhile (· ≠ lineFeed) = line ++ s.takeWhile (· ≠ lineFeed) := by
  have hreverse : lineFeed ∉ line.reverse := fun hm => h (List.mem_reverse.1 hm)
  have happend := takeWhile_reverse_append hreverse s
  rwa [List.reverse_reverse] at happend

/-- The line of the place after a text goes on to the next line feed. -/
theorem getElem?_splitLines (before rest : Bytes) :
    (splitLines (before ++ rest))[before.count lineFeed]? =
      some (lastLine before ++ rest.takeWhile (· ≠ lineFeed)) := by
  rcases eq_or_last_lineFeed before with h | ⟨earlier, line, rfl, h⟩
  · rw [lastLine_of_notMem h, List.count_eq_zero.2 h, getElem?_zero_splitLines,
      takeWhile_lineFeed_append h]
  · have hlength : (splitLines earlier).length = (earlier ++ lineFeed :: line).count lineFeed := by
      rw [splitLines, length_splitAtByte, List.count_append, List.count_cons_self,
        List.count_eq_zero.2 h]
    have hsplit : splitLines (earlier ++ lineFeed :: line ++ rest) =
        splitLines earlier ++ splitLines (line ++ rest) := by
      rw [List.append_assoc, List.cons_append]
      exact splitAtByte_append lineFeed earlier (line ++ rest)
    rw [hsplit, ← hlength, List.getElem?_append_right (Nat.le_refl _), Nat.sub_self,
      getElem?_zero_splitLines, lastLine_append_lineFeed earlier h, takeWhile_lineFeed_append h]

/-- A line is found by its number. -/
theorem IsLine.getElem?_splitLines {source line : Bytes} {number : Int}
    (h : IsLine source number line) : (splitLines source)[(number - 1).toNat]? = some line := by
  obtain ⟨hline, before, after, rfl, rfl, hbefore, hafter⟩ := h
  have hindex : ((before.count lineFeed : Int) + 1 - 1).toNat = before.count lineFeed := by omega
  have hlast : lastLine before = [] := by
    rcases hbefore with rfl | hbefore
    · rfl
    · obtain ⟨earlier, rfl⟩ := List.getLast?_eq_some_iff.1 hbefore
      exact lastLine_append_lineFeed earlier List.not_mem_nil
  have hstop : after.takeWhile (· ≠ lineFeed) = [] := by
    rcases hafter with rfl | hafter
    · rfl
    · obtain ⟨tail, rfl⟩ := List.head?_eq_some_iff.1 hafter
      exact List.takeWhile_cons_of_neg (by simp)
  rw [hindex, List.append_assoc, ShaderFront.getElem?_splitLines, hlast,
    takeWhile_lineFeed_append hline, hstop, List.nil_append, List.append_nil]

/-- Where a text is cut between two glyphs, so is its last line. -/
theorem CutsBefore.lastLine {before rest : Bytes} (h : CutsBefore before rest) :
    CutsBefore (lastLine before) rest := by
  rcases eq_or_last_lineFeed before with hline | ⟨earlier, line, rfl, hline⟩
  · rwa [lastLine_of_notMem hline]
  · rw [lastLine_append_lineFeed earlier hline]
    rw [CutsBefore, List.append_assoc, List.cons_append, decode_append_lineFeed,
      decode_append_lineFeed, List.append_assoc, List.cons_append] at h
    exact (List.cons.inj (List.append_cancel_left h)).2

/-- What follows up to the next line feed is cut off there as well. -/
theorem CutsBefore.takeWhile {before rest : Bytes} (h : CutsBefore before rest) :
    CutsBefore before (rest.takeWhile (· ≠ lineFeed)) ∧
      ∃ more, (more = [] ∨ more.head? = some (.char '\n')) ∧
        decode rest = decode (rest.takeWhile (· ≠ lineFeed)) ++ more := by
  have hsplit := List.takeWhile_append_dropWhile (p := (· ≠ lineFeed)) (l := rest)
  cases hd : rest.dropWhile (· ≠ lineFeed) with
  | nil =>
    rw [hd, List.append_nil] at hsplit
    rw [hsplit]
    exact ⟨h, [], .inl rfl, (List.append_nil _).symm⟩
  | cons b tail =>
    have hb : b = lineFeed := by
      have hhead := List.head?_dropWhile_not (fun b => decide (b ≠ lineFeed)) rest
      rw [hd] at hhead
      simpa using hhead
    subst hb
    rw [hd] at hsplit
    generalize rest.takeWhile (· ≠ lineFeed) = line at hsplit
    subst hsplit
    have hcut : decode (line ++ lineFeed :: tail) = decode line ++ decode (lineFeed :: tail) :=
      (decode_append_lineFeed line tail).trans (by rw [decode_ascii (by decide)]; rfl)
    exact ⟨(h.of_append hcut).1, .char '\n' :: decode tail, .inr rfl,
      decode_append_lineFeed line tail⟩

/-! ## Carriage returns at the end -/

/-- How many carriage returns a line ends in. -/
def returnsAtEnd (line : Bytes) : Nat :=
  (line.reverse.takeWhile (· = carriageReturn)).length

/-- A line is what is left without the carriage returns at its end, and those. -/
theorem trimReturns_append (line : Bytes) :
    trimReturns line ++ List.replicate (returnsAtEnd line) carriageReturn = line := by
  have hreturns : line.reverse.takeWhile (· = carriageReturn) =
      List.replicate (returnsAtEnd line) carriageReturn := by
    refine List.eq_replicate_iff.2 ⟨rfl, fun b hb => ?_⟩
    simpa using List.all_eq_true.1 List.all_takeWhile b hb
  have hsplit := List.takeWhile_append_dropWhile (p := (· = carriageReturn)) (l := line.reverse)
  rw [hreturns] at hsplit
  have hreverse := congrArg List.reverse hsplit
  rwa [List.reverse_append, List.reverse_replicate, List.reverse_reverse] at hreverse

/-- The carriage returns at the end are all that is left out of a line. -/
theorem trimReturns_eq {shown : Bytes} (h : shown.getLast? ≠ some carriageReturn) (n : Nat) :
    trimReturns (shown ++ List.replicate n carriageReturn) = shown := by
  have hreturns : ∀ b ∈ List.replicate n carriageReturn, decide (b = carriageReturn) = true := by
    intro b hb
    simpa using List.eq_of_mem_replicate hb
  rw [trimReturns, List.reverse_append, List.reverse_replicate,
    List.dropWhile_append_of_pos hreturns]
  rw [← List.head?_reverse] at h
  cases hr : shown.reverse with
  | nil => exact (List.reverse_eq_nil_iff.1 hr).symm
  | cons b rest =>
    rw [hr] at h
    have hb : b ≠ carriageReturn := fun he => h (congrArg some he)
    rw [List.dropWhile_cons_of_neg (by simpa using hb), ← hr, List.reverse_reverse]

theorem decode_replicate_return (s : Bytes) (n : Nat) :
    decode (s ++ List.replicate n carriageReturn) =
      decode s ++ List.replicate n (.char '\r') := by
  induction n generalizing s with
  | zero => simp
  | succ n ih =>
    have hmore : decode (List.replicate n carriageReturn) = List.replicate n (.char '\r') := ih []
    rw [List.replicate_succ, List.replicate_succ, decode_append_ascii s (by decide), hmore]
    rfl

/-- The glyphs of a line are those that are shown, and its carriage returns. -/
theorem decode_trimReturns (line : Bytes) :
    decode line = decode (trimReturns line) ++
      List.replicate (returnsAtEnd line) (.char '\r') := by
  rw [← decode_replicate_return, trimReturns_append]

/-- A glyph of a line that is no carriage return is shown where it stands. -/
theorem getElem?_decode_trimReturns {line : Bytes} {shown more : List Glyph} {g : Glyph}
    (h : decode line = shown ++ g :: more) (hg : g ≠ .char '\r') :
    (decode (trimReturns line))[shown.length]? = some g := by
  have hat : (decode line)[shown.length]? = some g := by simp [h]
  rw [decode_trimReturns] at hat
  by_cases hlt : shown.length < (decode (trimReturns line)).length
  · rwa [List.getElem?_append_left hlt] at hat
  · rw [List.getElem?_append_right (by omega)] at hat
    exact absurd (List.eq_of_mem_replicate (List.mem_of_getElem? hat)) hg

/-- A line ends in carriage returns if its last byte is one. -/
theorem returnsAtEnd_eq_zero {line : Bytes} :
    returnsAtEnd line = 0 ↔ line.getLast? ≠ some carriageReturn := by
  rw [returnsAtEnd, List.length_eq_zero_iff, ← List.head?_reverse]
  cases line.reverse with
  | nil => simp
  | cons b rest => by_cases hb : b = carriageReturn <;> simp [hb]

theorem getLast?_lastLine (s : Bytes) :
    (lastLine s).getLast? = some carriageReturn ↔ s.getLast? = some carriageReturn := by
  rw [lastLine, List.getLast?_reverse, ← List.head?_reverse]
  cases s.reverse with
  | nil => simp
  | cons b rest =>
    by_cases hb : b = lineFeed
    · subst hb
      simp [lineFeed, carriageReturn]
    · simp [hb]

/-! ## What is shown -/

/-- The line of the place between two texts. -/
def lineAround (before rest : Bytes) : Bytes :=
  lastLine before ++ rest.takeWhile (· ≠ lineFeed)

/-- The line of a place is a line of the text, and its number counts the line feeds before
the place. -/
theorem isLine_lineAround (before rest : Bytes) :
    IsLine (before ++ rest) (before.count lineFeed + 1) (lineAround before rest) := by
  have hafter : rest.dropWhile (· ≠ lineFeed) = [] ∨
      (rest.dropWhile (· ≠ lineFeed)).head? = some lineFeed := by
    have hhead := List.head?_dropWhile_not (fun b => decide (b ≠ lineFeed)) rest
    cases hd : rest.dropWhile (· ≠ lineFeed) with
    | nil => exact .inl rfl
    | cons b tail =>
      rw [hd] at hhead
      exact .inr (by simpa using hhead)
  have hrest : lineFeed ∉ rest.takeWhile (· ≠ lineFeed) := by
    intro hm
    simpa using List.all_eq_true.1 List.all_takeWhile lineFeed hm
  have hsplit := List.takeWhile_append_dropWhile (p := (· ≠ lineFeed)) (l := rest)
  unfold lineAround
  rcases eq_or_last_lineFeed before with h | ⟨earlier, line, rfl, h⟩
  · rw [lastLine_of_notMem h, List.count_eq_zero.2 h]
    refine ⟨?_, [], rest.dropWhile (· ≠ lineFeed), ?_, rfl, .inl rfl, hafter⟩
    · exact List.not_mem_append h hrest
    · rw [List.nil_append, List.append_assoc, hsplit]
  · rw [lastLine_append_lineFeed earlier h]
    refine ⟨?_, earlier ++ [lineFeed], rest.dropWhile (· ≠ lineFeed), ?_, ?_, ?_, hafter⟩
    · exact List.not_mem_append h hrest
    · simp only [List.append_assoc, List.cons_append, List.nil_append, hsplit]
    · simp only [List.count_append, List.count_cons_self, List.count_eq_zero.2 h, List.count_nil]
    · exact .inr (List.getLast?_concat ..)

/-- What is left of a line does not end in a carriage return. -/
theorem getLast?_trimReturns (line : Bytes) :
    (trimReturns line).getLast? ≠ some carriageReturn := by
  rw [trimReturns, List.getLast?_reverse]
  have hhead := List.head?_dropWhile_not (fun b => decide (b = carriageReturn)) line.reverse
  intro h
  rw [h] at hhead
  simp at hhead

/-! ### Numbers -/

theorem utf8EncodeChar_digitChar :
    ∀ n < 10, String.utf8EncodeChar n.digitChar = [Numeral.digit n] := by
  decide

theorem toDigits_of_not_lt {n : Nat} (h : ¬ n < 10) :
    Nat.toDigits 10 n = Nat.toDigits 10 (n / 10) ++ [(n % 10).digitChar] := by
  rw [Nat.toDigits_eq_if (by decide), if_neg h]

/-- A numeral is the usual text of its number. -/
theorem Numeral.ofNat_eq_utf8 (n : Nat) : Numeral.ofNat n = utf8 (toString n) := by
  have htext (n : Nat) :
      utf8 (toString n) = (Nat.toDigits 10 n).flatMap String.utf8EncodeChar := by
    change (String.ofList (Nat.toDigits 10 n)).toList.flatMap String.utf8EncodeChar = _
    rw [String.toList_ofList]
  rw [htext]
  fun_induction Numeral.ofNat n with
  | case1 n h =>
    rw [Nat.toDigits_of_lt_base h, List.flatMap_singleton, utf8EncodeChar_digitChar n h]
  | case2 n h ih =>
    have hdigit := utf8EncodeChar_digitChar (n % 10) (Nat.mod_lt n (by decide))
    rw [ih, toDigits_of_not_lt h, List.flatMap_append, List.flatMap_singleton, hdigit]

theorem Numeral.ofInt_eq_utf8 {i : Int} (h : 0 ≤ i) : Numeral.ofInt i = utf8 (toString i) := by
  obtain ⟨n, rfl⟩ := Int.eq_ofNat_of_zero_le h
  exact Numeral.ofNat_eq_utf8 n

/-- A numeral starts with a digit. -/
theorem Numeral.head?_ofNat (n : Nat) : ∃ d < 10, (Numeral.ofNat n).head? = some (digit d) := by
  fun_induction Numeral.ofNat n with
  | case1 n h => exact ⟨n, h, rfl⟩
  | case2 n h ih =>
    obtain ⟨d, hd, hhead⟩ := ih
    exact ⟨d, hd, by rw [List.head?_append, hhead, Option.some_or]⟩

/-! ### Lines -/

namespace Diagnostic

/-- The five lines of an excerpt. -/
theorem excerpt_eq {number : Int} (h : 0 ≤ number) (message line : Bytes) (column : Nat) :
    let digits := utf8 (toString number)
    excerpt message number line column =
      [utf8 "error: " ++ message,
        utf8 "  --> line " ++ digits ++ utf8 ":" ++ utf8 (toString column),
        utf8 "   |",
        List.replicate (3 - digits.length) blank ++ digits ++ utf8 "| " ++ line,
        utf8 "   | " ++ List.replicate (column - 1) blank ++ utf8 "^"].flatMap
        (· ++ [lineFeed]) := by
  intro digits
  have hfeed : utf8 "\n" = [lineFeed] := rfl
  have hbar : utf8 "   |\n" = utf8 "   |" ++ [lineFeed] := rfl
  have hmark : utf8 "^\n" = utf8 "^" ++ [lineFeed] := rfl
  delta excerpt
  rw [Numeral.ofInt_eq_utf8 h, Numeral.ofNat_eq_utf8, padLeft, blanks, blanks, hfeed, hbar, hmark]
  simp only [List.flatMap_cons, List.flatMap_nil, List.append_assoc, List.append_nil, digits]

/-- The mark stands below the glyph that it is about as long as the number of the line has at
most three digits. What stands before the line is longer for other numbers, and what stands
before the mark is not. -/
theorem length_margin_eq_iff (n : Nat) :
    (padLeft 3 (Numeral.ofNat n) ++ utf8 "| ").length = (utf8 "   | ").length ↔ n < 1000 := by
  have hdigits : (Numeral.ofNat n).length ≤ 3 ↔ n < 1000 := by
    have hlength : (Numeral.ofNat n).length = (Nat.toDigits 10 n).length := by
      fun_induction Numeral.ofNat n with
      | case1 n h => rw [Nat.toDigits_of_lt_base h, List.length_singleton, List.length_singleton]
      | case2 n h ih =>
        rw [toDigits_of_not_lt h, List.length_append, List.length_append, ih,
          List.length_singleton, List.length_singleton]
    rw [hlength]
    exact Nat.length_toDigits_le_iff (by decide) (by decide)
  rw [← hdigits, padLeft, List.length_append, List.length_append, length_blanks]
  change 3 - (Numeral.ofNat n).length + (Numeral.ofNat n).length + 2 = 5 ↔ _
  omega

/-- A headline that tells a place starts with a number, and an excerpt does not. -/
theorem excerpt_ne_headline {d : Diagnostic} (h : 1 ≤ d.span.start.line) (message line : Bytes)
    (column : Nat) : excerpt message d.span.start.line line column ≠ d.headline := by
  intro he
  have hnumber : 0 ≤ d.span.start.line := Int.le_trans (by decide) h
  have hexcerpt : (excerpt message d.span.start.line line column).head? = some 0x65 := by
    have herror : (utf8 "error: ").head? = some 0x65 := by decide
    rw [excerpt_eq hnumber, List.flatMap_cons]
    simp only [List.append_assoc, List.head?_append, herror, Option.some_or]
  obtain ⟨n, hn⟩ := Int.eq_ofNat_of_zero_le hnumber
  obtain ⟨digit, hdigit, hhead⟩ := Numeral.head?_ofNat n
  have hheadline : d.headline.head? = some (Numeral.digit digit) := by
    have hline : d.span.start.line ≠ 0 := by omega
    rw [headline, if_neg hline, Position.text, hn]
    change (Numeral.ofNat n ++ _ ++ _ ++ _ ++ _).head? = _
    simp only [List.append_assoc, List.head?_append, hhead, Option.some_or]
  rw [he, hheadline] at hexcerpt
  have hletter : ∀ k < 10, Numeral.digit k ≠ 0x65 := by decide
  exact hletter digit hdigit (Option.some.inj hexcerpt)

end Diagnostic

/-! ### Places -/

/-- A diagnostic about the place between two parts of its source text. -/
structure Diagnostic.LiesBetween (d : Diagnostic) (read rest : List Glyph) : Prop where
  /-- There is a source text. -/
  source : d.source ≠ []
  /-- The parts make up its glyphs. -/
  glyphs : decode d.source = read ++ rest
  /-- The diagnostic is about the place after the first of them. -/
  start : d.span.start = Position.start.advanceOver read

namespace Diagnostic.LiesBetween

variable {d : Diagnostic} {read rest : List Glyph}

theorem isDecoded (h : d.LiesBetween read rest) : IsDecoded (read ++ rest) :=
  h.glyphs ▸ isDecoded_decode d.source

theorem source_eq (h : d.LiesBetween read rest) :
    d.source = glyphBytes read ++ glyphBytes rest := by
  rw [← glyphBytes_append, ← h.glyphs, glyphBytes_decode]

theorem start_eq (h : d.LiesBetween read rest) :
    d.span.start = placeAfter (glyphBytes read) := by
  rw [h.start, ← Position.advanceOver_decode, h.isDecoded.of_append.1]

/-- The line that the diagnostic is about is one of the source text. -/
theorem line_bounds (h : d.LiesBetween read rest) :
    1 ≤ d.span.start.line ∧ d.span.start.line ≤ d.source.count lineFeed + 1 := by
  rw [h.start_eq, h.source_eq, List.count_append]
  simp only [placeAfter]
  omega

/-- It is the line around the place. -/
theorem line_eq (h : d.LiesBetween read rest) :
    (splitLines d.source)[(d.span.start.line - 1).toNat]? =
      some (lineAround (glyphBytes read) (glyphBytes rest)) := by
  have hindex : (d.span.start.line - 1).toNat = (glyphBytes read).count lineFeed := by
    rw [h.start_eq]
    simp only [placeAfter]
    omega
  rw [hindex, h.source_eq]
  exact getElem?_splitLines _ _

theorem isLine (h : d.LiesBetween read rest) :
    IsLine d.source d.span.start.line (lineAround (glyphBytes read) (glyphBytes rest)) := by
  have hline := isLine_lineAround (glyphBytes read) (glyphBytes rest)
  rw [← h.source_eq] at hline
  rw [h.start_eq]
  simp only [placeAfter]
  rwa [Int.add_comm]

/-- The line is shown without the carriage returns at its end. -/
theorem withContext_eq (h : d.LiesBetween read rest) :
    let shown := trimReturns (lineAround (glyphBytes read) (glyphBytes rest))
    d.withContext =
      excerpt d.message d.span.start.line shown (shownColumn shown d.span.start.column) := by
  have hline : d.sourceLine? =
      some (trimReturns (lineAround (glyphBytes read) (glyphBytes rest))) := by
    have hbounds := h.line_bounds.1
    rw [sourceLine?, if_neg, h.line_eq]
    · rfl
    · simp only [Bool.or_eq_true, List.isEmpty_iff, decide_eq_true_eq, not_or, h.source,
        not_false_eq_true, true_and]
      omega
  simp only [withContext, hline]

/-- A glyph that ends no line is marked where it stands. -/
theorem marks_glyph {g : Glyph} (h : d.LiesBetween read (g :: rest)) (hn : g ≠ .char '\n')
    (hr : g ≠ .char '\r') :
    let shown := trimReturns (lineAround (glyphBytes read) (glyphBytes (g :: rest)))
    (shownColumn shown d.span.start.column : Int) = d.span.start.column ∧
      1 ≤ shownColumn shown d.span.start.column ∧
      (decode shown)[shownColumn shown d.span.start.column - 1]? = some g := by
  intro shown
  have hcut : CutsBefore (glyphBytes read) (glyphBytes (g :: rest)) := h.isDecoded.decode_append
  obtain ⟨hline, more, hmore, hrest⟩ := hcut.lastLine.takeWhile
  obtain ⟨first, hfirst⟩ : ∃ first,
      decode ((glyphBytes (g :: rest)).takeWhile (· ≠ lineFeed)) = g :: first := by
    rw [h.isDecoded.of_append.2] at hrest
    cases hline : decode ((glyphBytes (g :: rest)).takeWhile (· ≠ lineFeed)) with
    | nil =>
      -- The line would end before the glyph, which is no line feed.
      rw [hline, List.nil_append] at hrest
      subst hrest
      rcases hmore with hnil | hhead
      · cases hnil
      · exact absurd (Option.some.inj hhead) hn
    | cons first tail =>
      rw [hline, List.cons_append] at hrest
      obtain ⟨rfl, -⟩ := List.cons.inj hrest
      exact ⟨tail, rfl⟩
  have hglyph : (decode shown)[(decode (lastLine (glyphBytes read))).length]? = some g := by
    have hglyphs := hline.trans (congrArg (_ ++ ·) hfirst)
    exact getElem?_decode_trimReturns hglyphs hr
  have hlt := (List.getElem?_eq_some_iff.1 hglyph).1
  have hcolumn : d.span.start.column =
      1 + ((decode (lastLine (glyphBytes read))).length : Int) := by
    rw [h.start_eq]
    rfl
  have hshown : shownColumn shown d.span.start.column =
      (decode (lastLine (glyphBytes read))).length + 1 := by
    rw [hcolumn, shownColumn]
    omega
  rw [hshown, hcolumn]
  refine ⟨by omega, by omega, ?_⟩
  rw [Nat.add_sub_cancel]
  exact hglyph

/-- The end of the text is marked just after what is shown, which is where it is unless the
text ends in a carriage return. -/
theorem marks_end (h : d.LiesBetween read []) :
    let shown := trimReturns (lineAround (glyphBytes read) (glyphBytes []))
    shownColumn shown d.span.start.column = (decode shown).length + 1 ∧
      ((shownColumn shown d.span.start.column : Int) = d.span.start.column ↔
        d.source.getLast? ≠ some carriageReturn) := by
  intro shown
  have hline : shown = trimReturns (lastLine (glyphBytes read)) :=
    congrArg trimReturns (List.append_nil _)
  have hlength := congrArg List.length (decode_trimReturns (lastLine (glyphBytes read)))
  rw [List.length_append, List.length_replicate, ← hline] at hlength
  have hcolumn : d.span.start.column =
      1 + ((decode (lastLine (glyphBytes read))).length : Int) := by
    rw [h.start_eq]
    rfl
  have hshown : shownColumn shown d.span.start.column = (decode shown).length + 1 := by
    rw [hcolumn, shownColumn]
    omega
  have hends : returnsAtEnd (lastLine (glyphBytes read)) = 0 ↔
      d.source.getLast? ≠ some carriageReturn := by
    rw [returnsAtEnd_eq_zero, ne_eq, getLast?_lastLine, h.source_eq]
    simp [glyphBytes]
  refine ⟨hshown, ?_⟩
  rw [hshown, hcolumn, ← hends]
  omega

end Diagnostic.LiesBetween

/-! ## What is wrong -/

/-- What a diagnostic of a source text is about, with the first glyph of it unless it is the
end of the text. -/
inductive FailsAt (o : Options) (source : Bytes) (d : Diagnostic) : Option Glyph → Prop
  /-- The element at which scanning breaks off. -/
  | element (b : Break (decode source)) (hd : tokenize source = .error d)
    (hb : d = (b.fault .start).diagnostic source) : FailsAt o source d (some b.first)
  /-- The first token that is refused. -/
  | token {tokens : List Token} {t : Token} {g : Glyph} (hscan : tokenize source = .ok tokens)
    (ht : tokens[(Parser.fresh o tokens).parse.2.cursor]? = some t) (he : t.symbol ≠ .eof)
    (hpos : d.span.start = t.pos) (hg : (decode t.lexeme).head? = some g) :
    FailsAt o source d (some g)
  /-- The end, where the tokens are refused as a whole. -/
  | ending {tokens : List Token} {t : Token} (hscan : tokenize source = .ok tokens)
    (ht : tokens[(Parser.fresh o tokens).parse.2.cursor]? = some t) (he : t.symbol = .eof)
    (hpos : d.span.start = t.pos) : FailsAt o source d none

/-- A blank starts neither a token nor an element that cannot be read. -/
theorem ne_of_element {g : Glyph} {rest : List Glyph} {e : Element} (h : element g rest = e)
    (he : e.reading ≠ .gap) {c : Char} (hc : isGap c = true) : g ≠ .char c := by
  rintro rfl
  rw [element_blank hc] at h
  subst h
  exact he rfl

/-- A text that is refused is not empty. -/
theorem ne_nil_of_refused {o : Options} {source : Bytes} {tokens : List Token} {d : Diagnostic}
    (h : tokenize source = .ok tokens) (hp : (Parser.fresh o tokens).parse.1 = .error d) :
    source ≠ [] := by
  rintro rfl
  have hend : tokenize [] = .ok [Token.eof .start] := by
    rw [tokenize_eq_ok, decode, scan]
  rw [hend] at h
  cases h
  cases hp

/-- The refused token is one of the row. -/
theorem exists_refused {o : Options} {source : Bytes} {tokens : List Token} {d : Diagnostic}
    (h : tokenize source = .ok tokens) (hp : (Parser.fresh o tokens).parse.1 = .error d) :
    ∃ t, tokens[(Parser.fresh o tokens).parse.2.cursor]? = some t ∧ d.span.start = t.pos := by
  obtain ⟨taken, rest, next, htokens, htaken, -, hcursor, -, hd⟩ := exists_of_parse_error hp
  obtain ⟨l, -, hread⟩ := exists_layout_of_tokenize h
  cases rest with
  | nil =>
    -- The end token would be among those that are taken.
    have hmem : Token.eof (placeAfter ([] ++ l.text)) ∈ taken := by
      rw [List.append_nil] at htokens
      rw [← htokens, hread.tokens]
      exact List.mem_append_right _ (List.mem_singleton.2 rfl)
    exact absurd rfl (State.symbol_ne_eof_of_takeAll? htaken _ hmem)
  | cons t rest =>
    refine ⟨t, ?_, ?_⟩
    · rw [hcursor, htokens]
      simp
    · rw [hd]
      rfl

/-- A text that is not read fails at a place in it. What follows there starts with the glyph
of what it fails at, which ends no line. -/
theorem exists_failsAt {o : Options} {source : Bytes} {f : Failure}
    (h : parseSource o source = .error f) :
    f.diagnostic.source = source ∧ ∃ read rest, FailsAt o source f.diagnostic rest.head? ∧
      f.diagnostic.LiesBetween read rest ∧
      ∀ g ∈ rest.head?, g ≠ .char '\n' ∧ g ≠ .char '\r' := by
  rcases broken_or_refused_of_parseSource h with ⟨d, hd, rfl⟩ | ⟨tokens, d, ht, hp, rfl⟩
  · obtain ⟨fault, hfault, hfd⟩ := tokenize_eq_error.1 hd
    obtain ⟨b, rfl⟩ := exists_break_of_scan hfault
    have hne : source ≠ [] := by
      rintro rfl
      exact absurd b.glyphs (by simp [decode])
    subst hfd
    refine ⟨rfl, b.read, b.first :: b.rest, .element b hd rfl, ⟨hne, b.glyphs, rfl⟩, ?_⟩
    rintro g ⟨⟩
    exact ⟨ne_of_element b.faulty (by simp) rfl, ne_of_element b.faulty (by simp) rfl⟩
  · obtain ⟨t, hcursor, hpos⟩ := exists_refused ht hp
    obtain ⟨read, rest, hglyphs, hplace, hrest⟩ :=
      exists_place_of_scan (tokenize_eq_ok.1 ht) (List.mem_of_getElem? hcursor)
    have hlies : (d.withSource source).LiesBetween read rest :=
      ⟨ne_nil_of_refused ht hp, hglyphs, hpos.trans hplace⟩
    refine ⟨rfl, read, rest, ?_, hlies, ?_⟩
    · rcases hrest with ⟨rfl, he⟩ | ⟨g, more, n, rfl, he, hlexeme⟩
      · exact .ending ht hcursor he hpos
      · have hdecoded := hlies.isDecoded.of_append.2
        refine .token ht hcursor (element_isSpelledBy hdecoded he).ne_eof hpos ?_
        rw [← List.take_append_drop n more, ← List.cons_append] at hdecoded
        rw [hlexeme, hdecoded.of_append.1]
        rfl
    · rcases hrest with ⟨rfl, -⟩ | ⟨g, more, n, rfl, he, -⟩
      · rintro g ⟨⟩
      · rintro g ⟨⟩
        exact ⟨ne_of_element he (by simp) rfl, ne_of_element he (by simp) rfl⟩

/-- A diagnostic of a source text has the text and shows a line of it, without the carriage
returns at its end: the message, the number of the line with the column of the mark, the line
after its number, and the mark. Unless the text fails at its end, the mark stands under the
column that the diagnostic names, and there stands the first glyph of the token that is refused
or of the element that cannot be read. At the end of the text the mark stands just after what
is shown, and this is the column that the diagnostic names unless the text ends in a carriage
return. -/
theorem parseSource_error_context (o : Options) (source : Bytes) (f : Failure)
    (h : parseSource o source = .error f) :
    let d := f.diagnostic
    let digits := utf8 (toString d.span.start.line)
    d.source = source ∧ 1 ≤ d.span.start.line ∧
      d.span.start.line ≤ source.count lineFeed + 1 ∧ d.withContext ≠ d.headline ∧
      ∃ (offender : Option Glyph) (shown : Bytes) (returns column : Nat),
        FailsAt o source d offender ∧
        IsLine source d.span.start.line (shown ++ List.replicate returns carriageReturn) ∧
        shown.getLast? ≠ some carriageReturn ∧
        d.withContext =
          [utf8 "error: " ++ d.message,
            utf8 "  --> line " ++ digits ++ utf8 ":" ++ utf8 (toString column),
            utf8 "   |",
            List.replicate (3 - digits.length) blank ++ digits ++ utf8 "| " ++ shown,
            utf8 "   | " ++ List.replicate (column - 1) blank ++ utf8 "^"].flatMap
            (· ++ [lineFeed]) ∧
        (∀ g ∈ offender, (column : Int) = d.span.start.column ∧ 1 ≤ column ∧
          (decode shown)[column - 1]? = some g) ∧
        (offender = none → column = (decode shown).length + 1 ∧
          ((column : Int) = d.span.start.column ↔
            source.getLast? ≠ some carriageReturn)) := by
  intro d digits
  obtain ⟨hsource, read, rest, hfails, hlies, hends⟩ := exists_failsAt h
  have hbounds := hlies.line_bounds
  have hline := hlies.isLine
  rw [hsource] at hbounds hline
  rw [← trimReturns_append (lineAround (glyphBytes read) (glyphBytes rest))] at hline
  have hcontext := hlies.withContext_eq
  generalize hshown : trimReturns (lineAround (glyphBytes read) (glyphBytes rest)) = shown
    at hline hcontext
  refine ⟨hsource, hbounds.1, hbounds.2, ?_, ?_⟩
  · rw [hcontext]
    exact Diagnostic.excerpt_ne_headline hbounds.1 _ _ _
  refine ⟨rest.head?, shown, _, Diagnostic.shownColumn shown d.span.start.column, hfails, hline,
    ?_, ?_, ?_, ?_⟩
  · rw [← hshown]
    exact getLast?_trimReturns _
  · have hnumber : 0 ≤ d.span.start.line := Int.le_trans (by decide) hbounds.1
    exact hcontext.trans (Diagnostic.excerpt_eq hnumber _ _ _)
  · intro g hg
    obtain ⟨more, rfl⟩ := List.head?_eq_some_iff.1 hg
    obtain ⟨hn, hr⟩ := hends g rfl
    rw [← hshown]
    exact hlies.marks_glyph hn hr
  · intro hnone
    obtain rfl := List.head?_eq_none_iff.1 hnone
    rw [← hsource, ← hshown]
    exact hlies.marks_end

/-- Two names in a row, on a line with a carriage return at its end. -/
def spoiltText : Bytes := utf8 "a;\r\n é é\r\n"

/-- The tokens of that text, of which the second name is refused. -/
def spoiltTokens : List Token :=
  [⟨.ident (utf8 "a"), utf8 "a", ⟨1, 1⟩⟩, ⟨.punct .semicolon, utf8 ";", ⟨1, 2⟩⟩,
    ⟨.ident (utf8 "é"), utf8 "é", ⟨2, 2⟩⟩, ⟨.ident (utf8 "é"), utf8 "é", ⟨2, 4⟩⟩, .eof ⟨3, 1⟩]

/-- What is shown of that text. -/
def spoiltContext : Bytes :=
  utf8 "error: expected ';' after expression, got Identifier(\"é\")\n" ++
    utf8 "  --> line 2:4\n   |\n  2|  é é\n   |    ^\n"

/-- The second name is marked on the second line. -/
theorem parseSource_error_context_spoilt :
    ∃ f, parseSource {} spoiltText = .error f ∧ f.diagnostic.span.start = ⟨2, 4⟩ ∧
      f.diagnostic.withContext = spoiltContext := by
  have htokens : tokenize spoiltText = .ok spoiltTokens := by decide +kernel
  have hparse : (Parser.fresh {} spoiltTokens).parse.1 =
      .error (Fault.diagnostic ⟨.missingMark .statementEnd (.ident (utf8 "é")), ⟨2, 4⟩⟩) := rfl
  have h := parseSource_of_refused htokens hparse
  refine ⟨_, h, rfl, ?_⟩
  obtain ⟨-, -, -, -, offender, shown, returns, column, -, hline, hend, hshown, hglyph, hnone⟩ :=
    parseSource_error_context {} spoiltText _ h
  have hcolumn : column = 4 := by
    cases offender with
    | some g =>
      have hat : (column : Int) = 4 := (hglyph g rfl).1
      omega
    | none =>
      -- The text ends in no carriage return.
      have hat : (column : Int) = 4 := (hnone rfl).2.2 (by decide +kernel)
      omega
  have hat : (splitLines spoiltText)[1]? = some (utf8 " é é\r") := by decide +kernel
  have hwhole : utf8 " é é\r" = shown ++ List.replicate returns carriageReturn :=
    Option.some.inj (hat.symm.trans hline.getElem?_splitLines)
  obtain rfl : utf8 " é é" = shown := by
    rw [← trimReturns_eq hend returns, ← hwhole]
    decide +kernel
  rw [hshown, hcolumn]
  decide +kernel

end ShaderFront
