import Mathlib.Control.Monad.Basic
import ShaderFront.Proofs.Labels
import ShaderFront.Proofs.Noninterference

/-!
# What a listing tells

A listing has a line for each token, whatever the texts of the tokens hold. The line says
where the token stands, of what sort it is, and what belongs to the sort. From tokens of
known sorts, with known operators and with numbers that are numbers, everything can be read
back except the texts that they were read from. All tokens of a text are such.
-/

namespace ShaderFront

/-! ## Positions -/

namespace Numeral

/-- An integer is written with digits and the minus sign. -/
theorem notMem_ofInt {b : UInt8} (hdigit : isDigit b = false) (hminus : b ≠ 0x2d) (z : Int) :
    b ∉ ofInt z := by
  have hnat : ∀ n, b ∉ ofNat n := by
    intro n hb
    have htrue := forall_isDigit_ofNat n b hb
    rw [hdigit] at htrue
    cases htrue
  cases z with
  | ofNat n => exact hnat n
  | negSucc n =>
    intro hb
    rcases List.mem_cons.mp hb with hb | hb
    · exact hminus hb
    · exact hnat (n + 1) hb

theorem ofNat_injective {m n : Nat} (h : ofNat m = ofNat n) : m = n := by
  rw [← value_ofNat m, h, value_ofNat]

/-- An integer is known by its text. -/
theorem ofInt_injective {y z : Int} (h : ofInt y = ofInt z) : y = z := by
  -- No numeral starts with the minus sign.
  have hminus : ∀ m n, ofNat m ≠ 0x2d :: ofNat n := by
    intro m n hm
    have htrue := forall_isDigit_ofNat m 0x2d (by simp [hm])
    cases htrue
  cases y with
  | ofNat m =>
    cases z with
    | ofNat n => rw [ofNat_injective h]
    | negSucc n => exact absurd h (hminus m (n + 1))
  | negSucc m =>
    cases z with
    | ofNat n => exact absurd h.symm (hminus n (m + 1))
    | negSucc n =>
      have hsucc := ofNat_injective (List.cons.inj h).2
      rw [Nat.succ.inj hsucc]

end Numeral

namespace Position

theorem notMem_text {b : UInt8} (hdigit : Numeral.isDigit b = false) (hminus : b ≠ 0x2d)
    (hcolon : b ≠ 0x3a) (p : Position) : b ∉ p.text := by
  have hmark : b ∉ utf8 ":" := fun hb => hcolon (List.mem_singleton.mp hb)
  unfold text
  simp only [List.mem_append, not_or]
  exact ⟨⟨Numeral.notMem_ofInt hdigit hminus _, hmark⟩, Numeral.notMem_ofInt hdigit hminus _⟩

/-- A position is known by its text. -/
theorem text_injective {p q : Position} (h : p.text = q.text) : p = q := by
  have hcolon : ∀ z, (0x3a : UInt8) ∉ Numeral.ofInt z :=
    Numeral.notMem_ofInt (by decide) (by decide)
  have htext : ∀ p : Position,
      p.text = Numeral.ofInt p.line ++ 0x3a :: Numeral.ofInt p.column := by
    intro p
    rw [text, List.append_assoc]
    rfl
  rw [htext p, htext q] at h
  obtain ⟨hline, hcolumn⟩ := eq_of_separated (hcolon p.line) (hcolon q.line) h
  obtain ⟨line, column⟩ := p
  obtain ⟨line', column'⟩ := q
  obtain rfl : line = line' := Numeral.ofInt_injective hline
  obtain rfl : column = column' := Numeral.ofInt_injective hcolumn
  rfl

end Position

/-! ## Symbols -/

namespace TokenKind

/-- The sorts with a name of their own. -/
def known : List TokenKind :=
  (List.range 24).map ofCode

theorem mem_known {k : TokenKind} (h : k.code ≤ (keyword .mutable).code) : k ∈ known :=
  List.mem_map.mpr ⟨k.code, List.mem_range.mpr (Nat.lt_succ_of_le h), ofCode_code k⟩

/-- How the text of a symbol of this sort starts: with the name of the sort, and with a bracket
if something belongs to the sort. -/
def opening (k : TokenKind) : Bytes :=
  match k with
  | operator | bool | number | string | ident | attr => utf8 k.name ++ utf8 "("
  | eof | punct _ | keyword _ | unassigned _ => utf8 k.name

/-- No start is the start of another one. -/
theorem arePrefixFree_opening : arePrefixFree opening known = true := by
  decide +kernel

theorem lineFeed_notMem_opening (k : TokenKind) : lineFeed ∉ k.opening := by
  cases k with
  | punct p => cases p <;> decide
  | keyword w => cases w <;> decide
  | unassigned n =>
    have hname : lineFeed ∉ utf8 "Unknown" := by decide
    exact hname
  | _ => decide

end TokenKind

namespace Symbol

/-- What comes after that in the text of a symbol. -/
def closing : Symbol → Bytes
  | operator op => utf8 op.spelling ++ utf8 ")"
  | bool value => utf8 (if value then "true" else "false") ++ utf8 ")"
  | number value => value.text ++ utf8 ")"
  | string t | ident t | attr t => quoted t ++ utf8 ")"
  | eof | punct _ | keyword _ | unassigned _ => []

theorem text_eq (s : Symbol) : s.text = s.kind.opening ++ s.closing := by
  cases s <;> simp [text, kind, TokenKind.opening, closing]

/-- A symbol takes one line. -/
theorem lineFeed_notMem_text (s : Symbol) : lineFeed ∉ s.text := by
  have hbracket : lineFeed ∉ utf8 ")" := by decide
  have hclosing : lineFeed ∉ s.closing := by
    cases s with
    | operator op =>
      simp only [closing, List.mem_append, not_or]
      exact ⟨op.lineFeed_notMem_spelling, hbracket⟩
    | bool value => cases value <;> decide
    | number value =>
      simp only [closing, List.mem_append, not_or]
      exact ⟨value.lineFeed_notMem_text, hbracket⟩
    | string t | ident t | attr t =>
      simp only [closing, List.mem_append, not_or]
      exact ⟨lineFeed_notMem_quoted t, hbracket⟩
    | _ => exact List.not_mem_nil
  rw [text_eq, List.mem_append, not_or]
  exact ⟨s.kind.lineFeed_notMem_opening, hclosing⟩

/-- Is the symbol of a known sort, and is what belongs to it known by its text? -/
def IsKnown : Symbol → Prop
  | operator op => op.code ≤ Operator.not.code
  | number value => value.isNaN = false
  | unassigned _ => False
  | _ => True

theorem IsKnown.kind_mem_known {s : Symbol} (h : s.IsKnown) : s.kind ∈ TokenKind.known := by
  refine TokenKind.mem_known ?_
  cases s with
  | punct p => cases p <;> decide
  | keyword w => cases w <;> decide
  | unassigned n => cases h
  | _ => simp [kind, TokenKind.code]

/-- A known symbol is told by its text. -/
theorem eq_of_text {s s' : Symbol} (h : s.IsKnown) (h' : s'.IsKnown) (ht : s.text = s'.text) :
    s = s' := by
  rw [text_eq, text_eq] at ht
  have hkind : s.kind = s'.kind :=
    eq_of_arePrefixFree TokenKind.arePrefixFree_opening h.kind_mem_known h'.kind_mem_known ht
  rw [hkind] at ht
  have hclosing : s.closing = s'.closing := List.append_cancel_left ht
  cases s with
  | operator op =>
    cases s' <;> cases hkind
    next op' => rw [Operator.eq_of_spelling h h' (List.append_cancel_right hclosing)]
  | bool value =>
    cases s' <;> cases hkind
    next value' => cases value <;> cases value' <;> first | rfl | exact absurd hclosing (by decide)
  | number value =>
    cases s' <;> cases hkind
    next value' => rw [Binary64.text_injective h h' (List.append_cancel_right hclosing)]
  | string t | ident t | attr t =>
    cases s' <;> cases hkind
    next t' => rw [quoted_injective (List.append_cancel_right hclosing)]
  | eof | punct _ | keyword _ | unassigned _ =>
    cases s' <;> cases hkind
    rfl

/-- A symbol that is scanned is known. -/
theorem isKnown_of_element {g : Glyph} {rest : List Glyph} (hd : IsDecoded (g :: rest))
    {s : Symbol} {n : Nat} (h : element g rest = ⟨.symbol s, n⟩) : s.IsKnown := by
  have hspelled := element_isSpelledBy hd h
  cases s with
  | number x => exact Binary64.isNaN_of_ofText? hspelled
  | unassigned k => exact hspelled
  | operator op =>
    cases op with
    | unassigned k =>
      -- It would be spelled by a question mark, with which nothing starts.
      have hlexeme : glyphBytes (g :: rest.take n) = utf8 "?" := hspelled
      cases g with
      | stray b => cases h
      | char c =>
        obtain ⟨b, hb⟩ := List.exists_mem_of_ne_nil _ (Glyph.bytes_ne_nil (.char c))
        have hmark : b ∈ utf8 "?" := by
          rw [← hlexeme, glyphBytes_cons]
          exact List.mem_append_left _ hb
        obtain rfl : b = 0x3f := List.mem_singleton.mp hmark
        obtain rfl : c = '?' := Char.toNat_inj.mp (toNat_of_mem_encode (by decide) hb)
        cases h
    | _ => simp [IsKnown, Operator.code]
  | _ => trivial

end Symbol

/-! ## Tokens -/

namespace Token

/-- The token without the text that it was read from. -/
def withoutLexeme (t : Token) : Token := { t with lexeme := [] }

/-- The line of a token before its line feed. -/
def entry (t : Token) : Bytes :=
  t.pos.text ++ utf8 "\t" ++ t.symbol.text

theorem lineFeed_notMem_entry (t : Token) : lineFeed ∉ t.entry := by
  have hpos : lineFeed ∉ t.pos.text := t.pos.notMem_text (by decide) (by decide) (by decide)
  have htab : lineFeed ∉ utf8 "\t" := by decide
  unfold entry
  simp only [List.mem_append, not_or]
  exact ⟨⟨hpos, htab⟩, t.symbol.lineFeed_notMem_text⟩

/-- Of a token with a known symbol, the line tells everything but the text that it was read
from. -/
theorem withoutLexeme_eq_of_entry {t u : Token} (ht : t.symbol.IsKnown) (hu : u.symbol.IsKnown)
    (h : t.entry = u.entry) : t.withoutLexeme = u.withoutLexeme := by
  have htab : ∀ p : Position, (0x09 : UInt8) ∉ p.text :=
    Position.notMem_text (by decide) (by decide) (by decide)
  have hentry : ∀ t : Token, t.entry = t.pos.text ++ 0x09 :: t.symbol.text := by
    intro t
    rw [entry, List.append_assoc]
    rfl
  rw [hentry t, hentry u] at h
  obtain ⟨hpos, hsymbol⟩ := eq_of_separated (htab t.pos) (htab u.pos) h
  rw [withoutLexeme, withoutLexeme, Position.text_injective hpos, Symbol.eq_of_text ht hu hsymbol]

end Token

/-! ## Listings -/

theorem listing_eq (tokens : List Token) :
    listing tokens = (tokens.map Token.entry).flatMap (· ++ [lineFeed]) := by
  rw [listing, List.flatMap_map]
  rfl

/-- A listing has the line of each token, and nothing after the last. -/
theorem splitLines_listing (tokens : List Token) :
    splitLines (listing tokens) = tokens.map Token.entry ++ [[]] := by
  rw [listing_eq, splitLines_flatMap_iff]
  intro line hline
  obtain ⟨t, -, rfl⟩ := List.mem_map.mp hline
  exact t.lineFeed_notMem_entry

/-- A listing of known symbols tells everything but the texts that the tokens were read from. -/
theorem listing_eq_iff {ts us : List Token} (hts : ∀ t ∈ ts, t.symbol.IsKnown)
    (hus : ∀ u ∈ us, u.symbol.IsKnown) :
    listing ts = listing us ↔ ts.map Token.withoutLexeme = us.map Token.withoutLexeme := by
  constructor
  · intro h
    have hlines := congrArg splitLines h
    rw [splitLines_listing, splitLines_listing] at hlines
    have hentries : ts.map Token.entry = us.map Token.entry := List.append_cancel_right hlines
    clear h hlines
    induction ts generalizing us with
    | nil =>
      cases us with
      | nil => rfl
      | cons u us => cases hentries
    | cons t ts ih =>
      cases us with
      | nil => cases hentries
      | cons u us =>
        obtain ⟨hhead, htail⟩ := List.cons.inj hentries
        obtain ⟨ht, hts⟩ := List.forall_mem_cons.mp hts
        obtain ⟨hu, hus⟩ := List.forall_mem_cons.mp hus
        rw [List.map_cons, List.map_cons, ih hts hus htail,
          Token.withoutLexeme_eq_of_entry ht hu hhead]
  · intro h
    have hentry : ∀ row : List Token,
        row.map Token.entry = (row.map Token.withoutLexeme).map Token.entry := by
      intro row
      rw [List.map_map]
      rfl
    rw [listing_eq, listing_eq, hentry ts, h, ← hentry us]

/-- The symbols of a text are known. -/
theorem isKnown_of_tokenize {source : Bytes} {tokens : List Token}
    (h : tokenize source = .ok tokens) : ∀ t ∈ tokens, t.symbol.IsKnown := by
  intro t ht
  obtain ⟨read, rest, hglyphs, -, hrest⟩ := exists_place_of_scan (tokenize_eq_ok.1 h) ht
  rcases hrest with ⟨-, hend⟩ | ⟨g, more, n, rfl, he, -⟩
  · rw [hend]
    trivial
  · have hd := hglyphs ▸ isDecoded_decode source
    exact Symbol.isKnown_of_element hd.of_append.2 he

/-! ## Records -/

namespace TokenRecord

/-- A record of a known sort, with a known operator and with a number that is one, if it is that
of an operator or of a number. -/
structure IsKnown (x : TokenRecord) : Prop where
  /-- The sort is a known one. -/
  kind : x.kind.code ≤ (TokenKind.keyword .mutable).code
  /-- So is the operator. -/
  op : x.kind = .operator → x.op.code ≤ Operator.not.code
  /-- The number is one. -/
  number : x.kind = .number → x.number.isNaN = false

theorem IsKnown.symbol {x : TokenRecord} (h : x.IsKnown) : x.symbol.IsKnown := by
  obtain ⟨hkind, hop, hnumber⟩ := h
  unfold TokenRecord.symbol
  cases hk : x.kind with
  | operator => exact hop hk
  | number => exact hnumber hk
  | unassigned n =>
    rw [hk] at hkind
    simp only [TokenKind.code] at hkind
    omega
  | _ => trivial

/-- Two records that agree and stand at the same position differ at most in the texts that they
were read from. -/
theorem agrees_and_pos_iff {x y : TokenRecord} :
    (x.Agrees y ∧ x.pos = y.pos) ↔
      (Token.ofRecord x).withoutLexeme = (Token.ofRecord y).withoutLexeme := by
  rw [agrees_iff, Token.withoutLexeme, Token.withoutLexeme, Token.mk.injEq]
  simp [Token.ofRecord]

end TokenRecord

/-- A listing has one line for each token, with its line feed. If all sorts and operators are
known and all numbers are numbers, two listings are the same exactly if there are as many
tokens and each agrees with its counterpart in sort, in what belongs to the sort, in line and
in column. So the listings of two texts are the same exactly if their tokens differ at most in
the texts that they were read from. -/
theorem listing_faithful :
    (∀ tokens : List Token, splitLines (listing tokens) =
      tokens.map (fun t => t.pos.text ++ utf8 "\t" ++ t.symbol.text) ++ [[]]) ∧
    (∀ xs ys : List TokenRecord, (∀ x ∈ xs, x.IsKnown) → (∀ y ∈ ys, y.IsKnown) →
      (listing (xs.map Token.ofRecord) = listing (ys.map Token.ofRecord) ↔
        List.Forall₂ (fun x y => x.Agrees y ∧ x.pos = y.pos) xs ys)) ∧
    ∀ (source source' : Bytes) (tokens tokens' : List Token),
      tokenize source = .ok tokens → tokenize source' = .ok tokens' →
      (listing tokens = listing tokens' ↔
        tokens.map (fun t => { t with lexeme := [] }) =
          tokens'.map fun t => { t with lexeme := [] }) := by
  refine ⟨splitLines_listing, fun xs ys hxs hys => ?_, fun _ _ tokens tokens' h h' => ?_⟩
  · have hknown : ∀ {row : List TokenRecord}, (∀ x ∈ row, x.IsKnown) →
        ∀ t ∈ row.map Token.ofRecord, t.symbol.IsKnown := by
      intro row hrow t ht
      obtain ⟨x, hx, rfl⟩ := List.mem_map.mp ht
      exact (hrow x hx).symbol
    rw [listing_eq_iff (hknown hxs) (hknown hys), List.map_map, List.map_map]
    symm
    apply forall₂_iff_map_eq
    exact fun _ _ => TokenRecord.agrees_and_pos_iff
  · exact listing_eq_iff (isKnown_of_tokenize h) (isKnown_of_tokenize h')

/-- A name far out, the number zero, and a string that looks like the end of its line and like
another line. -/
def plainRecords : List TokenRecord :=
  [{ kind := .ident, text := utf8 "x", pos := ⟨-9223372036854775808, 9223372036854775807⟩ },
    { kind := .number, pos := ⟨1, 3⟩ },
    { kind := .string, text := utf8 "a\")\n2:1\tEOF" }]

/-- The same, with fields that do not belong to their sorts. -/
def filledRecords : List TokenRecord :=
  plainRecords.map fun x => { x with op := .unassigned 3, bool := true, lexeme := utf8 "?" }

/-- The two rows have the same listing, and so have two texts with different quotes. -/
theorem listing_faithful_quotes :
    listing (plainRecords.map Token.ofRecord) = listing (filledRecords.map Token.ofRecord) ∧
      ∃ tokens, tokenize (utf8 "f(x,\"é\");") = .ok tokens ∧ tokens ≠ callTokens ∧
        listing tokens = listing callTokens := by
  obtain ⟨-, hrecords, htexts⟩ := listing_faithful
  have hplain : ∀ x ∈ plainRecords, x.IsKnown := by
    intro x hx
    simp only [plainRecords, List.mem_cons, List.not_mem_nil, or_false] at hx
    rcases hx with rfl | rfl | rfl <;> exact ⟨by decide, by decide, by decide⟩
  have hfilled : ∀ x ∈ filledRecords, x.IsKnown := by
    intro x hx
    simp only [filledRecords, plainRecords, List.map_cons, List.map_nil, List.mem_cons,
      List.not_mem_nil, or_false] at hx
    rcases hx with rfl | rfl | rfl <;> exact ⟨by decide, by decide, by decide⟩
  have hcall : tokenize callText = .ok callTokens := by decide +kernel
  have hquotes : tokenize (utf8 "f(x,\"é\");") =
      .ok (callTokens.set 4 ⟨.string (utf8 "é"), utf8 "\"é\"", ⟨1, 5⟩⟩) := by decide +kernel
  refine ⟨(hrecords _ _ hplain hfilled).mpr ?_, _, hquotes, by decide +kernel,
    (htexts _ _ _ _ hquotes hcall).mpr (by decide +kernel)⟩
  have hsame : ∀ {x y : TokenRecord}, x.symbol = y.symbol → x.pos = y.pos →
      x.Agrees y ∧ x.pos = y.pos := fun hsymbol hpos => ⟨TokenRecord.agrees_iff.mpr hsymbol, hpos⟩
  exact .cons (hsame rfl rfl) (.cons (hsame rfl rfl) (.cons (hsame rfl rfl) .nil))

end ShaderFront
