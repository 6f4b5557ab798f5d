import ShaderFront.Proofs.Reading

/-!
# Elements take as much as they can

The first character of an element decides how it goes on, and from there on it takes all
that it can: what is read of an element is the same if the text after it is cut off, and no
text that starts alike and goes on further is a single token. So a token is found again in
its own text, and it is the longest that could be read where it stands.
-/

namespace ShaderFront

/-! ## How an element goes on -/

/-- How an element goes on after its first character. -/
inductive GoesOn (c : Char) : (List Glyph → Element) → Prop
  /-- It takes nothing more. -/
  | alone (r : Reading) : GoesOn c fun _ => ⟨r, 0⟩
  /-- It takes the given character if that comes next. -/
  | pair (next : Char) (long short : Reading) : GoesOn c fun rest => longerIf rest next long short
  /-- It is a comment or division sign. -/
  | slash : GoesOn c slashElement
  /-- It is a string literal. -/
  | string : GoesOn c (stringElement c)
  /-- It is an attribute. -/
  | attr : GoesOn c attributeElement
  /-- It is a number literal. -/
  | number : GoesOn c (numberElement c)
  /-- It is a word. -/
  | word : GoesOn c (wordElement c)

/-- The first character of an operator decides whether there can be a second one. -/
theorem operatorElement?_goesOn (c : Char) :
    (∀ rest, operatorElement? c rest = none) ∨
      ∃ f, GoesOn c f ∧ ∀ rest, operatorElement? c rest = some (f rest) := by
  fun_cases operatorElement? c [] with
  | case1 | case2 | case3 | case4 | case5 | case6 => exact .inr ⟨_, .pair _ _ _, fun _ => rfl⟩
  | case7 | case8 | case9 | case10 => exact .inr ⟨_, .alone _, fun _ => rfl⟩
  | case11 =>
    left
    intro rest
    simp_all [operatorElement?]

/-- The first character of an element decides how it goes on. -/
theorem exists_goesOn (c : Char) : ∃ f, GoesOn c f ∧ ∀ rest, element (.char c) rest = f rest := by
  cases hpunct : Punct.ofChar? c with
  | some p => exact ⟨_, .alone _, fun rest => by rw [element, hpunct]⟩
  | none =>
    rcases operatorElement?_goesOn c with hoperator | ⟨f, hf, hoperator⟩
    · simp only [element, hpunct, hoperator]
      split
      · exact ⟨_, .alone _, fun _ => rfl⟩
      split
      · exact ⟨_, .slash, fun _ => rfl⟩
      split
      · exact ⟨_, .string, fun _ => rfl⟩
      split
      · exact ⟨_, .attr, fun _ => rfl⟩
      split
      · exact ⟨_, .number, fun _ => rfl⟩
      split
      · exact ⟨_, .word, fun _ => rfl⟩
      · exact ⟨_, .alone _, fun _ => rfl⟩
    · exact ⟨f, hf, fun rest => by simp only [element, hpunct, hoperator]⟩

/-! ## Cutting off what follows an element -/

section Cut

variable {l more : List Glyph}

/-- A row that ends before a cut is the same row without what follows. -/
theorem takeWhile_of_append {p : Glyph → Bool}
    (h : ((l ++ more).takeWhile p).length ≤ l.length) :
    l.takeWhile p = (l ++ more).takeWhile p := by
  rw [List.takeWhile_append] at h ⊢
  split at h
  case isTrue hall =>
    have hnone : more.takeWhile p = [] := by
      apply List.eq_nil_of_length_eq_zero
      rw [List.length_append] at h
      omega
    rw [if_pos hall, hnone, List.append_nil]
    exact (List.takeWhile_prefix p).eq_of_length hall
  case isFalse hall => rw [if_neg hall]

/-- A row that ends before the last glyph of a text leaves something of it. -/
theorem dropWhile_ne_nil {p : Glyph → Bool} (h : (l.takeWhile p).length < l.length) :
    l.dropWhile p ≠ [] := by
  intro hnil
  have hsplit := congrArg List.length (List.takeWhile_append_dropWhile (p := p) (l := l))
  rw [hnil, List.append_nil] at hsplit
  omega

/-- A block comment takes at least the two characters that end it. -/
theorem two_le_commentEnd? {gs : List Glyph} {n : Nat} (h : commentEnd? gs = some n) : 2 ≤ n := by
  induction gs generalizing n with
  | nil => cases h
  | cons g gs ih =>
    rw [commentEnd?] at h
    split at h
    case isTrue => exact Nat.le_of_eq (Option.some.inj h)
    case isFalse =>
      obtain ⟨m, hm, rfl⟩ := Option.map_eq_some_iff.1 h
      have hle := ih hm
      omega

/-- The end of a block comment is found without what follows it. -/
theorem commentEnd?_of_append {n : Nat} (h : commentEnd? (l ++ more) = some n)
    (hn : n ≤ l.length) : commentEnd? l = some n := by
  induction l generalizing n with
  | nil =>
    have hle := two_le_commentEnd? h
    simp only [List.length_nil] at hn
    omega
  | cons g l ih =>
    have hle := two_le_commentEnd? h
    have hne : l ≠ [] := by
      rintro rfl
      simp only [List.length_cons, List.length_nil] at hn
      omega
    have hhead : (l ++ more).head? = l.head? := by
      rw [List.head?_append, Option.or_of_isSome (List.isSome_head?.2 hne)]
    rw [List.cons_append, commentEnd?, hhead] at h
    rw [commentEnd?]
    split at h
    case isTrue hend => rw [if_pos hend, h]
    case isFalse hend =>
      obtain ⟨m, hm, rfl⟩ := Option.map_eq_some_iff.1 h
      simp only [List.length_cons] at hn
      rw [if_neg hend, ih hm (by omega)]
      rfl

/-- An operator is the same without what follows it. -/
theorem longerIf_of_append {next : Char} {long short r : Reading} {n : Nat}
    (h : longerIf (l ++ more) next long short = ⟨r, n⟩) (hn : n ≤ l.length) :
    longerIf l next long short = ⟨r, n⟩ := by
  cases l with
  | cons g l => exact h
  | nil =>
    unfold longerIf at h ⊢
    split at h
    · cases h
      cases hn
    · exact h

/-- A glyph before a cut is the first one without what follows. -/
theorem eq_cons_of_append {g : Glyph} {rest : List Glyph} (h : l ++ more = g :: rest)
    (hl : 0 < l.length) : ∃ tail, l = g :: tail ∧ rest = tail ++ more := by
  rcases List.append_eq_cons_iff.1 h with ⟨rfl, -⟩ | ⟨tail, htail, hrest⟩
  · cases hl
  · exact ⟨tail, htail, hrest⟩

/-- A comment or division sign is the same without what follows it. -/
theorem slashElement_of_append {r : Reading} {n : Nat} (h : slashElement (l ++ more) = ⟨r, n⟩)
    (hr : r.isFault = false) (hn : n ≤ l.length) : slashElement l = ⟨r, n⟩ := by
  generalize hrow : l ++ more = row at h
  fun_cases slashElement row with
  | case1 comment =>
    cases h
    obtain ⟨tail, rfl, rfl⟩ := eq_cons_of_append hrow (by omega)
    rw [List.length_cons] at hn
    have hline : tail.takeWhile (· ≠ .char '\n') = (tail ++ more).takeWhile (· ≠ .char '\n') :=
      takeWhile_of_append (by omega)
    rw [slashElement, hline]
  | case2 comment m hend =>
    rw [slashElement, hend] at h
    cases h
    obtain ⟨tail, rfl, rfl⟩ := eq_cons_of_append hrow (by omega)
    rw [List.length_cons] at hn
    rw [slashElement, commentEnd?_of_append hend (by omega)]
  | case3 comment hend =>
    rw [slashElement, hend] at h
    cases h
    cases hr
  | case4 row hline hblock =>
    rw [slashElement.eq_3 row hline hblock] at h
    rw [← h]
    apply slashElement_of_head?
    · intro hhead
      obtain ⟨tail, rfl⟩ := List.head?_eq_some_iff.1 hhead
      exact hline _ hrow.symm
    · intro hhead
      obtain ⟨tail, rfl⟩ := List.head?_eq_some_iff.1 hhead
      exact hblock _ hrow.symm

/-- A string literal is the same without what follows it. -/
theorem stringElement_of_append {quote : Char} {r : Reading} {n : Nat}
    (h : stringElement quote (l ++ more) = ⟨r, n⟩) (hr : r.isFault = false)
    (hn : n ≤ l.length) : stringElement quote l = ⟨r, n⟩ := by
  rw [← h]
  refine (stringElement_append ?_ more).symm
  unfold stringElement at h ⊢
  split at h
  · cases h
    cases hr
  · cases h
    have hrow := takeWhile_of_append (Nat.le_of_succ_le hn)
    have hne : l.dropWhile (· ≠ .char quote) ≠ [] := by
      apply dropWhile_ne_nil
      rw [hrow]
      exact hn
    split
    · exact absurd ‹_› hne
    · intro hfault
      cases hfault

/-- A bracketed attribute is the same without what follows it. -/
theorem bracketedAttribute_of_append {r : Reading} {n : Nat}
    (h : bracketedAttribute (l ++ more) = ⟨r, n⟩) (hr : r.isFault = false)
    (hn : n ≤ l.length + 1) : bracketedAttribute l = ⟨r, n⟩ := by
  rw [← h]
  refine (bracketedAttribute_append ?_ more).symm
  unfold bracketedAttribute at h ⊢
  split at h
  · cases h
    cases hr
  · dsimp only at h
    split at h
    · cases h
      cases hr
    · cases h
      have hrow := takeWhile_of_append (Nat.le_of_succ_le (Nat.le_of_succ_le_succ hn))
      have hne : l.dropWhile (· ≠ .char ']') ≠ [] := by
        apply dropWhile_ne_nil
        rw [hrow]
        exact Nat.le_of_succ_le_succ hn
      split
      · exact absurd ‹_› hne
      · dsimp only
        split <;> intro hfault <;> cases hfault

/-- An attribute is the same without what follows it. -/
theorem attributeElement_of_append {r : Reading} {n : Nat}
    (h : attributeElement (l ++ more) = ⟨r, n⟩) (hr : r.isFault = false) (hn : n ≤ l.length) :
    attributeElement l = ⟨r, n⟩ := by
  by_cases hhead : (l ++ more).head? = some (.char '[')
  · obtain ⟨name, hname⟩ := List.head?_eq_some_iff.1 hhead
    rw [hname, attributeElement] at h
    have hpos : 0 < n := by
      unfold bracketedAttribute at h
      split at h
      · cases h
        cases hr
      · dsimp only at h
        split at h <;> cases h <;> omega
    obtain ⟨tail, rfl, rfl⟩ := eq_cons_of_append hname (by omega)
    exact bracketedAttribute_of_append h hr hn
  · have hhead' : l.head? ≠ some (.char '[') := by
      intro hl
      obtain ⟨tail, rfl⟩ := List.head?_eq_some_iff.1 hl
      exact hhead rfl
    rw [attributeElement_of_head? hhead] at h
    rw [attributeElement_of_head? hhead']
    split at h
    · cases h
      cases hr
    · next hname =>
      cases h
      rw [takeWhile_of_append hn, if_neg hname]

/-- What an element is read as does not depend on what follows it. -/
theorem GoesOn.of_append {c : Char} {f : List Glyph → Element} (hf : GoesOn c f) {r : Reading}
    {n : Nat} (h : f (l ++ more) = ⟨r, n⟩) (hr : r.isFault = false) (hn : n ≤ l.length) :
    f l = ⟨r, n⟩ := by
  cases hf with
  | alone r => exact h
  | pair next long short => exact longerIf_of_append h hn
  | slash => exact slashElement_of_append h hr hn
  | string => exact stringElement_of_append h hr hn
  | attr => exact attributeElement_of_append h hr hn
  | number =>
    unfold numberElement at h ⊢
    dsimp only at h ⊢
    split at h
    · next hvalue =>
      cases h
      rw [takeWhile_of_append hn, hvalue]
    · cases h
      cases hr
  | word =>
    cases h
    rw [wordElement, takeWhile_of_append hn]

/-- An element that can be read is the same if the text is cut off after it. -/
theorem element_of_append {g : Glyph} {r : Reading} {n : Nat} (h : element g (l ++ more) = ⟨r, n⟩)
    (hr : r.isFault = false) (hn : n ≤ l.length) : element g l = ⟨r, n⟩ := by
  cases g with
  | stray b => exact h
  | char c =>
    obtain ⟨f, hf, helement⟩ := exists_goesOn c
    rw [helement] at h ⊢
    exact hf.of_append h hr hn

end Cut

/-! ## Going on as far as possible -/

section Longest

variable {c : Char} {f : List Glyph → Element} {l : List Glyph} {s : Symbol}

/-- A row that takes a whole text takes no less of a longer one. -/
theorem le_length_takeWhile_append {p : Glyph → Bool} (h : (l.takeWhile p).length = l.length)
    (more : List Glyph) : l.length ≤ ((l ++ more).takeWhile p).length := by
  rw [List.takeWhile_append, if_pos h, List.length_append]
  omega

/-- A division sign takes nothing more. -/
theorem slashElement_eq_symbol {n : Nat} (h : slashElement l = ⟨.symbol s, n⟩) : n = 0 := by
  unfold slashElement at h
  split at h
  · cases h
  · split at h <;> cases h
  · exact (Element.mk.inj h).2.symm

/-- An element that takes a whole text takes no less of a longer one. -/
theorem GoesOn.length_le_extent (hf : GoesOn c f) (h : f l = ⟨.symbol s, l.length⟩)
    (more : List Glyph) : l.length ≤ (f (l ++ more)).extent := by
  have hstays : (f l).reading.isFault = false := by rw [h]; rfl
  have hextent : (f l).extent = l.length := by rw [h]
  cases hf with
  | alone r => exact Nat.le_of_eq hextent.symm
  | pair next long short =>
    cases l with
    | nil => exact Nat.zero_le _
    | cons g l => exact Nat.le_of_eq hextent.symm
  | slash =>
    rw [slashElement_eq_symbol h]
    exact Nat.zero_le _
  | string =>
    have hne : (stringElement c l).reading ≠ .fault .unterminatedString := by
      intro hfault
      rw [hfault] at hstays
      cases hstays
    rw [stringElement_append hne]
    exact Nat.le_of_eq hextent.symm
  | attr =>
    by_cases hhead : l.head? = some (.char '[')
    · obtain ⟨name, rfl⟩ := List.head?_eq_some_iff.1 hhead
      rw [attributeElement] at hstays hextent
      have hne : (bracketedAttribute name).reading ≠ .fault .unterminatedAttribute := by
        intro hfault
        rw [hfault] at hstays
        cases hstays
      rw [List.cons_append, attributeElement, bracketedAttribute_append hne]
      exact Nat.le_of_eq hextent.symm
    · rw [attributeElement_of_head? hhead] at h
      split at h
      · cases h
      · next hname =>
        have hle := le_length_takeWhile_append (Element.mk.inj h).2 more
        have hhead' : (l ++ more).head? ≠ some (.char '[') := by
          cases l with
          | nil => exact absurd rfl hname
          | cons g l => exact hhead
        rw [attributeElement_of_head? hhead']
        split
        · next hnone =>
          rw [List.isEmpty_iff.1 hnone] at hle
          exact hle
        · exact hle
  | number =>
    have hlength : (l.takeWhile Glyph.inNumber).length = l.length := by
      unfold numberElement at hextent
      dsimp only at hextent
      split at hextent <;> exact hextent
    have hle := le_length_takeWhile_append hlength more
    unfold numberElement
    dsimp only
    split <;> exact hle
  | word => exact le_length_takeWhile_append hextent more

/-- Where a text is a single token, an element that starts like it takes at least as much of
a longer text. -/
theorem length_le_extent_element {g : Glyph} (h : element g l = ⟨.symbol s, l.length⟩)
    (more : List Glyph) : l.length ≤ (element g (l ++ more)).extent := by
  cases g with
  | stray b => cases h
  | char c =>
    obtain ⟨f, hf, helement⟩ := exists_goesOn c
    rw [helement] at h ⊢
    exact hf.length_le_extent h more

/-! ## The last glyph of a token -/

/-- A row that takes a whole text takes its last glyph. -/
theorem getLast?_of_takeWhile {p : Glyph → Bool} (h : (l.takeWhile p).length = l.length) :
    ∀ g ∈ l.getLast?, p g = true := by
  intro g hg
  have hall : l.takeWhile p = l := (List.takeWhile_prefix p).eq_of_length h
  rw [← hall] at hg
  exact List.all_eq_true.1 List.all_takeWhile g (List.mem_of_getLast? hg)

/-- A row up to the last glyph of a text ends at that glyph. -/
theorem getLast?_of_dropWhile {stop g : Glyph} {tail : List Glyph}
    (hdrop : l.dropWhile (· ≠ stop) = g :: tail)
    (h : (l.takeWhile (· ≠ stop)).length + 1 = l.length) : l.getLast? = some stop := by
  obtain ⟨hg, hrow⟩ := eq_append_of_dropWhile hdrop
  obtain rfl : g = stop := by simpa using hg
  have htail : tail = [] := by
    apply List.eq_nil_of_length_eq_zero
    have hlength := congrArg List.length hrow
    rw [List.length_append, List.length_cons] at hlength
    omega
  rw [hrow, htail, List.getLast?_concat]

/-- A token ends with a character and not with a stray byte. -/
theorem GoesOn.exists_last (hf : GoesOn c f) (h : f l = ⟨.symbol s, l.length⟩) :
    ∀ g ∈ l.getLast?, ∃ d, g = .char d := by
  have hempty : l.length = 0 → ∀ g ∈ l.getLast?, ∃ d, g = .char d := by
    intro hzero g hg
    rw [List.eq_nil_of_length_eq_zero hzero] at hg
    cases hg
  cases hf with
  | alone r => exact hempty (Element.mk.inj h).2.symm
  | pair next long short =>
    dsimp only [longerIf] at h
    split at h
    · next hhead =>
      obtain ⟨tail, rfl⟩ := List.head?_eq_some_iff.1 hhead
      obtain rfl : tail = [] := by
        apply List.eq_nil_of_length_eq_zero
        have hlength := (Element.mk.inj h).2
        rw [List.length_cons] at hlength
        omega
      rintro g ⟨⟩
      exact ⟨next, rfl⟩
    · exact hempty (Element.mk.inj h).2.symm
  | slash => exact hempty (slashElement_eq_symbol h)
  | string =>
    unfold stringElement at h
    split at h
    · cases h
    · next hdrop =>
      rw [getLast?_of_dropWhile hdrop (Element.mk.inj h).2]
      rintro g ⟨⟩
      exact ⟨c, rfl⟩
  | attr =>
    by_cases hhead : l.head? = some (.char '[')
    · obtain ⟨name, rfl⟩ := List.head?_eq_some_iff.1 hhead
      rw [attributeElement] at h
      unfold bracketedAttribute at h
      split at h
      · cases h
      · next hdrop =>
        dsimp only at h
        split at h
        · cases h
        · have hlength := (Element.mk.inj h).2
          rw [List.length_cons] at hlength
          have hlast := getLast?_of_dropWhile hdrop (by omega)
          rw [List.getLast?_cons, hlast]
          rintro g ⟨⟩
          exact ⟨']', rfl⟩
    · rw [attributeElement_of_head? hhead] at h
      split at h
      · cases h
      · intro g hg
        have hname := getLast?_of_takeWhile (Element.mk.inj h).2 g hg
        cases g with
        | char d => exact ⟨d, rfl⟩
        | stray b => cases hname
  | number =>
    have hextent : (numberElement c l).extent = l.length := by rw [h]
    have hlength : (l.takeWhile Glyph.inNumber).length = l.length := by
      unfold numberElement at hextent
      dsimp only at hextent
      split at hextent <;> exact hextent
    intro g hg
    have hnumber := getLast?_of_takeWhile hlength g hg
    cases g with
    | char d => exact ⟨d, rfl⟩
    | stray b => cases hnumber
  | word =>
    intro g hg
    have hname := getLast?_of_takeWhile (Element.mk.inj h).2 g hg
    cases g with
    | char d => exact ⟨d, rfl⟩
    | stray b => cases hname

end Longest

/-- A byte that continues characters starts none. -/
theorem standsAlone_of_isTail {a : UInt8} (h : isTail a = true) (s : Bytes) :
    StandsAlone a s := by
  have hbounds : 0x80 ≤ a ∧ a ≤ 0xbf := by simpa [isTail] using h
  have hc2 : ¬ 0xc2 ≤ a := UInt8.not_le.2 (UInt8.lt_of_le_of_lt hbounds.2 (by decide))
  have he0 : ¬ 0xe0 ≤ a := UInt8.not_le.2 (UInt8.lt_of_le_of_lt hbounds.2 (by decide))
  have hf0 : ¬ 0xf0 ≤ a := UInt8.not_le.2 (UInt8.lt_of_le_of_lt hbounds.2 (by decide))
  refine ⟨UInt8.not_lt.2 hbounds.1, fun b t _ => ?_, fun b c t _ => ?_, fun b c d t _ => ?_⟩
  · simp [pairChar?, hc2]
  · simp [tripleChar?, he0]
  · simp [quadChar?, hf0]

/-- A text that is a character by itself is one before any other text. -/
theorem decode_append_char {s : Bytes} {c : Char} (h : decode s = [.char c]) (t : Bytes) :
    decode (s ++ t) = .char c :: decode t := by
  have hrest : ∀ {u : Bytes} {g : Glyph}, g :: decode u = [.char c] → g = .char c ∧ u = [] := by
    intro u g hu
    obtain ⟨hg, hnil⟩ := List.cons.inj hu
    have hbytes := glyphBytes_decode u
    rw [hnil] at hbytes
    exact ⟨hg, hbytes.symm⟩
  induction s using decode_induction with
  | nil => cases h
  | ascii a s ha _ =>
    rw [decode_ascii ha] at h
    obtain ⟨hg, rfl⟩ := hrest h
    rw [← hg]
    exact decode_ascii ha t
  | pair a b x s ha hx _ =>
    rw [decode_pair ha hx] at h
    obtain ⟨hg, rfl⟩ := hrest h
    rw [← hg]
    exact decode_pair ha hx t
  | triple a b c x s ha hb hx _ =>
    rw [decode_triple ha hb hx] at h
    obtain ⟨hg, rfl⟩ := hrest h
    rw [← hg]
    exact decode_triple ha hb hx t
  | quad a b c d x s ha hb hc hx _ =>
    rw [decode_quad ha hb hc hx] at h
    obtain ⟨hg, rfl⟩ := hrest h
    rw [← hg]
    exact decode_quad ha hb hc hx t
  | stray a s hs _ =>
    rw [decode_stray hs] at h
    cases h

/-- A text that ends with a character can be cut off. -/
theorem cutsAfter_of_getLast? {s : Bytes} {c : Char} (h : (decode s).getLast? = some (.char c)) :
    CutsAfter s := by
  obtain ⟨row, hrow⟩ := List.getLast?_eq_some_iff.1 h
  have hd : IsDecoded (row ++ [.char c]) := hrow ▸ isDecoded_decode s
  obtain ⟨hbefore, hlast⟩ := hd.of_append
  have hs : s = glyphBytes row ++ glyphBytes [.char c] := by
    rw [← glyphBytes_append, ← hrow, glyphBytes_decode]
  intro t
  have hhead : ∀ b ∈ (glyphBytes [.char c] ++ t).head?, isTail b = false := by
    intro b hb
    by_contra htail
    obtain ⟨u, hu⟩ := List.head?_eq_some_iff.1 hb
    have hcut := decode_append_char hlast t
    rw [hu, decode_stray (standsAlone_of_isTail (by simpa using htail) u)] at hcut
    cases hcut
  rw [hrow, hs, List.append_assoc, decode_append hhead, hbefore, decode_append_char hlast,
    List.append_assoc]
  rfl

/-- The text of a token can be cut off. -/
theorem cutsAfter_of_element {s : Bytes} {g : Glyph} {rest : List Glyph} {symbol : Symbol}
    (hd : decode s = g :: rest) (he : element g rest = ⟨.symbol symbol, rest.length⟩) :
    CutsAfter s := by
  cases g with
  | stray b => cases he
  | char c =>
    obtain ⟨f, hf, helement⟩ := exists_goesOn c
    rw [helement] at he
    have hlast := hf.exists_last he
    obtain ⟨d, hd'⟩ : ∃ d, (decode s).getLast? = some (.char d) := by
      rw [hd, List.getLast?_cons]
      cases hg : rest.getLast? with
      | none => exact ⟨c, rfl⟩
      | some g =>
        obtain ⟨d, rfl⟩ := hlast g hg
        exact ⟨d, rfl⟩
    exact cutsAfter_of_getLast? hd'

/-! ## Tokens in their places -/

/-- Only nothing leads to where it starts. -/
theorem Position.eq_nil_of_advanceOver {p : Position} {gs : List Glyph}
    (h : p.advanceOver gs = p) : gs = [] := by
  cases gs with
  | nil => rfl
  | cons g gs =>
    have hbefore := p.before_advanceOver g gs
    rw [h] at hbefore
    unfold Before at hbefore
    omega

/-- The place after some of the glyphs of a text tells which of them these are. -/
theorem Position.eq_of_advanceOver {p : Position} {read read' rest rest' : List Glyph}
    (h : read ++ rest = read' ++ rest') (hp : p.advanceOver read = p.advanceOver read') :
    read = read' := by
  rcases List.append_eq_append_iff.1 h with ⟨between, hread, -⟩ | ⟨between, hread, -⟩
  · rw [hread, advanceOver_append] at hp
    rw [hread, eq_nil_of_advanceOver hp.symm, List.append_nil]
  · rw [hread, advanceOver_append] at hp
    rw [hread, eq_nil_of_advanceOver hp, List.append_nil]

/-- Does a token stand where a text is cut in two? -/
structure Token.StandsBetween (t : Token) (before after : Bytes) : Prop where
  /-- The cut goes through no character. -/
  cuts : CutsBefore before after
  /-- The token is at the place after the first part. -/
  place : t.pos = placeAfter before

/-- A token is where its element is. -/
theorem exists_element_of_standsBetween {before after : Bytes} {tokens : List Token}
    (h : tokenize (before ++ after) = .ok tokens) {t : Token} (ht : t ∈ tokens)
    (hne : t.symbol ≠ .eof) (hstands : t.StandsBetween before after) :
    ∃ g more n, decode after = g :: more ∧ element g more = ⟨.symbol t.symbol, n⟩ ∧
      t.lexeme = glyphBytes (g :: more.take n) := by
  obtain ⟨read, rest, hgs, hpos, hrest⟩ := exists_place_of_scan (tokenize_eq_ok.1 h) ht
  have hcut : read ++ rest = decode before ++ decode after := hgs.symm.trans hstands.cuts
  have hread : read = decode before := by
    apply Position.eq_of_advanceOver (p := .start) hcut
    rw [← hpos, hstands.place, Position.advanceOver_decode]
  have hafter : rest = decode after := by
    rw [hread] at hcut
    exact List.append_cancel_left hcut
  rcases hrest with ⟨-, heof⟩ | ⟨g, more, n, hg, he, hlexeme⟩
  · exact absurd heof hne
  · exact ⟨g, more, n, hafter ▸ hg, he, hlexeme⟩

/-- Every token stands somewhere. -/
theorem exists_standsBetween {source : Bytes} {tokens : List Token}
    (h : tokenize source = .ok tokens) {t : Token} (ht : t ∈ tokens) :
    ∃ before after, source = before ++ after ∧ t.StandsBetween before after := by
  obtain ⟨read, rest, hgs, hpos, -⟩ := exists_place_of_scan (tokenize_eq_ok.1 h) ht
  have hd : IsDecoded (read ++ rest) := hgs ▸ isDecoded_decode source
  refine ⟨glyphBytes read, glyphBytes rest, ?_, hd.decode_append, ?_⟩
  · rw [← glyphBytes_append, ← hgs, glyphBytes_decode]
  · rw [hpos, ← Position.advanceOver_decode, hd.of_append.1]

/-- A token is found again in its own text. -/
theorem tokenize_lexeme {after : Bytes} {g : Glyph} {more : List Glyph} {n : Nat} {t : Token}
    (hd : decode after = g :: more) (he : element g more = ⟨.symbol t.symbol, n⟩)
    (hlexeme : t.lexeme = glyphBytes (g :: more.take n)) :
    tokenize t.lexeme =
      .ok [{ t with pos := .start }, Token.eof (placeAfter t.lexeme)] := by
  have hle : n ≤ more.length := by
    have hextent := extent_element_le g more
    rwa [he] at hextent
  have hlength : (more.take n).length = n := List.length_take_of_le hle
  have hglyphs : IsDecoded (g :: more.take n ++ more.drop n) := by
    rw [List.cons_append, List.take_append_drop, ← hd]
    exact isDecoded_decode after
  have hown : element g (more.take n) = ⟨.symbol t.symbol, (more.take n).length⟩ := by
    have hwhole : element g (more.take n ++ more.drop n) = ⟨.symbol t.symbol, n⟩ := by
      rw [List.take_append_drop, he]
    rw [hlength]
    exact element_of_append hwhole rfl (Nat.le_of_eq hlength.symm)
  have hdecode : decode t.lexeme = g :: more.take n := by
    rw [hlexeme]
    exact hglyphs.of_append.1
  exact tokenize_of_element hdecode hown

/-- Nothing longer that starts where a token does is a token. -/
theorem length_le_of_tokenize {after longer : Bytes} {g : Glyph} {more : List Glyph} {n : Nat}
    {s : Symbol} (hd : decode after = g :: more) (he : element g more = ⟨.symbol s, n⟩)
    (hlonger : longer <+: after) {u : Token} {q : Position} (hu : u.lexeme = longer)
    (h : tokenize longer = .ok [u, Token.eof q]) :
    longer.length ≤ (glyphBytes (g :: more.take n)).length := by
  subst hu
  obtain ⟨g', rest, hd', he'⟩ := exists_element_of_tokenize h
  obtain ⟨tail, rfl⟩ := hlonger
  rw [cutsAfter_of_element hd' he', hd', List.cons_append] at hd
  obtain ⟨rfl, rfl⟩ := List.cons.inj hd
  have hle := length_le_extent_element he' (decode tail)
  rw [he] at hle
  have hbytes := glyphBytes_decode u.lexeme
  rw [hd'] at hbytes
  rw [← hbytes, List.take_append, List.take_of_length_le hle, ← List.cons_append,
    glyphBytes_append, List.length_append]
  exact Nat.le_add_right _ _

/-- A token is found again in its own text, by itself and at the start, and it is the longest
that can be read where it stands: no text that starts there and goes on further is a single
token. -/
theorem tokenize_longest (source : Bytes) (tokens : List Token)
    (h : tokenize source = .ok tokens) (t : Token) (ht : t ∈ tokens) (hne : t.symbol ≠ .eof) :
    tokenize t.lexeme = .ok [{ t with pos := .start }, Token.eof (placeAfter t.lexeme)] ∧
      (∃ before after, source = before ++ after ∧ t.StandsBetween before after) ∧
      ∀ before after, source = before ++ after → t.StandsBetween before after →
        t.lexeme <+: after ∧
          ∀ longer, longer <+: after → t.lexeme.length < longer.length →
            ∀ u q, u.lexeme = longer → tokenize longer ≠ .ok [u, Token.eof q] := by
  obtain ⟨before, after, rfl, hstands⟩ := exists_standsBetween h ht
  obtain ⟨g, more, n, hd, he, hlexeme⟩ := exists_element_of_standsBetween h ht hne hstands
  refine ⟨tokenize_lexeme hd he hlexeme, ⟨before, after, rfl, hstands⟩, ?_⟩
  intro before' after' hsource hstands'
  rw [hsource] at h
  obtain ⟨g, more, n, hd, he, hlexeme⟩ := exists_element_of_standsBetween h ht hne hstands'
  refine ⟨⟨glyphBytes (more.drop n), ?_⟩, ?_⟩
  · rw [hlexeme, ← glyphBytes_split, ← hd, glyphBytes_decode]
  · intro longer hlonger hlength u q hu htokens
    have hle := length_le_of_tokenize hd he hlonger hu htokens
    rw [hlexeme] at hlength
    omega

/-- The number of the crowded text ends before the word that follows it. -/
theorem tokenize_longest_crowdedText :
    tokenize crowdedText = .ok crowdedTokens ∧
      tokenize (utf8 "1.5") =
        .ok [⟨.number ⟨0x3ff8000000000000⟩, utf8 "1.5", .start⟩, Token.eof ⟨1, 4⟩] ∧
      ∀ longer, longer <+: utf8 "1.5true//;" → (utf8 "1.5").length < longer.length →
        ∀ u q, u.lexeme = longer → tokenize longer ≠ .ok [u, Token.eof q] := by
  have htokens : tokenize crowdedText = .ok crowdedTokens := by decide +kernel
  have ht : ⟨.number ⟨0x3ff8000000000000⟩, utf8 "1.5", ⟨1, 19⟩⟩ ∈ crowdedTokens := by
    decide +kernel
  obtain ⟨hagain, -, hlongest⟩ :=
    tokenize_longest crowdedText crowdedTokens htokens _ ht (by decide)
  have hplace : placeAfter (utf8 "1.5") = ⟨1, 4⟩ := by decide +kernel
  have hsplit : crowdedText = utf8 "if/*=*/='é\"'#[a b]" ++ utf8 "1.5true//;" := by decide +kernel
  rw [hplace] at hagain
  exact ⟨htokens, hagain, (hlongest _ _ hsplit ⟨by unfold CutsBefore; decide +kernel,
    by decide +kernel⟩).2⟩

end ShaderFront
