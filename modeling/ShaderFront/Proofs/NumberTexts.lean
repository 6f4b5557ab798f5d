import ShaderFront.Proofs.ReadBack
import ShaderFront.Proofs.SingleLine

/-!
# Numbers are told apart by their texts

The text of a number in positional notation is a number literal that reads back as the number.
A text with an exponent gives back the digits and the exponent that it was written with. So no
two numbers have the same text, as long as they are numbers at all: the infinities are written
with letters, and only the patterns that denote no number share one text.
-/

namespace ShaderFront

/-! ## Rows of digits -/

namespace Numeral

theorem toNat_digit {n : Nat} (h : n < 10) : (digit n).toNat = 0x30 + n := by
  unfold digit
  rw [UInt8.toNat_ofNat']
  omega

theorem isDigit_iff {b : UInt8} : isDigit b = true ↔ 0x30 ≤ b.toNat ∧ b.toNat ≤ 0x39 := by
  simp only [isDigit, Bool.and_eq_true, decide_eq_true_eq, UInt8.le_iff_toNat_le]
  exact Iff.rfl

theorem isDigit_digit {n : Nat} (h : n < 10) : isDigit (digit n) = true := by
  rw [isDigit_iff, toNat_digit h]
  omega

/-- A numeral is made of digits. -/
theorem forall_isDigit_ofNat (n : Nat) : ∀ b ∈ ofNat n, isDigit b = true := by
  fun_induction ofNat n with
  | case1 n h =>
    intro b hb
    rw [List.mem_singleton.mp hb]
    exact isDigit_digit h
  | case2 n h ih =>
    intro b hb
    rcases List.mem_append.mp hb with hb | hb
    · exact ih b hb
    · rw [List.mem_singleton.mp hb]
      exact isDigit_digit (Nat.mod_lt n (by decide))

theorem ofNat_ne_nil (n : Nat) : ofNat n ≠ [] := by
  unfold ofNat
  split
  · exact List.cons_ne_nil _ _
  · exact List.append_ne_nil_of_right_ne_nil _ (List.cons_ne_nil _ _)

/-- Reading digits goes on from the number that was read before them. -/
theorem foldl_digits (n : Nat) (digits : Bytes) :
    digits.foldl (fun n b => 10 * n + (b.toNat - 0x30)) n =
      n * Nat.pow 10 digits.length + value digits := by
  induction digits generalizing n with
  | nil => simp [value]
  | cons d digits ih =>
    have hpow : Nat.pow 10 (d :: digits).length = 10 * Nat.pow 10 digits.length := Nat.pow_succ'
    rw [value, List.foldl_cons, List.foldl_cons, ih, ih, hpow, Nat.add_mul, Nat.add_mul]
    generalize Nat.pow 10 digits.length = p
    have hleft : 10 * n * p = n * (10 * p) := by rw [Nat.mul_comm 10 n, Nat.mul_assoc]
    omega

/-- The value of a row of digits in two parts. -/
theorem value_append (a b : Bytes) : value (a ++ b) = value a * Nat.pow 10 b.length + value b := by
  rw [value, List.foldl_append, foldl_digits]
  rfl

/-- A numeral has the value that it was written for. -/
theorem value_ofNat (n : Nat) : value (ofNat n) = n := by
  have hdigit : ∀ {d : Nat}, d < 10 → value [digit d] = d := by
    intro d hd
    simp [value, toNat_digit hd]
  fun_induction ofNat n with
  | case1 n h => exact hdigit h
  | case2 n h ih =>
    have hpow : Nat.pow 10 [digit (n % 10)].length = 10 := rfl
    rw [value_append, ih, hdigit (Nat.mod_lt n (by decide)), hpow]
    omega

theorem value_zeros (n : Nat) : value (List.replicate n 0x30) = 0 := by
  induction n with
  | zero => rfl
  | succ n ih =>
    rw [List.replicate_succ', value_append, ih]
    rfl

theorem forall_isDigit_zeros (n : Nat) : ∀ b ∈ List.replicate n 0x30, isDigit b = true := by
  intro b hb
  rw [List.eq_of_mem_replicate hb]
  rfl

end Numeral

/-- A text is cut in one way at the first place where a byte stands. -/
theorem eq_of_separated {separator : UInt8} {s s' t t' : Bytes} (hs : separator ∉ s)
    (hs' : separator ∉ s') (h : s ++ separator :: t = s' ++ separator :: t') :
    s = s' ∧ t = t' := by
  have hcut : ∀ {u v : Bytes}, separator ∉ u →
      (u ++ separator :: v).takeWhile (· ≠ separator) = u := by
    intro u v hu
    have hall : ∀ b ∈ u, decide (b ≠ separator) = true := by
      intro b hb
      have hne : b ≠ separator := fun he => hu (he ▸ hb)
      exact decide_eq_true hne
    rw [List.takeWhile_append_of_pos hall, List.takeWhile_cons_of_neg (by simp), List.append_nil]
  have hsame : s = s' := by rw [← hcut hs, h, hcut hs']
  rw [hsame] at h
  exact ⟨hsame, (List.cons.inj (List.append_cancel_left h)).2⟩

/-! ## Positional notation -/

/-- Digits before something else are cut off from it. -/
theorem takeWhile_digits {whole : Bytes} (hwhole : ∀ b ∈ whole, Numeral.isDigit b = true)
    {rest : Bytes} (hrest : ∀ b ∈ rest.head?, Numeral.isDigit b = false) :
    (whole ++ rest).takeWhile Numeral.isDigit = whole ∧
      (whole ++ rest).dropWhile Numeral.isDigit = rest := by
  have hstop : rest.takeWhile Numeral.isDigit = [] ∧ rest.dropWhile Numeral.isDigit = rest := by
    cases rest with
    | nil => exact ⟨rfl, rfl⟩
    | cons b rest =>
      have hb : ¬ Numeral.isDigit b = true := by rw [hrest b rfl]; decide
      exact ⟨List.takeWhile_cons_of_neg hb, List.dropWhile_cons_of_neg hb⟩
  rw [List.takeWhile_append_of_pos hwhole, List.dropWhile_append_of_pos hwhole, hstop.1, hstop.2,
    List.append_nil]
  exact ⟨rfl, rfl⟩

namespace Decimal

/-- Digits are read as a whole number. -/
theorem ofText?_digits {whole : Bytes} (hwhole : ∀ b ∈ whole, Numeral.isDigit b = true)
    (hne : whole ≠ []) : ofText? whole = some ⟨Numeral.value whole, 0⟩ := by
  have hnone : ∀ b ∈ ([] : Bytes).head?, Numeral.isDigit b = false := by simp
  obtain ⟨htake, hdrop⟩ := takeWhile_digits hwhole hnone
  rw [List.append_nil] at htake hdrop
  unfold ofText?
  simp [htake, hdrop, hne]

/-- Digits with a point between them are read with as many places as there are after it. -/
theorem ofText?_point {whole fraction : Bytes} (hwhole : ∀ b ∈ whole, Numeral.isDigit b = true)
    (hfraction : ∀ b ∈ fraction, Numeral.isDigit b = true) (hne : whole ≠ []) :
    ofText? (whole ++ 0x2e :: fraction) =
      some ⟨Numeral.value (whole ++ fraction), -(fraction.length : Int)⟩ := by
  have hpoint : ∀ b ∈ (0x2e :: fraction).head?, Numeral.isDigit b = false := by
    rintro b ⟨⟩
    rfl
  obtain ⟨htake, hdrop⟩ := takeWhile_digits hwhole hpoint
  unfold ofText?
  simpa [htake, hdrop, hne] using hfraction

section Positional

variable {digits : Bytes} (hdigits : ∀ b ∈ digits, Numeral.isDigit b = true)

include hdigits

/-- Digits after a point, with zeros between them and the point. -/
theorem ofText?_leadingZeros (zeros : Nat) :
    ofText? (utf8 "0." ++ List.replicate zeros 0x30 ++ digits) =
      some ⟨Numeral.value digits, -((zeros + digits.length : Nat) : Int)⟩ := by
  have hfraction : ∀ b ∈ List.replicate zeros 0x30 ++ digits, Numeral.isDigit b = true := by
    intro b hb
    rcases List.mem_append.mp hb with hb | hb
    · exact Numeral.forall_isDigit_zeros _ b hb
    · exact hdigits b hb
  have hread := ofText?_point (Numeral.forall_isDigit_zeros 1) hfraction (List.cons_ne_nil _ _)
  have htext : utf8 "0." ++ List.replicate zeros 0x30 ++ digits =
      List.replicate 1 0x30 ++ 0x2e :: (List.replicate zeros 0x30 ++ digits) := by
    rw [List.append_assoc]
    rfl
  rw [htext, hread, Numeral.value_append, Numeral.value_append, Numeral.value_zeros,
    Numeral.value_zeros, Nat.zero_mul, Nat.zero_mul, Nat.zero_add, Nat.zero_add,
    List.length_append, List.length_replicate]

/-- Digits with zeros after them and no point. -/
theorem ofText?_trailingZeros (hne : digits ≠ []) (zeros : Nat) :
    ofText? (digits ++ List.replicate zeros 0x30) =
      some ⟨Numeral.value digits * Nat.pow 10 zeros, 0⟩ := by
  have hall : ∀ b ∈ digits ++ List.replicate zeros 0x30, Numeral.isDigit b = true := by
    intro b hb
    rcases List.mem_append.mp hb with hb | hb
    · exact hdigits b hb
    · exact Numeral.forall_isDigit_zeros _ b hb
  rw [ofText?_digits hall (List.append_ne_nil_of_left_ne_nil hne _), Numeral.value_append,
    Numeral.value_zeros, List.length_replicate, Nat.add_zero]

/-- Digits with a point between them. -/
theorem ofText?_pointInside (hne : digits ≠ []) {place : Nat} (hplace : 0 < place) :
    ofText? (digits.take place ++ utf8 "." ++ digits.drop place) =
      some ⟨Numeral.value digits, -((digits.length - place : Nat) : Int)⟩ := by
  have hwhole : ∀ b ∈ digits.take place, Numeral.isDigit b = true :=
    fun b hb => hdigits b (List.mem_of_mem_take hb)
  have hrest : ∀ b ∈ digits.drop place, Numeral.isDigit b = true :=
    fun b hb => hdigits b (List.mem_of_mem_drop hb)
  have hsome : digits.take place ≠ [] := by
    intro hnil
    rcases List.take_eq_nil_iff.mp hnil with hzero | hzero
    · omega
    · exact hne hzero
  have htext : digits.take place ++ utf8 "." ++ digits.drop place =
      digits.take place ++ 0x2e :: digits.drop place := by
    rw [List.append_assoc]
    rfl
  rw [htext, ofText?_point hwhole hrest hsome, List.take_append_drop, List.length_drop]

end Positional

/-- A decimal in positional notation is a number literal with the same value. -/
theorem ofText?_positional (d : Decimal) :
    Binary64.ofText? (positional (Numeral.ofNat d.coefficient)
      ((Numeral.ofNat d.coefficient).length + d.exponent)) = d.toBinary64? := by
  obtain ⟨c, e⟩ := d
  have hdigits := Numeral.forall_isDigit_ofNat c
  have hvalue := Numeral.value_ofNat c
  have hne := Numeral.ofNat_ne_nil c
  dsimp only
  generalize Numeral.ofNat c = digits at hdigits hvalue hne
  have hlength : 0 < digits.length := List.length_pos_iff.mpr hne
  unfold positional Binary64.ofText?
  split
  case isTrue hplace =>
    have hexponent : -(((-(digits.length + e)).toNat + digits.length : Nat) : Int) = e := by omega
    rw [ofText?_leadingZeros hdigits, hvalue, hexponent]
    rfl
  case isFalse hplace =>
    dsimp only
    split
    case isTrue hfraction =>
      have hle : digits.length ≤ (digits.length + e).toNat := by
        rw [List.isEmpty_iff, List.drop_eq_nil_iff] at hfraction
        exact hfraction
      have hzeros : (digits.length + e).toNat - digits.length = e.toNat := by omega
      have hden : (-e).toNat = 0 := by omega
      have hone : Nat.pow 10 (0 : Int).toNat = 1 := rfl
      rw [List.take_of_length_le hle, ofText?_trailingZeros hdigits hne, hvalue, hzeros,
        Option.bind_some, toBinary64?, toBinary64?]
      unfold num den
      dsimp only
      rw [hden, hone, Nat.mul_one]
      rfl
    case isFalse hfraction =>
      have hlt : (digits.length + e).toNat < digits.length := by
        rw [List.isEmpty_iff, List.drop_eq_nil_iff] at hfraction
        omega
      have hpos : 0 < (digits.length + e).toNat := by omega
      have hexponent : -((digits.length - (digits.length + e).toNat : Nat) : Int) = e := by omega
      rw [ofText?_pointInside hdigits hne hpos, hvalue, hexponent]
      rfl

/-! ## Notation with an exponent -/

/-- The letter before an exponent. -/
def exponentByte : UInt8 := 0x65

theorem exponentByte_notMem_digits {digits : Bytes}
    (h : ∀ b ∈ digits, Numeral.isDigit b = true) : exponentByte ∉ digits := by
  intro hm
  cases h _ hm

/-- An exponent is told by its text. -/
theorem exponentText_injective {e e' : Int} (h : exponentText e = exponentText e') : e = e' := by
  have hvalue : ∀ n : Nat, Numeral.value
      (List.replicate (2 - (Numeral.ofNat n).length) 0x30 ++ Numeral.ofNat n) = n := by
    intro n
    rw [Numeral.value_append, Numeral.value_zeros, Numeral.value_ofNat, Nat.zero_mul, Nat.zero_add]
  have htext : ∀ e : Int, exponentText e = (if e < 0 then 0x2d else 0x2b) ::
      (List.replicate (2 - (Numeral.ofNat e.natAbs).length) 0x30 ++ Numeral.ofNat e.natAbs) := by
    intro e
    unfold exponentText
    dsimp only
    rw [List.append_assoc]
    split <;> rfl
  rw [htext, htext] at h
  obtain ⟨hsign, hdigits⟩ := List.cons.inj h
  have habs : e.natAbs = e'.natAbs := by
    have hsame := congrArg Numeral.value hdigits
    rwa [hvalue, hvalue] at hsame
  have hnegative : e < 0 ↔ e' < 0 := by
    by_cases he : e < 0 <;> by_cases he' : e' < 0 <;> simp [he, he'] at hsign ⊢
  omega

/-- The digits of a number with an exponent, with the point after the first one. -/
def mantissa (digits : Bytes) : Bytes :=
  digits.take 1 ++ if (digits.drop 1).isEmpty then [] else 0x2e :: digits.drop 1

theorem scientific_eq (digits : Bytes) (e : Int) :
    scientific digits e = mantissa digits ++ exponentByte :: exponentText e := by
  have hletter : utf8 "e" = [exponentByte] := rfl
  have hpoint : utf8 "." = [0x2e] := rfl
  unfold scientific mantissa
  simp only [hletter, hpoint, List.append_assoc, List.singleton_append]

section Mantissa

variable {digits digits' : Bytes} (hdigits : ∀ b ∈ digits, Numeral.isDigit b = true)
  (hdigits' : ∀ b ∈ digits', Numeral.isDigit b = true)

include hdigits

/-- Without the point, the digits are left. -/
theorem filter_mantissa : (mantissa digits).filter Numeral.isDigit = digits := by
  have hfirst : (digits.take 1).filter Numeral.isDigit = digits.take 1 :=
    List.filter_eq_self.mpr fun b hb => hdigits b (List.mem_of_mem_take hb)
  have hrest : (digits.drop 1).filter Numeral.isDigit = digits.drop 1 :=
    List.filter_eq_self.mpr fun b hb => hdigits b (List.mem_of_mem_drop hb)
  have hpoint : ¬ Numeral.isDigit 0x2e = true := by decide
  unfold mantissa
  rw [List.filter_append, hfirst]
  split
  case isTrue hempty =>
    rw [List.isEmpty_iff] at hempty
    rw [List.filter_nil, ← hempty, List.take_append_drop]
  case isFalse => rw [List.filter_cons_of_neg hpoint, hrest, List.take_append_drop]

theorem exponentByte_notMem_mantissa : exponentByte ∉ mantissa digits := by
  have hfree := exponentByte_notMem_digits hdigits
  unfold mantissa
  intro hm
  rcases List.mem_append.mp hm with hm | hm
  · exact hfree (List.mem_of_mem_take hm)
  · split at hm
    · cases hm
    · rcases List.mem_cons.mp hm with hm | hm
      · cases hm
      · exact hfree (List.mem_of_mem_drop hm)

include hdigits'

/-- The digits and the exponent are told by the text. -/
theorem scientific_injective {e e' : Int} (h : scientific digits e = scientific digits' e') :
    digits = digits' ∧ e = e' := by
  rw [scientific_eq, scientific_eq] at h
  obtain ⟨hmantissa, hexponent⟩ := eq_of_separated (exponentByte_notMem_mantissa hdigits)
    (exponentByte_notMem_mantissa hdigits') h
  have hsame := congrArg (List.filter Numeral.isDigit) hmantissa
  rw [filter_mantissa hdigits, filter_mantissa hdigits'] at hsame
  exact ⟨hsame, exponentText_injective hexponent⟩

end Mantissa

/-- A decimal is written in positional notation and reads back from it, or it is written with
an exponent. -/
theorem text_cases (d : Decimal) :
    (exponentByte ∉ d.text ∧ Binary64.ofText? d.text = d.toBinary64?) ∨
      exponentByte ∈ d.text ∧ d.text = scientific (Numeral.ofNat d.coefficient)
        ((Numeral.ofNat d.coefficient).length + d.exponent - 1) := by
  unfold text
  dsimp only
  split
  · have hfree := exponentByte_notMem_digits (Numeral.forall_isDigit_ofNat d.coefficient)
    exact .inl ⟨notMem_positional hfree (by decide) (by decide) _, ofText?_positional d⟩
  · refine .inr ⟨?_, rfl⟩
    rw [scientific_eq]
    exact List.mem_append_right _ List.mem_cons_self

/-- Decimals with the same text read back as the same number. -/
theorem toBinary64?_of_text {d d' : Decimal} (h : d.text = d'.text) :
    d.toBinary64? = d'.toBinary64? := by
  rcases d.text_cases with ⟨hfree, hread⟩ | ⟨hletter, htext⟩
  · rcases d'.text_cases with ⟨-, hread'⟩ | ⟨hletter', -⟩
    · rw [← hread, ← hread', h]
    · rw [← h] at hletter'
      exact absurd hletter' hfree
  · rcases d'.text_cases with ⟨hfree', -⟩ | ⟨-, htext'⟩
    · rw [← h] at hfree'
      exact absurd hletter hfree'
    · rw [htext, htext'] at h
      obtain ⟨hdigits, hplace⟩ := scientific_injective (Numeral.forall_isDigit_ofNat _)
        (Numeral.forall_isDigit_ofNat _) h
      have hcoefficient : d.coefficient = d'.coefficient := by
        rw [← Numeral.value_ofNat d.coefficient, hdigits, Numeral.value_ofNat]
      have hexponent : d.exponent = d'.exponent := by
        rw [hdigits] at hplace
        omega
      obtain ⟨c, e⟩ := d
      obtain ⟨c', e'⟩ := d'
      cases hcoefficient
      cases hexponent
      rfl

/-- The text of a decimal starts with a digit. -/
theorem exists_digit_of_text (d : Decimal) :
    ∃ b rest, d.text = b :: rest ∧ Numeral.isDigit b = true := by
  have hdigits := Numeral.forall_isDigit_ofNat d.coefficient
  obtain ⟨b, rest, hcons⟩ := List.exists_cons_of_ne_nil (Numeral.ofNat_ne_nil d.coefficient)
  have hb : Numeral.isDigit b = true := hdigits b (by rw [hcons]; exact List.mem_cons_self)
  unfold text
  dsimp only
  rw [hcons]
  split
  · unfold positional
    dsimp only
    split
    · exact ⟨0x30, _, rfl, rfl⟩
    · next hplace =>
      obtain ⟨k, hk⟩ : ∃ k, (((b :: rest).length : Int) + d.exponent).toNat = k + 1 :=
        ⟨(((b :: rest).length : Int) + d.exponent).toNat - 1, by omega⟩
      rw [hk, List.take_succ_cons]
      split <;> exact ⟨b, _, rfl, hb⟩
  · exact ⟨b, _, rfl, hb⟩

end Decimal

/-! ## Binary numbers -/

namespace Binary64

/-- The magnitude of a number as it is printed. -/
def magnitudeText (x : Binary64) : Bytes :=
  if x.isZero then utf8 "0" else (Decimal.shortest x.abs).text

/-- The magnitude without the sign. -/
theorem toNat_bits_abs (x : Binary64) : x.abs.bits.toNat = x.magnitude := by
  have hlt : x.magnitude < signUnit := Nat.mod_lt _ (by decide)
  unfold signUnit at hlt
  unfold abs
  rw [UInt64.toNat_ofNat']
  omega

/-- A number is its sign and its magnitude. -/
theorem eq_of_parts {x y : Binary64} (hsign : x.negative = y.negative)
    (hmagnitude : x.magnitude = y.magnitude) : x = y := by
  have hx := x.bits.toNat_lt
  have hy := y.bits.toNat_lt
  have hiff : signUnit ≤ x.bits.toNat ↔ signUnit ≤ y.bits.toNat := by
    rw [← decide_eq_true_iff (p := signUnit ≤ x.bits.toNat),
      ← decide_eq_true_iff (p := signUnit ≤ y.bits.toNat)]
    exact Eq.to_iff (congrArg (· = true) hsign)
  have hbits : x.bits.toNat = y.bits.toNat := by
    unfold magnitude signUnit at *
    omega
  obtain ⟨a⟩ := x
  obtain ⟨b⟩ := y
  exact congrArg Binary64.mk (UInt64.toNat_inj.mp hbits)

/-- A finite magnitude is printed as a decimal that reads back. -/
theorem exists_decimal {x : Binary64} (h : x.magnitude < infinityBits) :
    ∃ d : Decimal, x.magnitudeText = d.text ∧ d.toBinary64? = some x.abs := by
  have hbits := x.toNat_bits_abs
  unfold magnitudeText
  split
  case isTrue hzero =>
    have hmagnitude : x.magnitude = 0 := of_decide_eq_true hzero
    have habs : x.abs = zero := by
      unfold abs
      rw [hmagnitude]
      rfl
    refine ⟨⟨0, 0⟩, ?_, ?_⟩
    · decide +kernel
    · rw [habs]
      rfl
  case isFalse hzero =>
    have hmagnitude : x.magnitude ≠ 0 := fun he => hzero (decide_eq_true he)
    refine ⟨Decimal.shortest x.abs, rfl, Decimal.toBinary64?_shortest ?_ ?_⟩
    · rw [hbits]
      exact h
    · rw [hbits]
      exact hmagnitude

/-- Finite magnitudes are told apart by their texts. -/
theorem magnitude_eq_of_text {x y : Binary64} (hx : x.magnitude < infinityBits)
    (hy : y.magnitude < infinityBits) (h : x.magnitudeText = y.magnitudeText) :
    x.magnitude = y.magnitude := by
  obtain ⟨d, hd, hread⟩ := exists_decimal hx
  obtain ⟨d', hd', hread'⟩ := exists_decimal hy
  rw [hd, hd'] at h
  have hsame := Decimal.toBinary64?_of_text h
  rw [hread, hread'] at hsame
  rw [← toNat_bits_abs, Option.some.inj hsame, toNat_bits_abs]

/-- The text of a number that is one and is finite. -/
theorem text_of_finite {x : Binary64} (h : x.magnitude < infinityBits) :
    x.text = (if x.negative then [0x2d] else []) ++ x.magnitudeText := by
  have hnan : x.isNaN = false := decide_eq_false (by omega)
  have hinfinite : x.isInfinite = false := decide_eq_false (by omega)
  unfold text
  rw [hnan, hinfinite]
  rfl

/-- The text of an infinity. -/
theorem text_of_infinite {x : Binary64} (h : x.magnitude = infinityBits) :
    x.text = if x.negative then utf8 "-Inf" else utf8 "+Inf" := by
  have hnan : x.isNaN = false := decide_eq_false (by omega)
  have hinfinite : x.isInfinite = true := decide_eq_true h
  unfold text
  rw [hnan, hinfinite]
  rfl

/-- A finite magnitude starts with a digit. -/
theorem exists_digit_of_magnitudeText {x : Binary64} (h : x.magnitude < infinityBits) :
    ∃ b rest, x.magnitudeText = b :: rest ∧ Numeral.isDigit b = true := by
  obtain ⟨d, hd, -⟩ := exists_decimal h
  rw [hd]
  exact d.exists_digit_of_text

/-- No finite number is written like an infinity. -/
theorem text_ne_of_infinite {x y : Binary64} (hx : x.magnitude < infinityBits)
    (hy : y.magnitude = infinityBits) : x.text ≠ y.text := by
  intro h
  obtain ⟨b, rest, hb, hdigit⟩ := exists_digit_of_magnitudeText hx
  rw [text_of_finite hx, text_of_infinite hy, hb] at h
  split at h <;> split at h
  · obtain ⟨rfl, -⟩ := List.cons.inj (List.cons.inj h).2
    cases hdigit
  · cases (List.cons.inj h).1
  · obtain ⟨rfl, -⟩ := List.cons.inj h
    cases hdigit
  · obtain ⟨rfl, -⟩ := List.cons.inj h
    cases hdigit

/-- Finite numbers are told apart by their texts. -/
theorem eq_of_text_of_finite {x y : Binary64} (hx : x.magnitude < infinityBits)
    (hy : y.magnitude < infinityBits) (h : x.text = y.text) : x = y := by
  obtain ⟨b, rest, hb, hdigit⟩ := exists_digit_of_magnitudeText hx
  obtain ⟨b', rest', hb', hdigit'⟩ := exists_digit_of_magnitudeText hy
  rw [text_of_finite hx, text_of_finite hy] at h
  cases hxs : x.negative <;> cases hys : y.negative <;> rw [hxs, hys] at h
  · exact eq_of_parts (hxs.trans hys.symm) (magnitude_eq_of_text hx hy h)
  · rw [hb] at h
    obtain ⟨rfl, -⟩ := List.cons.inj h
    cases hdigit
  · rw [hb'] at h
    obtain ⟨rfl, -⟩ := List.cons.inj h
    cases hdigit'
  · exact eq_of_parts (hxs.trans hys.symm) (magnitude_eq_of_text hx hy (List.cons.inj h).2)

/-- Numbers are told apart by their texts. -/
theorem text_injective {x y : Binary64} (hx : x.isNaN = false) (hy : y.isNaN = false)
    (h : x.text = y.text) : x = y := by
  have hx' := of_decide_eq_false hx
  have hy' := of_decide_eq_false hy
  rcases Nat.lt_or_ge x.magnitude infinityBits with hxf | hxi
  · rcases Nat.lt_or_ge y.magnitude infinityBits with hyf | hyi
    · exact eq_of_text_of_finite hxf hyf h
    · exact absurd h (text_ne_of_infinite hxf (by omega))
  · have hxi' : x.magnitude = infinityBits := by omega
    rcases Nat.lt_or_ge y.magnitude infinityBits with hyf | hyi
    · exact absurd h.symm (text_ne_of_infinite hyf hxi')
    · have hyi' : y.magnitude = infinityBits := by omega
      refine eq_of_parts ?_ (hxi'.trans hyi'.symm)
      rw [text_of_infinite hxi', text_of_infinite hyi'] at h
      cases hxs : x.negative <;> cases hys : y.negative <;> rw [hxs, hys] at h
      · exact absurd h (by decide)
      · exact absurd h (by decide)

end Binary64

end ShaderFront
