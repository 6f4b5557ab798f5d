import Mathlib.Algebra.Order.Field.Power
import Mathlib.Algebra.Order.Ring.Rat
import Mathlib.Tactic.FieldSimp
import ShaderFront.Number.Written

/-!
# Written numbers read back

A finite number is the binary number nearest to its own exact value, and the binary number
nearest to a decimal depends on nothing but the value of the decimal. So the decimal that is
chosen to write a number reads back as that number, whether the search for a short one found
it or the exact value closed the search.
-/

namespace ShaderFront

/-! ## Quotients -/

/-- A power of two with any exponent is a quotient of powers of two. -/
theorem two_zpow_eq (k : Int) :
    (2 : ℚ) ^ k = (Nat.pow 2 k.toNat : Nat) / (Nat.pow 2 (-k).toNat : Nat) := by
  rw [Nat.pow_eq, Nat.pow_eq, Nat.cast_pow, Nat.cast_pow, Nat.cast_ofNat, ← zpow_natCast,
    ← zpow_natCast, ← zpow_sub₀ (by norm_num)]
  congr 1
  omega

/-- A power of two compares with a quotient as products of natural numbers do. -/
theorem two_zpow_le_iff {num den : Nat} (hden : den ≠ 0) (k : Int) :
    (2 : ℚ) ^ k ≤ num / den ↔ den * Nat.pow 2 k.toNat ≤ num * Nat.pow 2 (-k).toNat := by
  have hden' : (0 : ℚ) < den := Nat.cast_pos.mpr (Nat.pos_of_ne_zero hden)
  have hpow : (0 : ℚ) < (Nat.pow 2 (-k).toNat : Nat) := Nat.cast_pos.mpr (Nat.two_pow_pos _)
  rw [two_zpow_eq, div_le_div_iff₀ hpow hden', mul_comm]
  exact_mod_cast Iff.rfl

/-- The logarithm of a positive quotient is that of the power of two at or below it. -/
theorem floorLog2_spec {num den : Nat} (hnum : num ≠ 0) (hden : den ≠ 0) :
    (2 : ℚ) ^ floorLog2 num den ≤ num / den ∧ (num : ℚ) / den < 2 ^ (floorLog2 num den + 1) := by
  have hden' : (0 : ℚ) < den := Nat.cast_pos.mpr (Nat.pos_of_ne_zero hden)
  have hnumLow : (2 : ℚ) ^ (num.log2 : Int) ≤ num := by exact_mod_cast Nat.log2_self_le hnum
  have hnumHigh : (num : ℚ) < 2 ^ (num.log2 + 1 : Int) := by exact_mod_cast Nat.lt_log2_self
  have hdenLow : (2 : ℚ) ^ (den.log2 : Int) ≤ den := by exact_mod_cast Nat.log2_self_le hden
  have hdenHigh : (den : ℚ) < 2 ^ (den.log2 + 1 : Int) := by exact_mod_cast Nat.lt_log2_self
  have hlow : (2 : ℚ) ^ ((num.log2 : Int) - den.log2 - 1) ≤ num / den := by
    rw [le_div_iff₀ hden']
    calc (2 : ℚ) ^ ((num.log2 : Int) - den.log2 - 1) * den
        ≤ 2 ^ ((num.log2 : Int) - den.log2 - 1) * 2 ^ (den.log2 + 1 : Int) :=
          mul_le_mul_of_nonneg_left hdenHigh.le (zpow_nonneg (by norm_num) _)
      _ = 2 ^ (num.log2 : Int) := by
        rw [← zpow_add₀ (by norm_num)]
        congr 1
        omega
      _ ≤ num := hnumLow
  have hhigh : (num : ℚ) / den < 2 ^ ((num.log2 : Int) - den.log2 + 1) := by
    rw [div_lt_iff₀ hden']
    calc (num : ℚ) < 2 ^ (num.log2 + 1 : Int) := hnumHigh
      _ = 2 ^ ((num.log2 : Int) - den.log2 + 1) * 2 ^ (den.log2 : Int) := by
        rw [← zpow_add₀ (by norm_num)]
        congr 1
        omega
      _ ≤ 2 ^ ((num.log2 : Int) - den.log2 + 1) * den :=
          mul_le_mul_of_nonneg_left hdenLow (zpow_nonneg (by norm_num) _)
  unfold floorLog2
  dsimp only
  split
  case isTrue h => exact ⟨(two_zpow_le_iff hden _).mpr h, hhigh⟩
  case isFalse h =>
    rw [← two_zpow_le_iff hden, not_le] at h
    exact ⟨hlow, by rwa [sub_add_cancel]⟩

/-- Only one power of two is at or below a quotient with the next one above it. -/
theorem floorLog2_eq {num den : Nat} (hnum : num ≠ 0) (hden : den ≠ 0) {k : Int}
    (hlower : (2 : ℚ) ^ k ≤ num / den) (hupper : (num : ℚ) / den < 2 ^ (k + 1)) :
    floorLog2 num den = k := by
  obtain ⟨hlow, hhigh⟩ := floorLog2_spec hnum hden
  have hle : k < floorLog2 num den + 1 :=
    (zpow_lt_zpow_iff_right₀ (by norm_num)).mp (lt_of_le_of_lt hlower hhigh)
  have hge : floorLog2 num den < k + 1 :=
    (zpow_lt_zpow_iff_right₀ (by norm_num)).mp (lt_of_le_of_lt hlow hupper)
  omega

/-- The logarithm of a quotient depends on its value only. -/
theorem floorLog2_mul {num den k : Nat} (hnum : num ≠ 0) (hden : den ≠ 0) (hk : 0 < k) :
    floorLog2 (num * k) (den * k) = floorLog2 num den := by
  have hvalue : ((num * k : Nat) : ℚ) / (den * k : Nat) = num / den := by
    have hk' : (k : ℚ) ≠ 0 := by exact_mod_cast hk.ne'
    rw [Nat.cast_mul, Nat.cast_mul, mul_div_mul_right _ _ hk']
  obtain ⟨hlow, hhigh⟩ := floorLog2_spec hnum hden
  rw [← hvalue] at hlow hhigh
  exact floorLog2_eq (Nat.mul_ne_zero hnum hk.ne') (Nat.mul_ne_zero hden hk.ne') hlow hhigh

/-- Rounding a quotient depends on its value only. -/
theorem roundDiv_mul {k : Nat} (hk : 0 < k) (num : Nat) {den : Nat} :
    roundDiv (num * k) (den * k) = roundDiv num den := by
  unfold roundDiv
  have hquotient : num * k / (den * k) = num / den := Nat.mul_div_mul_right num den hk
  have hremainder : num * k % (den * k) = num % den * k := Nat.mul_mod_mul_right k num den
  have hbelow : 2 * (num % den * k) < den * k ↔ 2 * (num % den) < den := by
    rw [← Nat.mul_assoc]
    exact Nat.mul_lt_mul_right hk
  have habove : den * k < 2 * (num % den * k) ↔ den < 2 * (num % den) := by
    rw [← Nat.mul_assoc]
    exact Nat.mul_lt_mul_right hk
  simp only [hquotient, hremainder, hbelow, habove]

/-- A quotient without remainder is not rounded. -/
theorem roundDiv_exact (n : Nat) {den : Nat} (hden : 0 < den) : roundDiv (n * den) den = n := by
  unfold roundDiv
  rw [Nat.mul_mod_left, Nat.mul_div_cancel n hden]
  simp [hden]

namespace Binary64

/-- The nearest binary number depends on the value of a quotient only. -/
theorem nearest?_mul (num : Nat) {den k : Nat} (hden : den ≠ 0) (hk : 0 < k) :
    nearest? (num * k) (den * k) = nearest? num den := by
  by_cases hnum : num = 0
  · rw [hnum, Nat.zero_mul, nearest?, nearest?, if_pos rfl, if_pos rfl]
  · have hnum' : num * k ≠ 0 := Nat.mul_ne_zero hnum hk.ne'
    unfold nearest?
    rw [if_neg hnum, if_neg hnum', floorLog2_mul hnum hden hk]
    dsimp only
    rw [Nat.mul_right_comm num, Nat.mul_right_comm den, roundDiv_mul hk]

/-- Powers of two as rational numbers. -/
theorem cast_two_pow (e : Nat) : ((Nat.pow 2 e : Nat) : ℚ) = 2 ^ (e : Int) := by
  rw [Nat.pow_eq, Nat.cast_pow, Nat.cast_ofNat, zpow_natCast]

/-- Products of powers of two. -/
theorem two_pow_mul (a b : Nat) : Nat.pow 2 a * Nat.pow 2 b = Nat.pow 2 (a + b) :=
  (Nat.pow_add 2 a b).symm

theorem two_pow_pos (e : Nat) : 0 < Nat.pow 2 e := Nat.two_pow_pos e

/-- The common denominator as a power with a named exponent, which no step evaluates. -/
theorem exists_exactDen_eq : ∃ e : Nat, e = 1074 ∧ exactDen = Nat.pow 2 e :=
  ⟨_, rfl, rfl⟩

theorem exactDen_pos : 0 < exactDen := by
  obtain ⟨e, -, he⟩ := exists_exactDen_eq
  rw [he]
  exact two_pow_pos e

/-- The exact value of a scaled whole number. -/
theorem scaled_value (s t : Nat) :
    ((s * Nat.pow 2 t : Nat) : ℚ) / (exactDen : Nat) = s * 2 ^ ((t : Int) - 1074) := by
  obtain ⟨e, hexponent, he⟩ := exists_exactDen_eq
  have hexponent' : (t : Int) - 1074 = t - e := by omega
  rw [he, Nat.cast_mul, cast_two_pow, cast_two_pow, mul_div_assoc, ← zpow_sub₀ (by norm_num),
    hexponent']

/-- The unit of a whole number below `2 ^ 53` that is scaled by a power of two. The number has
53 bits, or the power is the lowest. -/
theorem unit_scaled {s t : Nat} (hs : s ≠ 0) (hbelow : s < Nat.pow 2 53)
    (hfull : t = 0 ∨ Nat.pow 2 52 ≤ s) :
    max (floorLog2 (s * Nat.pow 2 t) exactDen - 52) (-1074) = (t : Int) - 1074 := by
  have hnum : s * Nat.pow 2 t ≠ 0 := Nat.mul_ne_zero hs (two_pow_pos t).ne'
  obtain ⟨hlow, hhigh⟩ := floorLog2_spec hnum exactDen_pos.ne'
  rw [scaled_value] at hlow hhigh
  generalize floorLog2 (s * Nat.pow 2 t) exactDen = k at hlow hhigh
  have hscale : (0 : ℚ) < 2 ^ ((t : Int) - 1074) := zpow_pos (by norm_num) _
  have hupper : k < 53 + ((t : Int) - 1074) := by
    have hs' : (s : ℚ) < 2 ^ (53 : Int) := by exact_mod_cast hbelow
    have hlt : (s : ℚ) * 2 ^ ((t : Int) - 1074) < 2 ^ (53 : Int) * 2 ^ ((t : Int) - 1074) :=
      mul_lt_mul_of_pos_right hs' hscale
    rw [← zpow_add₀ (by norm_num)] at hlt
    exact (zpow_lt_zpow_iff_right₀ (by norm_num)).mp (lt_of_le_of_lt hlow hlt)
  rcases hfull with rfl | hfull
  · omega
  · have hlower : 52 + ((t : Int) - 1074) < k + 1 := by
      have hs' : (2 : ℚ) ^ (52 : Int) ≤ s := by exact_mod_cast hfull
      have hle : (2 : ℚ) ^ (52 : Int) * 2 ^ ((t : Int) - 1074) ≤ s * 2 ^ ((t : Int) - 1074) :=
        mul_le_mul_of_nonneg_right hs' hscale.le
      rw [← zpow_add₀ (by norm_num)] at hle
      exact (zpow_lt_zpow_iff_right₀ (by norm_num)).mp (lt_of_le_of_lt hle hhigh)
    omega

/-- A whole number below `2 ^ 53` that is scaled by a power of two is not rounded. -/
theorem nearest?_scaled {s t : Nat} (hs : s ≠ 0) (hbelow : s < Nat.pow 2 53)
    (hfull : t = 0 ∨ Nat.pow 2 52 ≤ s) (hfinite : t * exponentUnit + s < infinityBits) :
    nearest? (s * Nat.pow 2 t) exactDen = some ⟨UInt64.ofNat (t * exponentUnit + s)⟩ := by
  have hnum : s * Nat.pow 2 t ≠ 0 := Nat.mul_ne_zero hs (two_pow_pos t).ne'
  have hexact : s * Nat.pow 2 t * Nat.pow 2 (-((t : Int) - 1074)).toNat =
      s * (exactDen * Nat.pow 2 ((t : Int) - 1074).toNat) := by
    obtain ⟨e, hexponent, he⟩ := exists_exactDen_eq
    have hsum : t + (-((t : Int) - 1074)).toNat = e + ((t : Int) - 1074).toNat := by omega
    rw [he, Nat.mul_assoc, two_pow_mul, two_pow_mul, hsum]
  have hden : 0 < exactDen * Nat.pow 2 ((t : Int) - 1074).toNat :=
    Nat.mul_pos exactDen_pos (two_pow_pos _)
  have hbits : ((t : Int) - 1074 + 1074).toNat = t := by omega
  unfold nearest?
  rw [if_neg hnum, unit_scaled hs hbelow hfull]
  dsimp only
  rw [hexact, roundDiv_exact s hden, hbits, if_pos hfinite]

/-- A positive finite number is the nearest one to its own value. -/
theorem nearest?_exact {x : Binary64} (hfinite : x.bits.toNat < infinityBits)
    (hpos : x.bits.toNat ≠ 0) : nearest? x.exactNum exactDen = some x := by
  have hmagnitude : x.magnitude = x.bits.toNat := by
    unfold magnitude
    apply Nat.mod_eq_of_lt
    unfold infinityBits signUnit at *
    omega
  have hbits : x.scale * exponentUnit + x.significand = x.bits.toNat := by
    unfold scale significand
    rw [hmagnitude]
    unfold exponentUnit
    split <;> omega
  have hrestored : (⟨UInt64.ofNat x.bits.toNat⟩ : Binary64) = x := by
    rw [UInt64.ofNat_toNat]
  have hnearest : nearest? x.exactNum exactDen =
      some ⟨UInt64.ofNat (x.scale * exponentUnit + x.significand)⟩ := by
    apply nearest?_scaled
    · unfold significand
      rw [hmagnitude]
      unfold exponentUnit
      split <;> omega
    · unfold significand exponentUnit
      rw [Nat.pow_eq]
      split <;> omega
    · unfold scale significand
      rw [hmagnitude]
      unfold exponentUnit
      rw [Nat.pow_eq]
      split <;> omega
    · rw [hbits]
      exact hfinite
  rw [hnearest, hbits, hrestored]

end Binary64

/-! ## Decimals that read back -/

namespace Decimal

/-- A zero moves from the end of the coefficient to the exponent. -/
theorem toBinary64?_shift (c : Nat) (e : Int) :
    (⟨c, e + 1⟩ : Decimal).toBinary64? = (⟨c * 10, e⟩ : Decimal).toBinary64? := by
  unfold toBinary64? num den
  dsimp only
  rcases Int.lt_or_le e 0 with he | he
  · have hpow : e.toNat = (e + 1).toNat := by omega
    have hden : (-e).toNat = (-(e + 1)).toNat + 1 := by omega
    have hpos : Nat.pow 10 (-(e + 1)).toNat ≠ 0 := (Nat.pow_pos (by decide)).ne'
    have hsucc : Nat.pow 10 ((-(e + 1)).toNat + 1) = Nat.pow 10 (-(e + 1)).toNat * 10 := rfl
    rw [hpow, hden, hsucc, Nat.mul_right_comm, Binary64.nearest?_mul _ hpos (by decide)]
  · have hpow : (e + 1).toNat = e.toNat + 1 := by omega
    have hden : (-(e + 1)).toNat = (-e).toNat := by omega
    have hsucc : Nat.pow 10 (e.toNat + 1) = 10 * Nat.pow 10 e.toNat := Nat.pow_succ'
    rw [hpow, hden, hsucc, ← Nat.mul_assoc]

/-- Trimming does not change what a decimal reads back as. -/
theorem toBinary64?_trim (d : Decimal) : d.trim.toBinary64? = d.toBinary64? := by
  fun_induction Decimal.trim d with
  | case1 d h ih =>
    have hwhole : d.coefficient / 10 * 10 = d.coefficient := by omega
    rw [ih, toBinary64?_shift, hwhole]
  | case2 d h => rfl

/-- A decimal that the search finds reads back. -/
theorem toBinary64?_of_withDigits? {x : Binary64} {n : Nat} {d : Decimal}
    (h : withDigits? x n = some d) : d.toBinary64? = some x := by
  unfold withDigits? at h
  dsimp only at h
  split at h
  · next hlower hupper =>
    have hlower' := of_decide_eq_true hlower
    have hupper' := of_decide_eq_true hupper
    split at h
    · cases h
      exact hlower'
    · split at h
      · cases h
        exact hupper'
      · split at h <;> cases h
        · exact hlower'
        · exact hupper'
  · next hlower _ =>
    cases h
    exact of_decide_eq_true hlower
  · next _ hupper =>
    cases h
    exact of_decide_eq_true hupper
  · cases h

/-- A fraction over a power of two as a decimal. -/
theorem toBinary64?_dyadic (a e : Nat) :
    (⟨a * Nat.pow 5 e, -(e : Int)⟩ : Decimal).toBinary64? =
      Binary64.nearest? a (Nat.pow 2 e) := by
  have hpos : Nat.pow 5 e > 0 := Nat.pow_pos (by decide)
  have htwo : Nat.pow 2 e ≠ 0 := (Binary64.two_pow_pos e).ne'
  have hten : Nat.pow 10 e = Nat.pow 2 e * Nat.pow 5 e := Nat.mul_pow 2 5 e
  have hnum : (-(e : Int)).toNat = 0 := by omega
  have hden : (- -(e : Int)).toNat = e := by omega
  have hone : Nat.pow 10 0 = 1 := rfl
  unfold toBinary64? num den
  dsimp only
  rw [hnum, hden, hten, hone, Nat.mul_one, Binary64.nearest?_mul a htwo hpos]

/-- The decimal that a positive finite number is written with reads back as that number. -/
theorem toBinary64?_shortest {x : Binary64} (hfinite : x.bits.toNat < Binary64.infinityBits)
    (hpos : x.bits.toNat ≠ 0) : (shortest x).toBinary64? = some x := by
  unfold shortest
  rw [toBinary64?_trim]
  cases h : (List.range 17).findSome? fun n => withDigits? x (n + 1) with
  | some d =>
    obtain ⟨n, -, hn⟩ := List.exists_of_findSome?_eq_some h
    exact toBinary64?_of_withDigits? hn
  | none =>
    -- The search is closed by the exact value.
    obtain ⟨e, hexponent, he⟩ := Binary64.exists_exactDen_eq
    have hexact : x.exactDecimal = ⟨x.exactNum * Nat.pow 5 e, -(e : Int)⟩ := by
      unfold Binary64.exactDecimal
      rw [hexponent]
      rfl
    rw [Option.getD_none, hexact, toBinary64?_dyadic, ← he, Binary64.nearest?_exact hfinite hpos]

end Decimal

end ShaderFront
