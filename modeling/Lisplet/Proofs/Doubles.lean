import Lisplet.Double.Decimal
import Mathlib

/-! # Doubles read back

A finite double is opened into a mantissa and an exponent, and the closest double to the same
number is the double itself.

* `Canonical`            the mantissas and exponents that doubles are opened into
* `magnitude`            the bits that spell them
* `nearest_of_canonical` no rounding where none is needed -/

namespace Lisplet.Double

/-- A mantissa of 53 bits, or fewer at the smallest exponent. -/
structure Canonical (mantissa : Nat) (exponent : Int) : Prop where
  lt : mantissa < twoPow 53
  le_exponent : -1074 ≤ exponent
  exponent_le : exponent ≤ 971
  normal : exponent = -1074 ∨ hiddenBit ≤ mantissa

/-- The bits of a double besides its sign. -/
def magnitude (mantissa : Nat) (exponent : Int) : Nat :=
  (exponent + 1074).toNat * hiddenBit + mantissa

/-- The highest bit of a mantissa, as a numeral that `omega` can use. -/
theorem hiddenBit_eq : hiddenBit = 4503599627370496 := rfl

/-- The sign, likewise. -/
theorem signBit_eq : signBit = 9223372036854775808 := rfl

/-- The limit of mantissas, likewise. -/
private theorem twoPow_53_eq : twoPow 53 = 9007199254740992 := rfl

/-- The bits of infinity, likewise. -/
private theorem infinityMagnitude_eq : infinityMagnitude = 9218868437227405312 := rfl

/-- The bits of a finite double lie below those of infinity. -/
theorem Canonical.magnitude_lt {mantissa : Nat} {exponent : Int} (h : Canonical mantissa exponent) :
    magnitude mantissa exponent < infinityMagnitude := by
  obtain ⟨hlt, hle, hle', _⟩ := h
  rw [twoPow_53_eq] at hlt
  rw [magnitude, hiddenBit_eq, infinityMagnitude_eq]
  omega

/-! ## Bits -/

open Float.Model

open UnpackedFloat in
/-- Bits up to those of infinity spell no NaN. -/
private theorem isNaNBits_eq_false {b : UInt64} (h : b.toNat % signBit ≤ infinityMagnitude) :
    @isNaNBits Format.binary64 b.toBitVec = false := by
  rw [signBit_eq, infinityMagnitude_eq] at h
  simp only [isNaNBits, decide_eq_false_iff_not, not_and, not_not, unpackExponent_def,
    unpackMantissa_def]
  -- all bits of the exponent are set only by infinity, and then the mantissa is empty
  intro hexponent
  have hexponent := congrArg BitVec.toNat hexponent
  apply BitVec.eq_of_toNat_eq
  simp [BitVec.extractLsb'_toNat, Nat.shiftRight_eq_div_pow] at hexponent ⊢
  omega

/-- Such bits are kept. -/
private theorem toBits_ofMagnitude (negative : Bool) {n : Nat} (h : n ≤ infinityMagnitude) :
    (ofMagnitude negative n).toBits.toNat = if negative then signBit + n else n := by
  rw [infinityMagnitude_eq] at h
  have hbits : (UInt64.ofNat (if negative then signBit + n else n)).toNat =
      if negative then signBit + n else n := by
    rw [UInt64.toNat_ofNat', signBit_eq]
    split <;> omega
  have hnan : @UnpackedFloat.isNaNBits Format.binary64
      (UInt64.ofNat (if negative then signBit + n else n)).toBitVec = false := by
    apply isNaNBits_eq_false
    rw [hbits, signBit_eq, infinityMagnitude_eq]
    split <;> omega
  -- a float is kept unpacked, and packing gives back all bits but those of a NaN
  show (UInt64.ofBitVec (UnpackedFloat.pack Format.binary64 (UnpackedFloat.unpack Format.binary64
    (UInt64.ofNat (if negative then signBit + n else n)).toBitVec))).toNat = _
  rw [UnpackedFloat.pack_unpack, hnan, if_neg Bool.false_ne_true]
  exact hbits

/-- The sign is the highest bit. -/
private theorem ofMagnitude_decide {bits n : Nat} (hn : n = bits % signBit)
    (hbits : bits < 2 ^ 64) :
    ofMagnitude (decide (signBit ≤ bits)) n = Float.ofBits (UInt64.ofNat bits) := by
  rw [signBit_eq] at hn
  rw [ofMagnitude, signBit_eq]
  congr 2
  split <;> rename_i hsign <;> simp only [decide_eq_true_eq] at hsign <;> omega

/-- A finite double is spelled by its mantissa and its exponent. -/
theorem eq_of_reading {x : Float} {negative : Bool} {mantissa : Nat} {exponent : Int}
    (h : reading x = .finite negative mantissa exponent) :
    Canonical mantissa exponent ∧ x = ofMagnitude negative (magnitude mantissa exponent) := by
  have hbits := x.toBits.toNat_lt
  have hx : Float.ofBits (UInt64.ofNat x.toBits.toNat) = x := by
    rw [UInt64.ofNat_toNat, Float.ofBits_toBits]
  unfold reading at h
  generalize x.toBits.toNat = bits at h hx hbits
  rw [hiddenBit_eq] at h
  dsimp only at h
  split at h
  · split at h <;> cases h
  · split at h
    · -- the smallest exponent, where every bit of the mantissa is spelled out
      cases h
      refine ⟨⟨?_, by omega, by omega, .inl rfl⟩, ?_⟩
      · rw [twoPow_53_eq]
        omega
      · rw [← hx, ofMagnitude_decide _ hbits]
        rw [magnitude, hiddenBit_eq, signBit_eq]
        omega
    · -- the highest bit of the mantissa is hidden, and carries into the exponent's field
      cases h
      refine ⟨⟨?_, by omega, by omega, .inr ?_⟩, ?_⟩
      · rw [twoPow_53_eq]
        omega
      · rw [hiddenBit_eq]
        omega
      · rw [← hx, ofMagnitude_decide _ hbits]
        rw [magnitude, hiddenBit_eq, signBit_eq]
        omega

/-- Different bits spell different doubles. -/
theorem ofMagnitude_inj {negative : Bool} {a b : Nat} (ha : a ≤ infinityMagnitude)
    (hb : b ≤ infinityMagnitude) (h : ofMagnitude negative a = ofMagnitude negative b) : a = b := by
  have hbits := congrArg (·.toBits.toNat) h
  simp only [toBits_ofMagnitude negative ha, toBits_ofMagnitude negative hb] at hbits
  cases negative with
  | false => exact hbits
  | true => exact Nat.add_left_cancel hbits

/-- Doubles without a sign are equal only if they are the same. -/
theorem eq_of_beq_ofMagnitude {a b : Nat} (ha : a ≤ infinityMagnitude)
    (hb : b ≤ infinityMagnitude)
    (h : (ofMagnitude false a == ofMagnitude false b) = true) : a = b := by
  have hzero : (-0 : Float).toBits.toNat = signBit := by decide +kernel
  -- the two zeros are the one exception, and one of them has a sign
  have hsign : ∀ {n}, n ≤ infinityMagnitude → ofMagnitude false n ≠ -0 := by
    intro n hn hzero'
    have hbits := congrArg (·.toBits.toNat) hzero'
    simp only [toBits_ofMagnitude false hn, hzero] at hbits
    rw [infinityMagnitude_eq] at hn
    rw [signBit_eq] at hbits
    simp only [Bool.false_eq_true, if_false] at hbits
    omega
  obtain ⟨_, _, heq | ⟨_, hb'⟩ | ⟨ha', _⟩⟩ := Float.beq_iff_ne_nan_and_eq.1 h
  · exact ofMagnitude_inj ha hb heq
  · exact absurd hb' (hsign hb)
  · exact absurd ha' (hsign ha)

/-- A finite double equals itself. -/
theorem beq_self_of_reading {x : Float} {negative : Bool} {mantissa : Nat} {exponent : Int}
    (h : reading x = .finite negative mantissa exponent) : (x == x) = true := by
  have hnan : reading Float.nan = .nan := by decide +kernel
  rw [Float.beq_self_iff]
  rintro rfl
  rw [hnan] at h
  cases h

/-! ## Rounding -/

/-- The powers of two are the usual ones. -/
private theorem twoPow_eq (n : Nat) : twoPow n = 2 ^ n := rfl

/-- The power of two as a rational number. -/
theorem cast_twoPow (n : Nat) : (twoPow n : ℚ) = 2 ^ n := by
  rw [twoPow_eq, Nat.cast_pow, Nat.cast_two]

/-- A mantissa as a rational number. -/
theorem Canonical.cast_lt {mantissa : Nat} {exponent : Int} (h : Canonical mantissa exponent) :
    (mantissa : ℚ) < 2 ^ 53 := by
  rw [← cast_twoPow]
  exact_mod_cast h.lt

/-- A double that is not zero stands for a positive number. -/
theorem mantissa_mul_pos {mantissa : Nat} (h : mantissa ≠ 0) (exponent : Int) :
    (0 : ℚ) < mantissa * 2 ^ exponent := by
  have hmantissa : (0 : ℚ) < mantissa := by exact_mod_cast Nat.pos_of_ne_zero h
  positivity

/-- A fraction that equals one is not zero either. -/
private theorem num_ne_zero {num den mantissa : Nat} {exponent : Int} (hmantissa : mantissa ≠ 0)
    (heq : (num / den : ℚ) = mantissa * 2 ^ exponent) : num ≠ 0 := by
  rintro rfl
  have hpos := mantissa_mul_pos hmantissa exponent
  rw [← heq, Nat.cast_zero, zero_div] at hpos
  exact lt_irrefl _ hpos

/-- Scaling leaves the denominator positive. -/
theorem scale_snd_pos (num : Nat) {den : Nat} (hden : 0 < den) (e : Int) :
    0 < (scale num den e).2 := by
  unfold scale
  split
  · exact Nat.mul_pos hden (Nat.two_pow_pos _)
  · exact hden

/-- Scaling divides by a power of two. -/
theorem scale_div (num den : Nat) (e : Int) :
    ((scale num den e).1 : ℚ) / (scale num den e).2 = num / den / 2 ^ e := by
  unfold scale
  split
  · rename_i he
    -- a positive power goes below the line
    have hpow : (2 : ℚ) ^ e = 2 ^ e.toNat := by
      rw [← zpow_natCast, Int.toNat_of_nonneg he]
    rw [hpow, Nat.cast_mul, cast_twoPow, div_div]
  · rename_i he
    -- a negative one goes above it
    have hpow : (2 : ℚ) ^ e = (2 ^ (-e).toNat)⁻¹ := by
      rw [← zpow_natCast, Int.toNat_of_nonneg (by omega), zpow_neg, inv_inv]
    rw [hpow, Nat.cast_mul, cast_twoPow, div_inv_eq_mul, mul_div_right_comm]

/-- The lengths of two numbers tell how long their quotient is, up to one bit. -/
private theorem div_between {num den : Nat} (hnum : num ≠ 0) (hden : den ≠ 0) :
    (2 : ℚ) ^ ((num.log2 : Int) - den.log2 - 1) < num / den ∧
      (num / den : ℚ) < 2 ^ ((num.log2 : Int) - den.log2 + 1) := by
  have hnum' : (0 : ℚ) < num := by exact_mod_cast Nat.pos_of_ne_zero hnum
  have hden' : (0 : ℚ) < den := by exact_mod_cast Nat.pos_of_ne_zero hden
  have hnum_le : (2 : ℚ) ^ num.log2 ≤ num := by exact_mod_cast Nat.log2_self_le hnum
  have hnum_lt : (num : ℚ) < 2 ^ (num.log2 + 1) := by exact_mod_cast Nat.lt_log2_self
  have hden_le : (2 : ℚ) ^ den.log2 ≤ den := by exact_mod_cast Nat.log2_self_le hden
  have hden_lt : (den : ℚ) < 2 ^ (den.log2 + 1) := by exact_mod_cast Nat.lt_log2_self
  constructor
  · calc (2 : ℚ) ^ ((num.log2 : Int) - den.log2 - 1)
        = 2 ^ num.log2 / 2 ^ (den.log2 + 1) := by
          rw [sub_sub, zpow_sub₀ two_ne_zero]
          norm_cast
      _ ≤ num / 2 ^ (den.log2 + 1) := by gcongr
      _ < num / den := div_lt_div_of_pos_left hnum' hden' hden_lt
  · calc (num / den : ℚ) < 2 ^ (num.log2 + 1) / den := by gcongr
      _ ≤ 2 ^ (num.log2 + 1) / 2 ^ den.log2 := by gcongr
      _ = 2 ^ ((num.log2 : Int) - den.log2 + 1) := by
          rw [sub_add_eq_add_sub, zpow_sub₀ two_ne_zero]
          norm_cast

/-- The quotient has 53 bits before the last place, unless that would lie below the smallest one. -/
private theorem exists_lastPlace {num den : Nat} (hnum : num ≠ 0) (hden : den ≠ 0) :
    ∃ e : Int, lastPlace num den = max e (-1074) ∧ (2 : ℚ) ^ (e + 52) ≤ num / den ∧
      (num / den : ℚ) < 2 ^ (e + 53) := by
  obtain ⟨hlow, hhigh⟩ := div_between hnum hden
  -- the test on the scaled numbers is one on the quotient
  have hcompare : ∀ e : Int, (scale num den e).1 < (scale num den e).2 * hiddenBit ↔
      (num / den : ℚ) < 2 ^ (e + 52) := by
    intro e
    have hd : (0 : ℚ) < (scale num den e).2 := by
      exact_mod_cast scale_snd_pos num (Nat.pos_of_ne_zero hden) e
    have hpow : (0 : ℚ) < 2 ^ e := by positivity
    calc (scale num den e).1 < (scale num den e).2 * hiddenBit
        ↔ ((scale num den e).1 : ℚ) < 2 ^ 52 * (scale num den e).2 := by
          rw [← cast_twoPow, mul_comm]
          exact_mod_cast Iff.rfl
      _ ↔ (num / den / 2 ^ e : ℚ) < 2 ^ 52 := by rw [← scale_div, div_lt_iff₀ hd]
      _ ↔ (num / den : ℚ) < 2 ^ (e + 52) := by
          rw [div_lt_iff₀ hpow, mul_comm, zpow_add₀ two_ne_zero]
          norm_cast
  unfold lastPlace
  dsimp only
  split
  · -- the lengths were one bit off
    rename_i hlt
    rw [hcompare] at hlt
    refine ⟨_, rfl, ?_, ?_⟩
    · rw [show (num.log2 : Int) - den.log2 - 52 - 1 + 52 = num.log2 - den.log2 - 1 by omega]
      exact hlow.le
    · rwa [show (num.log2 : Int) - den.log2 - 52 - 1 + 53 = num.log2 - den.log2 - 52 + 52 by omega]
  · rename_i hge
    rw [hcompare, not_lt] at hge
    refine ⟨_, rfl, hge, ?_⟩
    rwa [show (num.log2 : Int) - den.log2 - 52 + 53 = num.log2 - den.log2 + 1 by omega]

/-- The last place of a number that a double stands for is the double's exponent. -/
private theorem lastPlace_of_canonical {num den mantissa : Nat} {exponent : Int}
    (h : Canonical mantissa exponent) (hmantissa : mantissa ≠ 0) (hden : den ≠ 0)
    (heq : (num / den : ℚ) = mantissa * 2 ^ exponent) : lastPlace num den = exponent := by
  obtain ⟨e, hplace, hlow, hhigh⟩ := exists_lastPlace (num_ne_zero hmantissa heq) hden
  rw [heq] at hlow hhigh
  have hlt : (mantissa : ℚ) * 2 ^ exponent < 2 ^ (exponent + 53) := by
    rw [zpow_add₀ two_ne_zero, mul_comm]
    gcongr
    exact h.cast_lt
  -- the quotient has at most as many bits as the mantissa allows, and no fewer if it is normal
  have hle : e ≤ exponent := by
    have := (zpow_lt_zpow_iff_right₀ (one_lt_two (α := ℚ))).1 (hlow.trans_lt hlt)
    omega
  rw [hplace]
  obtain hsmallest | hnormal := h.normal
  · omega
  · have hcast : (2 : ℚ) ^ 52 ≤ mantissa := by
      rw [← cast_twoPow]
      exact_mod_cast hnormal
    have hge : (2 : ℚ) ^ (exponent + 52) ≤ mantissa * 2 ^ exponent := by
      rw [zpow_add₀ two_ne_zero, mul_comm]
      gcongr
      exact hcast
    have := (zpow_lt_zpow_iff_right₀ (one_lt_two (α := ℚ))).1 (hge.trans_lt hhigh)
    have := h.le_exponent
    omega

/-- The closest double, given the last place and the scaled fraction. -/
private theorem nearest_eq (negative : Bool) {num den n d : Nat} {e : Int} (hnum : num ≠ 0)
    (hplace : lastPlace num den = e) (hscale : scale num den e = (n, d)) :
    nearest negative num den =
      ofMagnitude negative
        (min ((e + 1074).toNat * hiddenBit + roundDiv n d) infinityMagnitude) := by
  rw [nearest, if_neg hnum, hplace]
  extract_lets e'
  rw [show scale num den e' = (n, d) from hscale]

/-- A whole quotient is not rounded. -/
private theorem roundDiv_mul (n : Nat) {d : Nat} (hd : 0 < d) : roundDiv (n * d) d = n := by
  simp [roundDiv, Nat.mul_div_cancel n hd, hd.ne]

/-- The closest double to a number that a double stands for is that double. -/
theorem nearest_of_canonical {num den mantissa : Nat} {exponent : Int} (negative : Bool)
    (h : Canonical mantissa exponent) (hmantissa : mantissa ≠ 0) (hden : den ≠ 0)
    (heq : (num / den : ℚ) = mantissa * 2 ^ exponent) :
    nearest negative num den = ofMagnitude negative (magnitude mantissa exponent) := by
  have hquot := scale_div num den exponent
  have hd := scale_snd_pos num (Nat.pos_of_ne_zero hden) exponent
  rcases hscale : scale num den exponent with ⟨n, d⟩
  rw [hscale] at hquot hd
  -- scaled to the last place, the number is whole
  have hn : n = mantissa * d := by
    rw [heq, mul_div_cancel_right₀ _ (zpow_ne_zero _ two_ne_zero),
      div_eq_iff (by exact_mod_cast hd.ne')] at hquot
    exact_mod_cast hquot
  have hplace := lastPlace_of_canonical h hmantissa hden heq
  rw [nearest_eq negative (num_ne_zero hmantissa heq) hplace hscale, hn, roundDiv_mul _ hd,
    ← magnitude, Nat.min_eq_left h.magnitude_lt.le]

/-- The sign of the closest double is the one asked for, and the other bits do not depend on it. -/
theorem exists_nearest_eq (num den : Nat) :
    ∃ n ≤ infinityMagnitude, ∀ negative, nearest negative num den = ofMagnitude negative n := by
  by_cases hnum : num = 0
  · exact ⟨0, Nat.zero_le _, fun negative => by rw [nearest, if_pos hnum]⟩
  · obtain ⟨e, hplace⟩ : ∃ e, lastPlace num den = e := ⟨_, rfl⟩
    rcases hscale : scale num den e with ⟨n, d⟩
    exact ⟨_, Nat.min_le_right _ _, fun negative => nearest_eq negative hnum hplace hscale⟩

end Lisplet.Double
