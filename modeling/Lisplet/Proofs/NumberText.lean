import Lisplet.Proofs.Doubles
import Lisplet.Proofs.Grammar
import Lisplet.Value.Text

/-! # The text of a number read back

A finite double is written as a decimal without an exponent, and the word that comes out is read as
a number equal to it.

* `Decimal.flattened`        the decimal that the written form of another one stands for
* `numberDecimal_toDouble`   the decimal that is written leads back to the double
* `exists_atom_numberText`   the written word stands for a number equal to the double -/

namespace Lisplet

/-! ## Decimals that lead back -/

namespace Decimal

open Double

/-- The power of ten as a rational number. -/
private theorem cast_tenPow (n : Nat) : (tenPow n : ℚ) = 10 ^ n := by
  rw [show tenPow n = 10 ^ n from rfl, Nat.cast_pow, Nat.cast_ofNat]

/-- A power of ten is not zero. -/
private theorem tenPow_pos (n : Nat) : 0 < tenPow n := Nat.pow_pos (by decide)

/-- As `exists_nearest_eq`, of a decimal. -/
private theorem exists_toDouble_eq (d : Decimal) :
    ∃ n ≤ infinityMagnitude, ∀ negative, d.toDouble negative = ofMagnitude negative n := by
  unfold toDouble
  split
  · exact ⟨0, Nat.zero_le _, fun _ => rfl⟩
  · split
    · -- too large, which is infinity
      exact ⟨_, Nat.le_refl _, fun _ => rfl⟩
    · split
      · exact ⟨0, Nat.zero_le _, fun _ => rfl⟩
      · exact exists_nearest_eq _ _

/-- The number that the decimal is. -/
def toRat (d : Decimal) : ℚ := d.digits * 10 ^ d.exponent

/-- The fraction that is rounded is the number that the decimal is. -/
private theorem toRat_eq_div (d : Decimal) :
    ((d.digits * tenPow d.exponent.toNat : Nat) : ℚ) / (tenPow (-d.exponent).toNat : Nat) =
      d.toRat := by
  rw [Nat.cast_mul, cast_tenPow, cast_tenPow, mul_div_assoc, toRat, ← zpow_natCast, ← zpow_natCast,
    ← zpow_sub₀ (by norm_num)]
  congr 2
  omega

/-- Powers of ten are compared with those of two through the powers of eight below them. -/
private theorem eight_zpow_reach : (8 : ℚ) ^ (reach : Int) = 2 ^ (1200 : Int) := by
  rw [show (8 : ℚ) = 2 ^ (3 : Int) by norm_num, ← zpow_mul, show 3 * (reach : Int) = 1200 from rfl]

/-- A decimal that equals a double has an exponent within reach. -/
private theorem exponent_le_reach {d : Decimal} {mantissa : Nat} {exponent : Int}
    (h : Canonical mantissa exponent) (hdigits : d.digits ≠ 0)
    (heq : d.toRat = mantissa * 2 ^ exponent) : d.exponent ≤ reach := by
  have hdigits' : (1 : ℚ) ≤ d.digits := by exact_mod_cast Nat.one_le_iff_ne_zero.2 hdigits
  have hmantissa := h.cast_lt
  have hpow : (10 : ℚ) ^ d.exponent < 10 ^ (reach : Int) :=
    calc (10 : ℚ) ^ d.exponent ≤ d.toRat := le_mul_of_one_le_left (by positivity) hdigits'
      _ = mantissa * 2 ^ exponent := heq
      _ < 2 ^ 53 * 2 ^ exponent := by gcongr
      _ = 2 ^ (53 + exponent) := by
          rw [zpow_add₀ two_ne_zero]
          norm_cast
      _ ≤ 2 ^ (1200 : Int) := by
          have := h.exponent_le
          exact zpow_le_zpow_right₀ one_le_two (by omega)
      _ = 8 ^ (reach : Int) := eight_zpow_reach.symm
      _ ≤ 10 ^ (reach : Int) := by
          rw [zpow_natCast, zpow_natCast]
          gcongr
          norm_num
  exact ((zpow_lt_zpow_iff_right₀ (by norm_num)).1 hpow).le

/-- Nor is it so small that it counts as zero. -/
theorem le_exponent {d : Decimal} {mantissa : Nat} {exponent : Int}
    (h : Canonical mantissa exponent) (hmantissa : mantissa ≠ 0)
    (heq : d.toRat = mantissa * 2 ^ exponent) :
    -((reach + d.digits.log2 + 1 : Nat) : Int) ≤ d.exponent := by
  by_contra! hlt
  have hmantissa' : (1 : ℚ) ≤ mantissa := by exact_mod_cast Nat.one_le_iff_ne_zero.2 hmantissa
  have hdigits : (d.digits : ℚ) < 2 ^ (d.digits.log2 + 1) := by exact_mod_cast Nat.lt_log2_self
  -- the digits make up for no more than their own length
  have hten : (10 : ℚ) ^ d.exponent ≤
      8 ^ (-(reach : Int)) * 2 ^ (-(d.digits.log2 + 1 : Nat) : Int) :=
    calc (10 : ℚ) ^ d.exponent ≤ 10 ^ (-(reach : Int) + -(d.digits.log2 + 1 : Nat)) := by
          apply zpow_le_zpow_right₀ (by norm_num)
          omega
      _ = 10 ^ (-(reach : Int)) * 10 ^ (-(d.digits.log2 + 1 : Nat) : Int) :=
          zpow_add₀ (by norm_num) _ _
      _ ≤ 8 ^ (-(reach : Int)) * 2 ^ (-(d.digits.log2 + 1 : Nat) : Int) := by
          simp only [zpow_neg, zpow_natCast]
          gcongr
          · norm_num
          · norm_num
  have hsmall : d.toRat < 2 ^ (-(1074 : Int)) :=
    calc d.toRat = d.digits * 10 ^ d.exponent := rfl
      _ ≤ d.digits * (8 ^ (-(reach : Int)) * 2 ^ (-(d.digits.log2 + 1 : Nat) : Int)) := by gcongr
      _ < 2 ^ (d.digits.log2 + 1) *
            (8 ^ (-(reach : Int)) * 2 ^ (-(d.digits.log2 + 1 : Nat) : Int)) := by gcongr
      _ = 8 ^ (-(reach : Int)) := by
          rw [mul_left_comm, zpow_neg 2, zpow_natCast, mul_inv_cancel₀ (by positivity), mul_one]
      _ = 2 ^ (-(1200 : Int)) := by rw [zpow_neg, zpow_neg, eight_zpow_reach]
      _ < 2 ^ (-(1074 : Int)) := zpow_lt_zpow_right₀ one_lt_two (by norm_num)
  have hlarge : (2 : ℚ) ^ (-(1074 : Int)) ≤ d.toRat :=
    calc (2 : ℚ) ^ (-(1074 : Int)) ≤ 2 ^ exponent :=
          zpow_le_zpow_right₀ (by norm_num) h.le_exponent
      _ ≤ mantissa * 2 ^ exponent := le_mul_of_one_le_left (by positivity) hmantissa'
      _ = d.toRat := heq.symm
  exact absurd hsmall (not_lt.2 hlarge)

/-- A decimal that equals a double leads to it. -/
private theorem toDouble_of_canonical (negative : Bool) {d : Decimal} {mantissa : Nat}
    {exponent : Int} (h : Canonical mantissa exponent) (hmantissa : mantissa ≠ 0)
    (heq : d.toRat = mantissa * 2 ^ exponent) :
    d.toDouble negative = ofMagnitude negative (magnitude mantissa exponent) := by
  have hdigits : d.digits ≠ 0 := by
    intro hzero
    have hpos := mantissa_mul_pos hmantissa exponent
    rw [← heq, toRat, hzero, Nat.cast_zero, zero_mul] at hpos
    exact lt_irrefl _ hpos
  rw [toDouble, if_neg hdigits, if_neg (not_lt.2 (exponent_le_reach h hdigits heq)),
    if_neg (not_lt.2 (le_exponent h hmantissa heq))]
  exact nearest_of_canonical negative h hmantissa (tenPow_pos _).ne' ((toRat_eq_div d).trans heq)

/-- The decimal with all digits is the number itself. -/
private theorem exact_toRat (mantissa : Nat) (exponent : Int) :
    (exact mantissa exponent).toRat = mantissa * 2 ^ exponent := by
  unfold exact
  split
  · rename_i hexponent
    rw [toRat, Nat.cast_mul, cast_twoPow, zpow_zero, mul_one, ← zpow_natCast,
      Int.toNat_of_nonneg hexponent]
  · rename_i hexponent
    -- the powers of two below the line become powers of five above it
    obtain ⟨n, rfl⟩ : ∃ n : Nat, exponent = -n := ⟨(-exponent).toNat, by omega⟩
    rw [toRat, neg_neg, Int.toNat_natCast, Nat.cast_mul, show Nat.pow 5 n = 5 ^ n from rfl,
      Nat.cast_pow, mul_assoc]
    congr 1
    rw [zpow_neg, zpow_neg, zpow_natCast, zpow_natCast, show (10 : ℚ) = 5 * 2 by norm_num, mul_pow,
      Nat.cast_ofNat]
    field_simp

/-- The decimal with the fewest digits leads back. -/
private theorem shortest_toDouble (negative : Bool) {mantissa : Nat} {exponent : Int}
    (h : Canonical mantissa exponent) (hmantissa : mantissa ≠ 0) :
    (shortest mantissa exponent).toDouble negative =
      ofMagnitude negative (magnitude mantissa exponent) := by
  -- the double that candidates are compared with
  have htarget : nearest false (scale mantissa 1 (-exponent)).1 (scale mantissa 1 (-exponent)).2 =
      ofMagnitude false (magnitude mantissa exponent) := by
    apply nearest_of_canonical false h hmantissa (scale_snd_pos mantissa Nat.one_pos _).ne'
    rw [scale_div, Nat.cast_one, div_one, zpow_neg, div_inv_eq_mul]
  unfold shortest
  generalize scale mantissa 1 (-exponent) = scaled at htarget
  obtain ⟨num, den⟩ := scaled
  simp only
  rw [htarget]
  rcases hfound : List.find? _ _ with - | d
  · -- no candidate leads back, so all the digits are written
    exact toDouble_of_canonical negative h hmantissa (exact_toRat mantissa exponent)
  · -- a candidate was kept because it leads back, and then it does with either sign
    have hequal := List.find?_some hfound
    obtain ⟨n, hn, hd⟩ := exists_toDouble_eq d
    rw [hd] at hequal
    rw [Option.getD_some, hd, eq_of_beq_ofMagnitude hn h.magnitude_lt.le hequal]

/-! ## Written out -/

/-- The decimal that the written form of another one stands for: zeros take the place of a positive
    exponent. -/
def flattened (d : Decimal) : Decimal :=
  if 0 ≤ d.exponent then ⟨d.digits * tenPow d.exponent.toNat, 0⟩ else d

/-- A whole number is rounded as it is. -/
private theorem toDouble_whole (negative : Bool) (n : Nat) :
    toDouble negative ⟨n, 0⟩ = nearest negative n 1 := by
  unfold toDouble
  dsimp only
  split
  · rename_i hn
    rw [nearest, if_pos hn]
  · rw [if_neg (by omega), if_neg (by omega)]
    show nearest negative (n * 1) 1 = _
    rw [Nat.mul_one]

/-- Nothing is lost if the decimal is within reach. -/
private theorem toDouble_flattened {negative : Bool} {d : Decimal} {n : Nat}
    (hn : n < infinityMagnitude) (h : d.toDouble negative = ofMagnitude negative n) :
    d.flattened.toDouble negative = ofMagnitude negative n := by
  unfold flattened
  split
  · rename_i hexponent
    rw [← h, toDouble_whole]
    by_cases hdigits : d.digits = 0
    · rw [toDouble, if_pos hdigits, hdigits, Nat.zero_mul, nearest, if_pos rfl]
    · -- out of reach, it would have been infinity
      have hreach : d.exponent ≤ reach := by
        by_contra! hlt
        rw [toDouble, if_neg hdigits, if_pos hlt] at h
        exact hn.ne' (ofMagnitude_inj (Nat.le_refl _) hn.le h)
      rw [toDouble, if_neg hdigits, if_neg (by omega), if_neg (by omega),
        show (-d.exponent).toNat = 0 by omega]
      rfl
  · exact h

/-- The digits of a number are digits. -/
private theorem digitText_isDigit {n : Nat} {c : Char} (h : c ∈ digitText n) : c.isDigit = true :=
  Nat.isDigit_of_mem_toDigits (by decide) (by decide) h

/-- So are the zeros that pad it. -/
private theorem isDigit_of_mem_zeros {n : Nat} {c : Char} (h : c ∈ List.replicate n '0') :
    c.isDigit = true := by
  rw [List.eq_of_mem_replicate h]
  rfl

/-- Digits before the dot and behind it.  There is no dot if none are behind it. -/
def dotted (whole fraction : List Char) : List Char :=
  if fraction.isEmpty then whole else whole ++ '.' :: fraction

/-- The first character stands before the dot. -/
private theorem dotted_cons (c : Char) (whole fraction : List Char) :
    dotted (c :: whole) fraction = c :: dotted whole fraction := by
  unfold dotted
  split <;> rfl

/-- There are only digits and the dot. -/
private theorem mem_dotted {whole fraction : List Char} {c : Char}
    (hdigits : ∀ d ∈ whole ++ fraction, d.isDigit = true) (hc : c ∈ dotted whole fraction) :
    c.isDigit = true ∨ c = '.' := by
  unfold dotted at hc
  split at hc
  · exact .inl (hdigits c (List.mem_append_left _ hc))
  · rw [List.mem_append, List.mem_cons] at hc
    obtain hc | rfl | hc := hc
    · exact .inl (hdigits c (List.mem_append_left _ hc))
    · exact .inr rfl
    · exact .inl (hdigits c (List.mem_append_right _ hc))

/-- The written form is digits, and maybe a dot with more digits. -/
private theorem exists_positional_eq (d : Decimal) :
    ∃ whole fraction : List Char, d.positional.toList = dotted whole fraction ∧ whole ≠ [] ∧
      (∀ c ∈ whole ++ fraction, c.isDigit = true) ∧
      d.flattened = ⟨Numeral.ofDigits (whole ++ fraction), 0 - fraction.length⟩ := by
  unfold positional flattened
  dsimp only
  split
  · -- zeros stand for the exponent, and there is no dot
    refine ⟨digitText d.digits ++ List.replicate d.exponent.toNat '0', [], ?_, ?_, ?_, ?_⟩
    · rw [String.toList_ofList]
      rfl
    · exact List.append_ne_nil_of_left_ne_nil Nat.toDigits_ne_nil _
    · intro c hc
      rw [List.append_nil, List.mem_append] at hc
      obtain hc | hc := hc
      · exact digitText_isDigit hc
      · exact isDigit_of_mem_zeros hc
    · rw [List.append_nil, Numeral.ofDigits_eq, Nat.ofDigitChars_append,
        Nat.ofDigitChars_replicate_zero, digitText, Nat.ofDigitChars_ten_toDigits, Nat.mul_comm]
      rfl
  · rename_i hexponent
    obtain ⟨digits, exponent⟩ := d
    dsimp only at hexponent ⊢
    obtain ⟨places, rfl⟩ : ∃ places : Nat, exponent = -places := ⟨(-exponent).toNat, by omega⟩
    rw [neg_neg, Int.toNat_natCast]
    -- the padding leaves at least one digit before the dot
    generalize hpadded : List.replicate (places + 1 - (digitText digits).length) '0' ++
      digitText digits = padded
    have hlength : places < padded.length := by
      rw [← hpadded, List.length_append, List.length_replicate]
      omega
    have hfraction : (padded.drop (padded.length - places)).length = places := by
      rw [List.length_drop]
      omega
    -- the dot stands as many places from the end as the exponent says
    refine ⟨padded.take (padded.length - places), padded.drop (padded.length - places),
      ?_, ?_, ?_, ?_⟩
    · rw [String.toList_ofList, dotted, if_neg]
      rw [List.isEmpty_iff, ← List.length_eq_zero_iff, hfraction]
      omega
    · rw [Ne, ← List.length_eq_zero_iff, List.length_take]
      omega
    · intro c hc
      rw [List.take_append_drop, ← hpadded, List.mem_append] at hc
      obtain hc | hc := hc
      · exact isDigit_of_mem_zeros hc
      · exact digitText_isDigit hc
    · rw [List.take_append_drop, hfraction, Numeral.ofDigits_eq, ← hpadded, Nat.ofDigitChars_append,
        Nat.ofDigitChars_replicate_zero, Nat.mul_zero, digitText, Nat.ofDigitChars_ten_toDigits,
        zero_sub]

end Decimal

/-! ## Read again -/

namespace Numeral

open Decimal (dotted)

/-- A minus in front, if there is to be one. -/
def signed (negative : Bool) (cs : List Char) : List Char := if negative then '-' :: cs else cs

/-- A digit is not a character that is none. -/
theorem ne_of_isDigit {c d : Char} (hc : c.isDigit = true) (hd : d.isDigit = false) : c ≠ d := by
  rintro rfl
  rw [hc] at hd
  cases hd

/-- More digits may follow a digit. -/
theorem afterDigit_append {ds : List Char} (hds : ∀ c ∈ ds, c.isDigit = true) (rest : List Char) :
    afterDigit (ds ++ rest) = afterDigit rest := by
  induction ds with
  | nil => rfl
  | cons c ds ih =>
    have hc := hds c List.mem_cons_self
    rw [List.cons_append, afterDigit, ih fun x hx => hds x (List.mem_cons_of_mem c hx), hc,
      Bool.true_and]
    · rintro _ _ rfl
      cases hc
    · rintro _ _ rfl
      cases hc

/-- What follows the first digit of a written number may follow it in a numeral. -/
private theorem afterDigit_dotted {whole fraction : List Char}
    (hdigits : ∀ c ∈ whole ++ fraction, c.isDigit = true) :
    afterDigit (dotted whole fraction) = true := by
  have hwhole : ∀ c ∈ whole, c.isDigit = true := fun c hc =>
    hdigits c (List.mem_append_left _ hc)
  have hfraction : ∀ c ∈ fraction, c.isDigit = true := fun c hc =>
    hdigits c (List.mem_append_right _ hc)
  unfold dotted
  cases fraction with
  | nil =>
    have h := afterDigit_append hwhole []
    rwa [List.append_nil] at h
  | cons c rest =>
    rw [if_neg (by simp), afterDigit_append hwhole, afterDigit, hfraction c List.mem_cons_self,
      Bool.true_and, List.all_eq_true]
    exact fun x hx => hfraction x (List.mem_cons_of_mem c hx)

/-- Digits with a dot between them are read as the digits, moved by the places behind the dot. -/
theorem decimal?_dotted {whole fraction : List Char} (hwhole : whole ≠ [])
    (hdigits : ∀ c ∈ whole ++ fraction, c.isDigit = true) :
    decimal? (dotted whole fraction) =
      some ⟨ofDigits (whole ++ fraction), 0 - fraction.length⟩ := by
  have hwholeDigits : ∀ c ∈ whole, c.isDigit = true := fun c hc =>
    hdigits c (List.mem_append_left _ hc)
  have hfractionDigits : ∀ c ∈ fraction, c.isDigit = true := fun c hc =>
    hdigits c (List.mem_append_right _ hc)
  have hnonempty : whole.isEmpty = false := List.isEmpty_eq_false_iff.2 hwhole
  unfold dotted decimal?
  by_cases hempty : fraction = []
  · rw [hempty, if_pos List.isEmpty_nil, List.takeWhile_eq_self_iff.2 hwholeDigits,
      List.dropWhile_eq_nil_iff.2 hwholeDigits]
    simp [hnonempty, exponent?]
  · -- the whole part ends at the dot
    have hdot : ¬('.' : Char).isDigit = true := by decide
    rw [if_neg (by simpa using hempty), List.takeWhile_append_of_pos hwholeDigits,
      List.dropWhile_append_of_pos hwholeDigits, List.takeWhile_cons_of_neg hdot,
      List.dropWhile_cons_of_neg hdot, List.append_nil]
    simp [hnonempty, exponent?, List.takeWhile_eq_self_iff.2 hfractionDigits,
      List.dropWhile_eq_nil_iff.2 hfractionDigits]

/-- A sign and a number that starts with a digit are told apart. -/
theorem takeSign_signed (negative : Bool) {c : Char} (hc : c.isDigit = true) (rest : List Char) :
    takeSign (signed negative (c :: rest)) = (negative, c :: rest) := by
  cases negative with
  | true => rfl
  | false =>
    show takeSign (c :: rest) = _
    rw [takeSign]
    · intro _ heq
      cases heq
      cases hc
    · intro _ heq
      cases heq
      cases hc

/-- A digit is no hyphen that could be dropped. -/
theorem filter_cons_of_isDigit {c : Char} (hc : c.isDigit = true) (rest : List Char) :
    (c :: rest).filter (· != '-') = c :: rest.filter (· != '-') :=
  List.filter_cons_of_pos (bne_iff_ne.2 (ne_of_isDigit hc rfl))

/-- Hyphens are dropped behind the first character. -/
theorem normalize_cons (c : Char) (rest : List Char) :
    normalize (c :: rest) = c :: rest.filter (· != '-') := by
  unfold normalize
  split
  · rename_i heq
    cases heq
    rfl
  · rename_i heq
    cases heq
    rfl
  · rename_i _ hminus
    -- the first character is no hyphen, so dropping all of them is the same
    exact List.filter_cons_of_pos (bne_iff_ne.2 fun heq => hminus rest (heq ▸ rfl))

/-- Normalizing keeps a sign and drops the hyphens behind the first digit. -/
private theorem normalize_signed (negative : Bool) {c : Char} (hc : c.isDigit = true)
    (rest : List Char) :
    normalize (signed negative (c :: rest)) = signed negative (c :: rest.filter (· != '-')) := by
  cases negative with
  | true =>
    show normalize ('-' :: c :: rest) = _
    rw [normalize_cons, filter_cons_of_isDigit hc]
    rfl
  | false => exact normalize_cons c rest

/-- A digit has no other case. -/
private theorem toLower_of_isDigit {c : Char} (h : c.isDigit = true) : c.toLower = c := by
  apply Char.toLower_eq_of_not_isUpper
  simp only [Char.isDigit, Char.isUpper, Bool.and_eq_true, decide_eq_true_eq] at h ⊢
  grind

/-- Nor is it the name of a number. -/
theorem plain?_signed (negative : Bool) {c : Char} (hc : c.isDigit = true) (rest : List Char) :
    plain? (signed negative (c :: rest)) = (decimal? (c :: rest)).map (·.toDouble negative) := by
  -- the names start with letters
  have hname : ∀ {name : String} {d : Char} {ds : List Char}, name.toList = d :: ds →
      d.isDigit = false → String.ofList ((c :: rest).map Char.toLower) ≠ name := by
    rintro _ d ds hlist hd rfl
    rw [String.toList_ofList, List.map_cons, toLower_of_isDigit hc] at hlist
    cases hlist
    exact ne_of_isDigit hc hd rfl
  unfold plain?
  rw [takeSign_signed negative hc]
  dsimp only
  rw [if_neg, if_neg]
  · exact @hname "nan" _ _ rfl rfl
  · rintro (h | h)
    · exact hname rfl rfl h
    · exact hname rfl rfl h

end Numeral

/-! ## Numbers -/

/-- A whole number is the double that it was found for. -/
private theorem wholeMagnitude?_eq_some {mantissa n : Nat} {exponent : Int}
    (h : Double.wholeMagnitude? mantissa exponent = some n) :
    (n : ℚ) = mantissa * 2 ^ exponent := by
  unfold Double.wholeMagnitude? at h
  split at h
  · rename_i hexponent
    cases h
    rw [Nat.cast_mul, Double.cast_twoPow, ← zpow_natCast, Int.toNat_of_nonneg hexponent]
  · rename_i hexponent
    dsimp only at h
    split at h
    · rename_i hmod
      cases h
      -- nothing is lost in the division, which leaves no rest
      rw [Nat.cast_div (Nat.dvd_of_mod_eq_zero hmod) (Double.cast_twoPow _ ▸ by positivity),
        Double.cast_twoPow, ← zpow_natCast, Int.toNat_of_nonneg (by omega), zpow_neg,
        div_inv_eq_mul]
    · cases h

open Double in
/-- The decimal that is written leads back. -/
theorem numberDecimal_toDouble (negative : Bool) {mantissa : Nat} {exponent : Int}
    (h : Canonical mantissa exponent) (hmantissa : mantissa ≠ 0) :
    (numberDecimal mantissa exponent).toDouble negative =
      ofMagnitude negative (magnitude mantissa exponent) := by
  unfold numberDecimal
  split
  · rename_i n hn
    split
    · -- a whole number that is not too long is written with all its digits
      apply Decimal.toDouble_of_canonical negative h hmantissa
      rw [← wholeMagnitude?_eq_some hn, Decimal.toRat, zpow_zero, mul_one]
    · exact Decimal.shortest_toDouble negative h hmantissa
  · exact Decimal.shortest_toDouble negative h hmantissa

/-- Zero is written as one digit. -/
private theorem numberDecimal_zero (exponent : Int) : numberDecimal 0 exponent = ⟨0, 0⟩ := by
  have hwhole : Double.wholeMagnitude? 0 exponent = some 0 := by simp [Double.wholeMagnitude?]
  rw [numberDecimal, hwhole]
  rfl

/-- The written form with a sign is a numeral, and stands for the closest double. -/
private theorem atom_positional (negative : Bool) (d : Decimal) :
    Expr.Atom (String.ofList (Numeral.signed negative d.positional.toList))
      (.number (d.flattened.toDouble negative)) := by
  obtain ⟨whole, fraction, htext, hwhole, hdigits, hflat⟩ := d.exists_positional_eq
  obtain ⟨c, rest, rfl⟩ := List.exists_cons_of_ne_nil hwhole
  have hc : c.isDigit = true := hdigits c List.mem_cons_self
  have hrest : ∀ d ∈ rest ++ fraction, d.isDigit = true := fun d hd =>
    hdigits d (List.mem_cons_of_mem c hd)
  -- normalizing drops hyphens behind the first character, and there are none
  have hkept : (Decimal.dotted rest fraction).filter (· != '-') = Decimal.dotted rest fraction := by
    rw [List.filter_eq_self]
    intro d hd
    obtain hdigit | rfl := Decimal.mem_dotted hrest hd
    · exact bne_iff_ne.2 (Numeral.ne_of_isDigit hdigit rfl)
    · rfl
  apply Expr.Atom.number
  · rw [String.toList_ofList, htext, Decimal.dotted_cons, Numeral.isNumeral,
      Numeral.takeSign_signed negative hc]
    show (c.isDigit && _) = true
    rw [hc, Bool.true_and]
    exact Numeral.afterDigit_dotted hrest
  · rw [String.toList_ofList, htext, Decimal.dotted_cons, Numeral.normalize_signed negative hc,
      hkept, Numeral.plain?_signed negative hc, ← Decimal.dotted_cons,
      Numeral.decimal?_dotted hwhole hdigits, ← hflat, Option.map_some]

/-- The text is the written form with a sign, which zero goes without. -/
private theorem numberText_eq {x : Float} {negative : Bool} {mantissa : Nat} {exponent : Int}
    (h : Double.reading x = .finite negative mantissa exponent) :
    numberText x = String.ofList (Numeral.signed (decide (negative = true ∧ mantissa ≠ 0))
      (numberDecimal mantissa exponent).positional.toList) := by
  rw [numberText, h]
  dsimp only
  by_cases hsign : negative = true ∧ mantissa ≠ 0
  · rw [if_pos hsign, decide_eq_true hsign]
    simp [Numeral.signed, String.ofList_cons]
  · rw [if_neg hsign, decide_eq_false hsign]
    simp [Numeral.signed]

/-- The text of a finite number stands for a number equal to it. -/
theorem exists_atom_numberText {x : Float} {negative : Bool} {mantissa : Nat} {exponent : Int}
    (h : Double.reading x = .finite negative mantissa exponent) :
    ∃ y : Float, Expr.Atom (numberText x) (.number y) ∧ (y == x) = true := by
  refine ⟨_, numberText_eq h ▸ atom_positional _ _, ?_⟩
  obtain ⟨hcanonical, hx⟩ := Double.eq_of_reading h
  by_cases hmantissa : mantissa = 0
  · -- zero loses its sign, but the two zeros are equal
    subst hmantissa
    have hexponent : exponent = -1074 := by
      obtain hsmallest | hnormal := hcanonical.normal
      · exact hsmallest
      · rw [Double.hiddenBit_eq] at hnormal
        omega
    rw [hx, hexponent, numberDecimal_zero, decide_eq_false fun hsign => hsign.2 rfl]
    cases negative with
    | false => decide +kernel
    | true => decide +kernel
  · have hback := Decimal.toDouble_flattened hcanonical.magnitude_lt
      (numberDecimal_toDouble negative hcanonical hmantissa)
    have hsign : decide (negative = true ∧ mantissa ≠ 0) = negative := by simp [hmantissa]
    rw [hsign, hback, ← hx]
    exact Double.beq_self_of_reading h

/-- It is made of digits, dots and hyphens. -/
theorem mem_numberText {x : Float} {negative : Bool} {mantissa : Nat} {exponent : Int}
    (h : Double.reading x = .finite negative mantissa exponent) {c : Char}
    (hc : c ∈ (numberText x).toList) : c.isDigit = true ∨ c = '.' ∨ c = '-' := by
  rw [numberText_eq h, String.toList_ofList] at hc
  obtain ⟨whole, fraction, htext, -, hdigits, -⟩ :=
    (numberDecimal mantissa exponent).exists_positional_eq
  rw [htext] at hc
  unfold Numeral.signed at hc
  split at hc
  · obtain rfl | hc := List.mem_cons.1 hc
    · exact .inr (.inr rfl)
    · exact (Decimal.mem_dotted hdigits hc).imp_right .inl
  · exact (Decimal.mem_dotted hdigits hc).imp_right .inl

end Lisplet
