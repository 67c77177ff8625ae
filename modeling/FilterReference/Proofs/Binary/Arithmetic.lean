/-
# Double arithmetic is exact arithmetic, rounded

The arithmetic of doubles shifts mantissas and keeps of what it shifts out a round bit and a sticky
bit.  These two bits say as much of the lost fraction as rounding wants to know (`Tracks`), so that
in the end the result is the pattern nearest to the exact one:

    mul_eq        a product is the exact product, rounded by `Format.nearest`
    div_eq        a quotient is the exact quotient, rounded
    normalize_eq  an integer of units is rounded
    ofCount_eq    a count becomes a double by rounding

The sign is that of the exact result, and that of a zero follows the same rule.  Of differences only
the smallest is looked at: a finite double differs from itself by zero (`sub_self_of_isFinite`).
-/
import FilterReference.Proofs.Binary.Double

namespace FilterReference.Binary

open Float.Model (totalExponent)
open Float.Model.UnpackedFloat

/-! ## Round bit and sticky bit

The two bits place the lost fraction: below a half, at it, or above.  That is kept when a further
bit is shifted out, and it is all that rounding to even asks for, so shifting first and rounding
afterwards comes to rounding the fraction. -/

/-- A shifted mantissa holds the whole part of a fraction, and its two bits the place of the rest
with respect to one half. -/
structure Tracks (em : ExtendedMantissa) (num den : Nat) : Prop where
  whole : em.mantissa = num / den
  round : em.roundBit = true ↔ den ≤ 2 * (num % den)
  sticky : em.stickyBit = true ↔ num % den ≠ 0 ∧ 2 * (num % den) ≠ den

theorem tracks_exact (m : Nat) : Tracks (.ofMantissaAndAccuracy m .exact) m 1 where
  whole := (Nat.div_one m).symm
  round := by simp [ExtendedMantissa.ofMantissaAndAccuracy, Nat.mod_one]
  sticky := by simp [ExtendedMantissa.ofMantissaAndAccuracy, Nat.mod_one]

theorem tracks_fraction (num : Nat) {den : Nat} (hd : 0 < den) :
    Tracks (.ofMantissaAndAccuracy (num / den) (accuracyOfFraction (num % den) den)) num den := by
  have hlt := Nat.mod_lt num hd
  unfold accuracyOfFraction
  split
  · rename_i h
    exact ⟨rfl, by simp [ExtendedMantissa.ofMantissaAndAccuracy, h]; omega,
      by simp [ExtendedMantissa.ofMantissaAndAccuracy, h]⟩
  · rename_i h
    rcases hc : compare (2 * (num % den)) den with _ | _ | _
    · rw [Nat.compare_eq_lt] at hc
      exact ⟨rfl, by simp [ExtendedMantissa.ofMantissaAndAccuracy]; omega,
        by simp [ExtendedMantissa.ofMantissaAndAccuracy]; omega⟩
    · rw [Nat.compare_eq_eq] at hc
      exact ⟨rfl, by simp [ExtendedMantissa.ofMantissaAndAccuracy]; omega,
        by simp [ExtendedMantissa.ofMantissaAndAccuracy]; omega⟩
    · rw [Nat.compare_eq_gt] at hc
      exact ⟨rfl, by simp [ExtendedMantissa.ofMantissaAndAccuracy]; omega,
        by simp [ExtendedMantissa.ofMantissaAndAccuracy]; omega⟩

theorem Tracks.shiftRightOne {em : ExtendedMantissa} {num den : Nat} (h : Tracks em num den)
    (hd : 0 < den) : Tracks em.shiftRightOne num (den * 2) := by
  have hlt := Nat.mod_lt num hd
  have hmod : num % (den * 2) = num % den + den * (num / den % 2) := Nat.mod_mul
  have hbit : den * (num / den % 2) = if num / den % 2 = 0 then 0 else den := by
    rcases Nat.mod_two_eq_zero_or_one (num / den) with h | h <;> simp [h]
  refine ⟨?_, ?_, ?_⟩
  · change em.mantissa / 2 = _
    rw [h.whole, Nat.div_div_eq_div_mul]
  · change (em.mantissa % 2 != 0) = true ↔ _
    rw [h.whole, bne_iff_ne, hmod, hbit]
    split <;> omega
  · change (em.roundBit || em.stickyBit) = true ↔ _
    rw [Bool.or_eq_true, h.round, h.sticky, hmod, hbit]
    split <;> omega

theorem Tracks.shiftRight {em : ExtendedMantissa} {num den : Nat} (h : Tracks em num den)
    (hd : 0 < den) (k : Nat) : Tracks (em >>> k) num (den * 2 ^ k) := by
  change Tracks (k.repeat ExtendedMantissa.shiftRightOne em) _ _
  induction k with
  | zero => simpa [Nat.repeat] using h
  | succ k ih =>
      rw [Nat.repeat, Nat.pow_succ, ← Nat.mul_assoc]
      exact ih.shiftRightOne (Nat.mul_pos hd (Nat.two_pow_pos k))

/-- The two bits are all that rounding to the nearest integer needs. -/
theorem Tracks.roundedMantissa {em : ExtendedMantissa} {num den : Nat} (h : Tracks em num den)
    (hd : 0 < den) : em.roundedMantissa = roundHalfEven num den := by
  have hlt := Nat.mod_lt num hd
  obtain ⟨m, round, sticky⟩ := em
  obtain ⟨hm, hr, hs⟩ := h
  obtain rfl : m = num / den := hm
  simp only [roundHalfEven]
  cases round <;> cases sticky <;>
    simp only [ExtendedMantissa.roundedMantissa, ExtendedMantissa.accuracy,
      Accuracy.roundToNearestEven, Bool.false_eq_true, false_iff, true_iff] at hr hs ⊢
  · rw [if_pos (by omega)]
  · rw [if_pos (by omega)]
  · rw [if_neg (by omega), if_neg (by omega)]
  · rw [if_neg (by omega), if_pos (by omega)]

/-! ## One rounding step

A result is shifted to the exponent that its size calls for and rounded there.  Shifting left would
make up bits, so the result has to be given with bits enough, or in the least exponent; this and the
tracking of the exact result make up `Approximates`, which is what the operations have to provide.
-/

/-- The exponent that a mantissa is shifted to. -/
def target (m : Nat) (e : Int) : Int := double.targetExponent (totalExponent m e)

theorem target_eq (m : Nat) (e : Int) : target m e = max ((m.log2 : Int) + e - 52) (-1074) := by
  change max ((m.log2 : Int) + 1 + e - 53) (-1074) = _
  omega

theorem shiftToTargetExponent_of_lt {m : Nat} {e : Int} (hm : m < 2 ^ 53) (he : -1074 ≤ e) :
    shiftToTargetExponent double m e .exact = (⟨m, false, false⟩, e) := by
  have hlog : m.log2 ≤ 52 := by
    rcases Nat.eq_zero_or_pos m with rfl | hpos
    · simp
    · have := (Nat.log2_lt (Nat.ne_of_gt hpos)).mpr hm
      omega
  have hzero : (target m e - e).toNat = 0 := by
    rw [target_eq]; omega
  change (ExtendedMantissa.ofMantissaAndAccuracy m .exact >>> (target m e - e).toNat,
    e + (target m e - e).toNat) = _
  rw [hzero]
  simp [HShiftRight.hShiftRight, Nat.repeat, ExtendedMantissa.ofMantissaAndAccuracy]

/-- A mantissa that has been rounded up to the next power of two is shifted once more. -/
theorem shiftToTargetExponent_of_carry {e : Int} (he : -1074 ≤ e) :
    shiftToTargetExponent double (2 ^ 53) e .exact = (⟨2 ^ 52, false, false⟩, e + 1) := by
  have hone : (target (2 ^ 53) e - e).toNat = 1 := by
    rw [target_eq, Nat.log2_two_pow]; omega
  change (ExtendedMantissa.ofMantissaAndAccuracy (2 ^ 53) .exact >>> (target (2 ^ 53) e - e).toNat,
    e + (target (2 ^ 53) e - e).toNat) = _
  rw [hone]
  rfl

/-- The exact number behind a mantissa, its exponent and what has been shifted out of it. -/
structure Approximates (m : Nat) (e : Int) (accuracy : Accuracy) (num den : Nat) : Prop where
  /-- The fraction in units of the exponent. -/
  fraction : ∃ n d, 0 < d ∧ Tracks (.ofMantissaAndAccuracy m accuracy) n d ∧
    (n / d * 2 ^ e : ℚ) = num / den
  /-- There are bits enough, or the exponent is small enough. -/
  enough : 52 ≤ m.log2 ∨ e ≤ -1074

theorem Tracks.mantissa_eq {m : Nat} {accuracy : Accuracy} {n d : Nat}
    (h : Tracks (.ofMantissaAndAccuracy m accuracy) n d) : m = n / d := by
  have hw := h.whole
  cases accuracy with
  | exact => exact hw
  | inexact o => cases o <;> exact hw

variable {m : Nat} {e : Int} {accuracy : Accuracy} {num den : Nat}

/-- Shifting goes to the unit that the exact number is rounded in. -/
theorem Approximates.unitExponent (h : Approximates m e accuracy num den) (hn : num ≠ 0)
    (hd : den ≠ 0) : binary64.unitExponent num den = target m e := by
  obtain ⟨⟨n, d, hd', htrack, hvalue⟩, henough⟩ := h
  have hm := htrack.mantissa_eq
  have hd₀ : (0 : ℚ) < d := by exact_mod_cast hd'
  have hlow : (m : ℚ) ≤ n / d := by
    rw [hm, le_div_iff₀ hd₀]
    exact_mod_cast Nat.div_mul_le_self n d
  have hhigh : (n / d : ℚ) < m + 1 := by
    rw [hm, div_lt_iff₀ hd₀]
    exact_mod_cast Nat.lt_mul_of_div_lt (Nat.lt_succ_self (n / d)) hd'
  obtain ⟨l₁, l₂⟩ := log2Quotient_bounds hn hd
  have hone : (1 : ℚ) < 2 := by norm_num
  have hp := Format.two_zpow_pos e
  rw [target_eq]
  change max (-1074) (log2Quotient num den - 52) = _
  rcases Nat.eq_zero_or_pos m with rfl | hpos
  · have he : e ≤ -1074 := henough.resolve_left (by simp)
    have hlt : (2 : ℚ) ^ log2Quotient num den < 2 ^ e := by
      refine l₁.trans_lt ?_
      rw [← hvalue]
      norm_num at hhigh
      nlinarith
    have := (zpow_lt_zpow_iff_right₀ hone).mp hlt
    simp
    omega
  · obtain ⟨b₁, b₂⟩ := log2_bounds (Nat.ne_of_gt hpos)
    have hnext : (m : ℚ) + 1 ≤ 2 ^ ((m.log2 : Int) + 1) := by
      have hsucc : m + 1 ≤ 2 ^ (m.log2 + 1) := Nat.lt_log2_self
      exact_mod_cast hsucc
    have hlt₁ : (2 : ℚ) ^ ((m.log2 : Int) + e) < 2 ^ (log2Quotient num den + 1) := by
      refine lt_of_le_of_lt ?_ l₂
      rw [← hvalue, zpow_add₀ (by norm_num)]
      exact mul_le_mul_of_nonneg_right (b₁.trans hlow) hp.le
    have hlt₂ : (2 : ℚ) ^ log2Quotient num den < 2 ^ ((m.log2 : Int) + 1 + e) := by
      refine l₁.trans_lt ?_
      rw [← hvalue, zpow_add₀ (by norm_num : (2 : ℚ) ≠ 0) ((m.log2 : Int) + 1)]
      exact mul_lt_mul_of_pos_right (hhigh.trans_le hnext) hp
    have h₁ := (zpow_lt_zpow_iff_right₀ hone).mp hlt₁
    have h₂ := (zpow_lt_zpow_iff_right₀ hone).mp hlt₂
    omega

theorem Approximates.roundedMantissa (h : Approximates m e accuracy num den) (hn : num ≠ 0)
    (hd : den ≠ 0) :
    (shiftToTargetExponent double m e accuracy).1.roundedMantissa =
        binary64.roundedMantissa num den ∧
      (shiftToTargetExponent double m e accuracy).2 = binary64.unitExponent num den := by
  have hunit := h.unitExponent hn hd
  obtain ⟨⟨n, d, hd', htrack, hvalue⟩, henough⟩ := h
  have hshift : e + (target m e - e).toNat = target m e := by
    rw [target_eq]; omega
  refine ⟨?_, by rw [hunit]; exact hshift⟩
  have hpos : 0 < d * 2 ^ (target m e - e).toNat := Nat.mul_pos hd' (Nat.two_pow_pos _)
  have hratio : (n / (d * 2 ^ (target m e - e).toNat : Nat) : ℚ) =
      num / den / 2 ^ binary64.unitExponent num den := by
    rw [hunit, ← hvalue, ← hshift, zpow_add₀ (by norm_num), zpow_natCast]
    have he := (Format.two_zpow_pos e).ne'
    push_cast
    field_simp
    rw [hshift]
  change ((ExtendedMantissa.ofMantissaAndAccuracy m accuracy) >>>
    (target m e - e).toNat).roundedMantissa = _
  rw [(htrack.shiftRight hd' _).roundedMantissa hpos]
  rw [← scaleDown_eq] at hratio
  have hpos' := scaleDown_pos num (Nat.pos_of_ne_zero hd) (binary64.unitExponent num den)
  exact Nat.le_antisymm (roundHalfEven_mono hpos hpos' hratio.le)
    (roundHalfEven_mono hpos' hpos hratio.ge)

/-- **Rounding and packing give the nearest pattern.** -/
theorem Approximates.toNat_pack (h : Approximates m e accuracy num den) (hn : num ≠ 0)
    (hd : den ≠ 0) (s : Sign) :
    (pack double (roundWithAccuracy double s m e accuracy)).toNat =
      s.toBitVec.toNat * 2 ^ 63 + binary64.nearest num den := by
  obtain ⟨hround, hexp⟩ := h.roundedMantissa hn hd
  have hfit := binary64.roundedMantissa_fits hn hd
  have hnormal := binary64.roundedMantissa_normal hn hd
  have hmin : -1074 ≤ binary64.unitExponent num den := binary64.minExponent_le_unitExponent num den
  rw [binary64.nearest_eq_min, binary64.unbounded_of_ne_zero hn]
  change (binary64.unitExponent num den - -1074).toNat = 0 ∨ 2 ^ 52 ≤ _ at hnormal
  change _ ≤ 2 ^ 53 at hfit
  change _ = _ + min ((binary64.unitExponent num den - -1074).toNat * 2 ^ 52 + _) _
  simp only [roundWithAccuracy, hround, hexp]
  generalize binary64.roundedMantissa num den = r at *
  generalize binary64.unitExponent num den = u at *
  rcases hfit.lt_or_eq with hlt | rfl
  · simp only [shiftToTargetExponent_of_lt hlt hmin]
    rcases Nat.eq_zero_or_pos r with rfl | hpos
    · have hu : (u - -1074).toNat = 0 := hnormal.resolve_right (by omega)
      rw [dif_pos rfl, pack, packedZero, toNat_packComponents, hu]
      change _ + 0 * 2 ^ 52 + 0 = _ + min (0 * 2 ^ 52 + 0) (2047 * 2 ^ 52)
      omega
    · rw [dif_neg (Nat.ne_of_gt hpos),
        toNat_pack_finite s hpos hlt hmin (by omega), Int.sub_neg]
  · simp only [shiftToTargetExponent_of_carry hmin]
    rw [dif_neg (by decide),
      toNat_pack_finite s (by decide) (by decide) (by omega) (Or.inr (by decide)),
      show (u + 1 + 1074).toNat = (u - -1074).toNat + 1 by omega,
      show ((u - -1074).toNat + 1) * 2 ^ 52 + 2 ^ 52 = (u - -1074).toNat * 2 ^ 52 + 2 ^ 53 by omega]

theorem Approximates.ofModel_pack (h : Approximates m e accuracy num den) (hn : num ≠ 0)
    (hd : den ≠ 0) (negative : Bool) :
    Float.ofModel (.pack (roundWithAccuracy double (signOf negative) m e accuracy)) =
      ofQuotient negative num den := by
  apply toBits_injective
  rw [← UInt64.toNat_inj, ofQuotient, toNat_ofParts _ (binary64.nearest_le_infinity num den)]
  refine (h.toNat_pack hn hd (signOf negative)).trans ?_
  cases negative <;> simp [signOf, Sign.toBitVec]

/-! ## Operands

An operand is zero, infinite, not a number, or has a mantissa, and that has all its bits unless the
exponent is the least.  This is what makes the results of the operations fit for the step above. -/

/-- The distance of a double from zero, as an exact number. -/
def size (x : Float) : ℚ := binary64.value (magnitude x)

theorem size_nonneg (x : Float) : 0 ≤ size x := binary64.value_nonneg _

theorem size_ofQuotient (negative : Bool) (num den : Nat) :
    size (ofQuotient negative num den) = binary64.value (binary64.nearest num den) := by
  rw [size, magnitude_ofQuotient]

def word (x : Float) : BitVec double.numBits := x.toBits.toBitVec

theorem ofBitVec_unpackSign (x : Float) :
    Sign.ofBitVec (unpackSign (word x)) = signOf (negative x) := by
  have hbits : (unpackSign (word x)).toNat = x.toBits.toNat / 2 ^ 63 := toNat_unpackSign (word x)
  have hx : x.toBits.toNat < 2 ^ 64 := x.toBits.toNat_lt
  unfold Sign.ofBitVec signOf negative
  split
  · rename_i h
    rw [h] at hbits
    change 0 = _ at hbits
    rw [if_neg]
    simp only [decide_eq_true_eq]
    omega
  · rename_i h
    have hne : (unpackSign (word x)).toNat ≠ 0 := fun h0 => h (BitVec.eq_of_toNat_eq h0)
    rw [if_pos]
    simp only [decide_eq_true_eq]
    omega

theorem unpack_eq_finite {x : Float} (hx : isFinite x = true) (h₀ : magnitude x ≠ 0) :
    unpack double (word x) =
      .finite (signOf (negative x)) (binary64.mantissa (magnitude x))
        (binary64.exponent (magnitude x)) (Nat.pos_of_ne_zero (binary64.mantissa_ne_zero h₀)) := by
  rw [← ofBitVec_unpackSign]
  exact unpack_of_finite (word x) h₀ (of_decide_eq_true hx)

theorem unpack_eq_zero {x : Float} (h₀ : magnitude x = 0) :
    unpack double (word x) = .zero (signOf (negative x)) := by
  rw [← ofBitVec_unpackSign]
  exact unpack_of_zero (word x) h₀

theorem unpack_eq_infinity {x : Float} (h : magnitude x = binary64.infinity) :
    unpack double (word x) = .infinity (signOf (negative x)) := by
  rw [← ofBitVec_unpackSign]
  exact unpack_of_infinity (word x) h

theorem unpack_eq_notANumber {x : Float} (h : isNaN x = true) :
    unpack double (word x) = .notANumber :=
  unpack_of_notANumber (word x) (of_decide_eq_true h)

theorem signOf_mul (a b : Bool) : signOf a * signOf b = signOf (a ^^ b) := by
  cases a <;> cases b <;> rfl

theorem signOf_div (a b : Bool) : signOf a / signOf b = signOf (a ^^ b) := by
  cases a <;> cases b <;> rfl

/-- The mantissa of a pattern has all its bits, or the exponent is the least one. -/
theorem mantissa_enough {bits : Nat} (h : bits ≠ 0) :
    52 ≤ (binary64.mantissa bits).log2 ∨ binary64.exponent bits = -1074 := by
  obtain ⟨-, hn⟩ := binary64.mantissa_bounds bits
  rcases hn with hleast | hbig
  · right
    change bits / 2 ^ 52 - 1 = 0 at hleast
    rw [exponent_eq, hleast]
    rfl
  · exact Or.inl ((Nat.le_log2 (binary64.mantissa_ne_zero h)).mpr hbig)

theorem size_eq_zero {x : Float} (h : magnitude x = 0) : size x = 0 := by
  rw [size, h, binary64.value_zero]

theorem size_pos {x : Float} (h : magnitude x ≠ 0) : 0 < size x := by
  rw [size, ← binary64.value_zero, binary64.value_lt_value]
  exact Nat.pos_of_ne_zero h

theorem ofModel_zero (negative : Bool) (den : Nat) :
    Float.ofModel (.pack (zero (signOf negative))) = ofQuotient negative 0 den := by
  have hzero : binary64.nearest 0 den = 0 := by simp [Format.nearest]
  rw [ofQuotient, hzero]
  apply toBits_injective
  rw [← UInt64.toNat_inj, toNat_ofParts _ (Nat.zero_le _)]
  cases negative <;> rfl

/-! ## Products -/

theorem approximates_mul {a b : Nat} (ha : a ≠ 0) (hb : b ≠ 0) {num den : Nat}
    (h : (num / den : ℚ) = binary64.value a * binary64.value b) :
    Approximates (binary64.mantissa a * binary64.mantissa b)
      (binary64.exponent a + binary64.exponent b) .exact num den where
  fraction := ⟨_, 1, Nat.one_pos, tracks_exact _, by
    rw [h, Format.value, Format.value, zpow_add₀ (by norm_num)]
    push_cast
    ring⟩
  enough := by
    have ha' := binary64.mantissa_ne_zero ha
    have hb' := binary64.mantissa_ne_zero hb
    have hprod := Nat.mul_ne_zero ha' hb'
    rcases mantissa_enough ha with h₁ | h₁
    · left
      refine (Nat.le_log2 hprod).mpr (((Nat.le_log2 ha').mp h₁).trans ?_)
      exact Nat.le_mul_of_pos_right _ (Nat.pos_of_ne_zero hb')
    · rcases mantissa_enough hb with h₂ | h₂
      · left
        refine (Nat.le_log2 hprod).mpr (((Nat.le_log2 hb').mp h₂).trans ?_)
        exact Nat.le_mul_of_pos_left _ (Nat.pos_of_ne_zero ha')
      · right
        omega

/-- **A product is the exact product, rounded.** -/
theorem mul_eq {x y : Float} (hx : isFinite x = true) (hy : isFinite y = true) {num den : Nat}
    (hd : den ≠ 0) (h : (num / den : ℚ) = size x * size y) :
    x * y = ofQuotient (negative x ^^ negative y) num den := by
  have hd' : (den : ℚ) ≠ 0 := by exact_mod_cast hd
  have hunfold : x * y =
      Float.ofModel (.pack (mul double (unpack double (word x)) (unpack double (word y)))) := rfl
  rw [hunfold]
  by_cases h₀ : magnitude x = 0 ∨ magnitude y = 0
  · have hnum : num = 0 := by
      have hzero : (num / den : ℚ) = 0 := by
        rw [h, mul_eq_zero]
        exact h₀.imp size_eq_zero size_eq_zero
      rw [div_eq_zero_iff] at hzero
      exact_mod_cast hzero.resolve_right hd'
    rw [hnum, ← ofModel_zero (negative x ^^ negative y) den, ← signOf_mul]
    by_cases hx₀ : magnitude x = 0
    · rw [unpack_eq_zero hx₀]
      by_cases hy₀ : magnitude y = 0
      · rw [unpack_eq_zero hy₀]; rfl
      · rw [unpack_eq_finite hy hy₀]; rfl
    · rw [unpack_eq_finite hx hx₀, unpack_eq_zero (h₀.resolve_left hx₀)]; rfl
  · obtain ⟨hx₀, hy₀⟩ := not_or.mp h₀
    have hn : num ≠ 0 := by
      rintro rfl
      have := mul_pos (size_pos hx₀) (size_pos hy₀)
      rw [← h] at this
      simp at this
    rw [unpack_eq_finite hx hx₀, unpack_eq_finite hy hy₀]
    simp only [mul, signOf_mul]
    exact (approximates_mul hx₀ hy₀ h).ofModel_pack hn hd _

/-! ## Quotients

The dividend is shifted first, so that the quotient of the mantissas has bits enough.  What the
remainder says goes into the two bits. -/

theorem approximates_div {a b : Nat} (ha : a ≠ 0) (hb : b ≠ 0) {num den : Nat}
    (h : (num / den : ℚ) = binary64.value a / binary64.value b) :
    Approximates
      (divCore double (binary64.mantissa a) (binary64.exponent a) (binary64.mantissa b)
        (binary64.exponent b)).1
      (divCore double (binary64.mantissa a) (binary64.exponent a) (binary64.mantissa b)
        (binary64.exponent b)).2.1
      (divCore double (binary64.mantissa a) (binary64.exponent a) (binary64.mantissa b)
        (binary64.exponent b)).2.2 num den := by
  have ha' := binary64.mantissa_ne_zero ha
  have hb' := binary64.mantissa_ne_zero hb
  rw [Format.value, Format.value] at h
  generalize binary64.mantissa a = m₁ at *
  generalize binary64.mantissa b = m₂ at *
  generalize binary64.exponent a = e₁ at *
  generalize binary64.exponent b = e₂ at *
  -- The exponent of the quotient, and by how many bits the dividend is shifted to the left.
  obtain ⟨t, ht⟩ : ∃ t, t = min (e₁ - e₂)
      (double.targetExponent (totalExponent m₁ e₁ - totalExponent m₂ e₂)) := ⟨_, rfl⟩
  have htarget : double.targetExponent (totalExponent m₁ e₁ - totalExponent m₂ e₂) =
      max (((m₁.log2 : Int) + 1 + e₁) - (m₂.log2 + 1 + e₂) - 53) (-1074) := rfl
  have hcore : divCore double m₁ e₁ m₂ e₂ =
      ((m₁ <<< (e₁ - e₂ - t).toNat) / m₂, t,
        accuracyOfFraction ((m₁ <<< (e₁ - e₂ - t).toNat) % m₂) m₂) := by
    rw [ht]; rfl
  rw [htarget] at ht
  rw [hcore]
  refine ⟨⟨_, m₂, Nat.pos_of_ne_zero hb', tracks_fraction _ (Nat.pos_of_ne_zero hb'), ?_⟩, ?_⟩
  · have hshift : ((e₁ - e₂ - t).toNat : Int) = e₁ - e₂ - t := by omega
    have hsplit : e₁ = (e₁ - e₂ - t) + t + e₂ := by omega
    have hm₂ : (m₂ : ℚ) ≠ 0 := by exact_mod_cast hb'
    rw [h, Nat.shiftLeft_eq]
    conv_rhs => rw [hsplit, zpow_add₀ (by norm_num), zpow_add₀ (by norm_num), ← hshift]
    have he₂ := (Format.two_zpow_pos e₂).ne'
    push_cast
    rw [zpow_natCast]
    field_simp
  · rcases le_or_gt t (-1074) with hle | hlt
    · exact Or.inr hle
    · left
      have hbits : 53 + m₂.log2 ≤ m₁.log2 + (e₁ - e₂ - t).toNat := by omega
      have hdividend : 2 ^ (53 + m₂.log2) ≤ m₁ <<< (e₁ - e₂ - t).toNat := by
        rw [Nat.shiftLeft_eq]
        calc 2 ^ (53 + m₂.log2) ≤ 2 ^ (m₁.log2 + (e₁ - e₂ - t).toNat) :=
              Nat.pow_le_pow_right (by norm_num) hbits
          _ = 2 ^ m₁.log2 * 2 ^ (e₁ - e₂ - t).toNat := Nat.pow_add ..
          _ ≤ m₁ * 2 ^ (e₁ - e₂ - t).toNat :=
              Nat.mul_le_mul_right _ (Nat.log2_self_le ha')
      have hquotient : 2 ^ 52 ≤ m₁ <<< (e₁ - e₂ - t).toNat / m₂ := by
        rw [Nat.le_div_iff_mul_le (Nat.pos_of_ne_zero hb')]
        calc 2 ^ 52 * m₂ ≤ 2 ^ 52 * 2 ^ (m₂.log2 + 1) :=
              Nat.mul_le_mul_left _ Nat.lt_log2_self.le
          _ = 2 ^ (53 + m₂.log2) := by rw [← Nat.pow_add]; congr 1; omega
          _ ≤ _ := hdividend
      refine (Nat.le_log2 ?_).mpr hquotient
      omega

/-- **A quotient is the exact quotient, rounded.** -/
theorem div_eq {x y : Float} (hx : isFinite x = true) (hy : isFinite y = true)
    (hy₀ : magnitude y ≠ 0) {num den : Nat} (hd : den ≠ 0)
    (h : (num / den : ℚ) = size x / size y) :
    x / y = ofQuotient (negative x ^^ negative y) num den := by
  have hd' : (den : ℚ) ≠ 0 := by exact_mod_cast hd
  have hunfold : x / y =
      Float.ofModel (.pack (div double (unpack double (word x)) (unpack double (word y)))) := rfl
  rw [hunfold, unpack_eq_finite hy hy₀]
  by_cases hx₀ : magnitude x = 0
  · have hnum : num = 0 := by
      rw [size_eq_zero hx₀, zero_div, div_eq_zero_iff] at h
      exact_mod_cast h.resolve_right hd'
    rw [hnum, ← ofModel_zero (negative x ^^ negative y) den, ← signOf_div, unpack_eq_zero hx₀]
    rfl
  · have hn : num ≠ 0 := by
      rintro rfl
      have := div_pos (size_pos hx₀) (size_pos hy₀)
      rw [← h] at this
      simp at this
    rw [unpack_eq_finite hx hx₀]
    simp only [div, signOf_div]
    exact (approximates_div hx₀ hy₀ h).ofModel_pack hn hd _

/-! ## Differences -/

theorem normalize_sub_self (m : Int) (e : Int) :
    Float.Model.UnpackedFloat.normalize double (m - m) e .positive = .zero (signOf false) := by
  rw [Int.sub_self]
  rfl

/-- **A finite double differs from itself by zero**, without a sign. -/
theorem sub_self_of_isFinite {x : Float} (hx : isFinite x = true) : x - x = 0 := by
  have hunfold : x - x =
      Float.ofModel (.pack (sub double (unpack double (word x)) (unpack double (word x)))) := rfl
  have hzero : (0 : Float) = ofQuotient false 0 1 := rfl
  rw [hunfold, hzero, ← ofModel_zero false 1]
  congr 2
  by_cases h₀ : magnitude x = 0
  · rw [unpack_eq_zero h₀]
    cases negative x <;> rfl
  · rw [unpack_eq_finite hx h₀]
    exact normalize_sub_self _ _

/-! ## Integers in a unit

Sums and counts come as an integer in some unit, exactly, but maybe with too few bits for the step
above.  They are shifted left first, which changes nothing. -/

theorem log2_mul_two_pow {n : Nat} (h : n ≠ 0) (k : Nat) : (n * 2 ^ k).log2 = n.log2 + k := by
  rw [Nat.log2_eq_iff (Nat.mul_ne_zero h (Nat.ne_of_gt (Nat.two_pow_pos k)))]
  constructor
  · rw [Nat.pow_add]
    exact Nat.mul_le_mul_right _ (Nat.log2_self_le h)
  · rw [Nat.add_right_comm, Nat.pow_add]
    exact Nat.mul_lt_mul_of_pos_right Nat.lt_log2_self (Nat.two_pow_pos k)

theorem round_eq (negative : Bool) {m : Nat} {e : Int} {num den : Nat} (hm : m ≠ 0) (hd : den ≠ 0)
    (h : (num / den : ℚ) = m * 2 ^ e) :
    Float.ofModel (.pack (round double (signOf negative) m e)) = ofQuotient negative num den := by
  have hn : num ≠ 0 := by
    rintro rfl
    have hpos : (0 : ℚ) < m * 2 ^ e :=
      mul_pos (by exact_mod_cast Nat.pos_of_ne_zero hm) (Format.two_zpow_pos e)
    rw [← h, Nat.cast_zero, zero_div] at hpos
    exact lt_irrefl 0 hpos
  have hround : round double (signOf negative) m e =
      roundWithAccuracy double (signOf negative) (m <<< (e - target m e).toNat)
        (e - (e - target m e).toNat) .exact := rfl
  rw [hround]
  refine Approximates.ofModel_pack ⟨⟨_, 1, Nat.one_pos, tracks_exact _, ?_⟩, ?_⟩ hn hd negative
  · rw [h, Nat.shiftLeft_eq, zpow_sub₀ (by norm_num), zpow_natCast]
    push_cast
    field_simp
  · have hlog : (m <<< (e - target m e).toNat).log2 = m.log2 + (e - target m e).toNat := by
      rw [Nat.shiftLeft_eq, log2_mul_two_pow hm]
    rw [hlog, target_eq]
    omega

/-- **An integer of units is rounded**, under the sign of the integer. -/
theorem normalize_eq {m : Int} {e : Int} (s : Sign) {num den : Nat} (hm : m ≠ 0) (hd : den ≠ 0)
    (h : (num / den : ℚ) = m.natAbs * 2 ^ e) :
    Float.ofModel (.pack (Float.Model.UnpackedFloat.normalize double m e s)) =
      ofQuotient (decide (m < 0)) num den := by
  rcases lt_or_gt_of_ne hm with hlt | hgt
  · have hround := round_eq true (m := (-m).toNat) (by omega) hd
      (by rw [h, show (-m).toNat = m.natAbs by omega])
    rw [decide_eq_true hlt, ← hround]
    simp only [Float.Model.UnpackedFloat.normalize, Int.compare_eq_lt.mpr hlt]
    rfl
  · have hround := round_eq false (m := m.toNat) (by omega) hd
      (by rw [h, show m.toNat = m.natAbs by omega])
    rw [decide_eq_false (not_lt.mpr hgt.le), ← hround]
    simp only [Float.Model.UnpackedFloat.normalize, Int.compare_eq_gt.mpr hgt]
    rfl

/-- **A count becomes a double by rounding.** -/
theorem ofCount_eq {n : Nat} (h : n < 2 ^ 64) : ofCount n = ofQuotient false n 1 := by
  have hword : n.toUInt64.toNat = n := UInt64.toNat_ofNat_of_lt' h
  have hunfold : ofCount n =
      Float.ofModel (.pack (Float.Model.UnpackedFloat.normalize double (n.toUInt64.toNat : Int) 0
        .positive)) := rfl
  rw [hunfold, hword]
  rcases Nat.eq_zero_or_pos n with rfl | hpos
  · exact ofModel_zero false 1
  · exact normalize_eq .positive (m := n) (by omega) Nat.one_ne_zero (by simp)

end FilterReference.Binary
