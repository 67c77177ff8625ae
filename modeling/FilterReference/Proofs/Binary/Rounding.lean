/-
# The laws of rounding

`Format.nearest` rounds a quotient of natural numbers to a pattern.  This module says what that
pattern is in terms of the exact numbers that patterns stand for:

    nearest_mono         rounding keeps order, so it depends on the exact number alone
    nearest_eq_of_value  a number that a pattern stands for is rounded to that pattern
    unbounded_error      the rounded number is at most half a unit in the last place away

Everything is stated over the rational numbers, and for every format.  The order of the patterns is
the order of the numbers because the exponent field stands above the fraction: a pattern is
`e * 2 ^ fractionBits + m` for the mantissa `m` and the exponent `e` counted from the least one,
also where `m` has just been rounded up to the next power of two (`value_pattern`).
-/
import FilterReference.Binary.Format
import Mathlib.Tactic

namespace FilterReference.Binary

/-! ## Rounding to an integer

The error is half a unit at most, and if it is, the integer is even.  That determines the integer by
the exact number, so order is kept. -/

/-- What `roundHalfEven` does, without division: the result is at most one half away, and even if
it is exactly one half away. -/
theorem roundHalfEven_spec (num : Nat) {den : Nat} (hd : 0 < den) :
    2 * (roundHalfEven num den * den) ≤ 2 * num + den ∧
      2 * num ≤ 2 * (roundHalfEven num den * den) + den ∧
      (2 * (roundHalfEven num den * den) = 2 * num + den ∨
        2 * num = 2 * (roundHalfEven num den * den) + den →
          roundHalfEven num den % 2 = 0) := by
  have hdiv : num / den * den + num % den = num := Nat.div_add_mod' num den
  have hlt : num % den < den := Nat.mod_lt num hd
  simp only [roundHalfEven]
  split
  · omega
  · split
    · rw [Nat.add_mul, Nat.one_mul]
      omega
    · rw [Nat.add_mul]
      rcases Nat.mod_two_eq_zero_or_one (num / den) with h | h
      · rw [h]; omega
      · rw [h]; omega

theorem roundHalfEven_bounds (num : Nat) {den : Nat} (hd : 0 < den) :
    (roundHalfEven num den : ℚ) ≤ num / den + 1 / 2 ∧
      (num / den : ℚ) ≤ roundHalfEven num den + 1 / 2 := by
  have hd' : (0 : ℚ) < den := by exact_mod_cast hd
  obtain ⟨h₁, h₂, -⟩ := roundHalfEven_spec num hd
  have h₁' : 2 * ((roundHalfEven num den : ℚ) * den) ≤ 2 * num + den := by exact_mod_cast h₁
  have h₂' : 2 * (num : ℚ) ≤ 2 * ((roundHalfEven num den : ℚ) * den) + den := by
    exact_mod_cast h₂
  constructor
  · rw [← sub_le_iff_le_add, le_div_iff₀ hd']
    linarith
  · rw [div_le_iff₀ hd']
    linarith

/-- A fraction one half above the integer it is rounded to, or below it, has an even one. -/
theorem roundHalfEven_tie (num : Nat) {den : Nat} (hd : 0 < den)
    (h : (roundHalfEven num den : ℚ) = num / den + 1 / 2 ∨
      (num / den : ℚ) = roundHalfEven num den + 1 / 2) :
    roundHalfEven num den % 2 = 0 := by
  have hd' : (den : ℚ) ≠ 0 := by exact_mod_cast Nat.ne_of_gt hd
  refine (roundHalfEven_spec num hd).2.2 ?_
  rcases h with h | h
  · left
    field_simp at h
    have h' : 2 * ((roundHalfEven num den : ℚ) * den) = 2 * num + den := by linarith
    exact_mod_cast h'
  · right
    field_simp at h
    have h' : 2 * (num : ℚ) = 2 * ((roundHalfEven num den : ℚ) * den) + den := by linarith
    exact_mod_cast h'

theorem roundHalfEven_mono {num den num' den' : Nat} (hd : 0 < den) (hd' : 0 < den')
    (h : (num / den : ℚ) ≤ num' / den') : roundHalfEven num den ≤ roundHalfEven num' den' := by
  by_contra hlt
  have hstep : roundHalfEven num' den' + 1 ≤ roundHalfEven num den := by omega
  have hstep' : (roundHalfEven num' den' : ℚ) + 1 ≤ roundHalfEven num den := by
    exact_mod_cast hstep
  have h₁ := (roundHalfEven_bounds num hd).1
  have h₂ := (roundHalfEven_bounds num' hd').2
  -- Both fractions lie half way between two neighbouring integers, which cannot both be even.
  have e₁ := roundHalfEven_tie num hd (Or.inl (by linarith))
  have e₂ := roundHalfEven_tie num' hd' (Or.inr (by linarith))
  have hnext : (roundHalfEven num den : ℚ) = roundHalfEven num' den' + 1 := by linarith
  have hnext' : roundHalfEven num den = roundHalfEven num' den' + 1 := by exact_mod_cast hnext
  omega

theorem roundHalfEven_mul (n : Nat) {den : Nat} (hd : 0 < den) :
    roundHalfEven (n * den) den = n := by
  have hdiv : n * den / den = n := Nat.mul_div_cancel n hd
  have hmod : n * den % den = 0 := Nat.mul_mod_left n den
  simp only [roundHalfEven, hdiv, hmod]
  rw [if_pos (by omega)]

/-! ## Scaling and the logarithm -/

theorem scaleDown_pos (num : Nat) {den : Nat} (hd : 0 < den) :
    ∀ e : Int, 0 < (scaleDown num den e).2
  | .ofNat _ => Nat.mul_pos hd (Nat.two_pow_pos _)
  | .negSucc _ => hd

theorem scaleDown_eq (num den : Nat) : ∀ e : Int,
    ((scaleDown num den e).1 / (scaleDown num den e).2 : ℚ) = num / den / 2 ^ e
  | .ofNat e => by
      simp only [scaleDown, Nat.cast_mul, Nat.cast_pow, Nat.cast_ofNat, Int.ofNat_eq_natCast,
        zpow_natCast]
      rw [div_div]
  | .negSucc e => by
      simp only [scaleDown, Nat.cast_mul, Nat.cast_pow, Nat.cast_ofNat, zpow_negSucc, div_inv_eq_mul]
      rw [div_mul_eq_mul_div]

theorem log2_bounds {n : Nat} (h : n ≠ 0) :
    (2 : ℚ) ^ (n.log2 : Int) ≤ n ∧ (n : ℚ) < 2 ^ ((n.log2 : Int) + 1) := by
  constructor
  · rw [zpow_natCast]
    exact_mod_cast Nat.log2_self_le h
  · rw [← Nat.cast_one, ← Nat.cast_add, zpow_natCast]
    exact_mod_cast Nat.lt_log2_self

theorem log2Quotient_bounds {num den : Nat} (hn : num ≠ 0) (hd : den ≠ 0) :
    (2 : ℚ) ^ log2Quotient num den ≤ num / den ∧
      (num / den : ℚ) < 2 ^ (log2Quotient num den + 1) := by
  obtain ⟨n₁, n₂⟩ := log2_bounds hn
  obtain ⟨d₁, d₂⟩ := log2_bounds hd
  have hd₀ : (0 : ℚ) < den := by exact_mod_cast Nat.pos_of_ne_zero hd
  set g : Int := (num.log2 : Int) - den.log2 with hg
  have hpos : ∀ e : Int, (0 : ℚ) < 2 ^ e := fun e => zpow_pos (by norm_num) e
  -- The difference of the logarithms is right, or one too large.
  have hlow : (2 : ℚ) ^ (g - 1) ≤ num / den := by
    rw [le_div_iff₀ hd₀]
    calc (2 : ℚ) ^ (g - 1) * den ≤ 2 ^ (g - 1) * 2 ^ ((den.log2 : Int) + 1) :=
          mul_le_mul_of_nonneg_left d₂.le (hpos _).le
      _ = 2 ^ (num.log2 : Int) := by rw [← zpow_add₀ (by norm_num)]; congr 1; omega
      _ ≤ num := n₁
  have hhigh : (num / den : ℚ) < 2 ^ (g + 1) := by
    rw [div_lt_iff₀ hd₀]
    calc (num : ℚ) < 2 ^ ((num.log2 : Int) + 1) := n₂
      _ = 2 ^ (g + 1) * 2 ^ (den.log2 : Int) := by
          rw [← zpow_add₀ (by norm_num)]; congr 1; omega
      _ ≤ 2 ^ (g + 1) * den := mul_le_mul_of_nonneg_left d₁ (hpos _).le
  have hscale : (scaleDown num den g).2 ≤ (scaleDown num den g).1 ↔
      (2 : ℚ) ^ g ≤ num / den := by
    have hp : (0 : ℚ) < (scaleDown num den g).2 := by
      exact_mod_cast scaleDown_pos num (Nat.pos_of_ne_zero hd) g
    rw [← one_le_div (hpos g), ← scaleDown_eq, one_le_div hp, Nat.cast_le]
  unfold log2Quotient
  simp only [← hg]
  split
  · exact ⟨hscale.mp ‹_›, hhigh⟩
  · rw [Int.sub_add_cancel]
    exact ⟨hlow, not_le.mp fun h => ‹¬ _› (hscale.mpr h)⟩

theorem log2Quotient_mono {num den num' den' : Nat} (hn : num ≠ 0) (hd : den ≠ 0)
    (hn' : num' ≠ 0) (hd' : den' ≠ 0) (h : (num / den : ℚ) ≤ num' / den') :
    log2Quotient num den ≤ log2Quotient num' den' := by
  have h₁ := (log2Quotient_bounds hn hd).1
  have h₂ := (log2Quotient_bounds hn' hd').2
  have hlt : (2 : ℚ) ^ log2Quotient num den < 2 ^ (log2Quotient num' den' + 1) :=
    lt_of_le_of_lt (h₁.trans h) h₂
  have := (zpow_lt_zpow_iff_right₀ (by norm_num : (1 : ℚ) < 2)).mp hlt
  omega

namespace Format

variable (f : Format)

/-! ## The number of a pattern

Where rounding ends at infinity, nothing is said of how far away the number was.  So the patterns
are let go on (`unbounded`), rounding is studied without an end, and `nearest` is the lesser of that
and infinity. -/

/-- The number a pattern stands for; patterns from that of infinity on go on like finite ones. -/
def value (bits : Nat) : ℚ := f.mantissa bits * 2 ^ f.exponent bits

theorem two_zpow_pos (e : Int) : (0 : ℚ) < 2 ^ e := zpow_pos (by norm_num) e

theorem pattern_eq (bits : Nat) :
    (bits / 2 ^ f.fractionBits - 1) * 2 ^ f.fractionBits + f.mantissa bits = bits := by
  have hdiv := Nat.div_add_mod' bits (2 ^ f.fractionBits)
  unfold mantissa
  split
  · rw [Nat.div_eq_of_lt ‹_›]
    omega
  · have hpos : 0 < bits / 2 ^ f.fractionBits :=
      Nat.div_pos (by omega) (Nat.two_pow_pos _)
    rw [Nat.sub_mul]
    have : 2 ^ f.fractionBits ≤ bits / 2 ^ f.fractionBits * 2 ^ f.fractionBits :=
      Nat.le_mul_of_pos_left _ hpos
    omega

/-- The mantissa fits, and only the numbers of the least exponent lack the hidden bit. -/
theorem mantissa_bounds (bits : Nat) :
    f.mantissa bits < 2 ^ (f.fractionBits + 1) ∧
      (bits / 2 ^ f.fractionBits - 1 = 0 ∨ 2 ^ f.fractionBits ≤ f.mantissa bits) := by
  have hmod := Nat.mod_lt bits (Nat.two_pow_pos f.fractionBits)
  unfold mantissa
  rw [Nat.pow_succ]
  split
  · exact ⟨by omega, Or.inl (by rw [Nat.div_eq_of_lt ‹_›])⟩
  · exact ⟨by omega, Or.inr (by omega)⟩

/-- A mantissa above an exponent is the pattern of their number, also when it has been rounded up
to the next power of two. -/
theorem value_pattern {e m : Nat} (hm : m ≤ 2 ^ (f.fractionBits + 1))
    (hn : e = 0 ∨ 2 ^ f.fractionBits ≤ m) :
    f.value (e * 2 ^ f.fractionBits + m) = m * 2 ^ (f.minExponent + e) := by
  have hp := Nat.two_pow_pos f.fractionBits
  rw [Nat.pow_succ] at hm
  rcases Nat.lt_or_ge m (2 ^ f.fractionBits) with hlt | hge
  · obtain rfl : e = 0 := hn.resolve_right (by omega)
    simp [value, mantissa, exponent, hlt, Nat.div_eq_of_lt hlt]
  · obtain ⟨r, rfl⟩ := Nat.exists_eq_add_of_le hge
    have hsplit : e * 2 ^ f.fractionBits + (2 ^ f.fractionBits + r) =
        r + 2 ^ f.fractionBits * (e + 1) := by ring
    have hbig : ¬ r + 2 ^ f.fractionBits * (e + 1) < 2 ^ f.fractionBits := by
      rw [Nat.mul_succ]; omega
    rw [hsplit]
    rcases Nat.lt_or_ge r (2 ^ f.fractionBits) with hr | hr
    · simp only [value, mantissa, exponent, if_neg hbig, Nat.add_mul_mod_self_left,
        Nat.mod_eq_of_lt hr, Nat.add_mul_div_left _ _ hp, Nat.div_eq_of_lt hr]
      congr 2
      omega
    · obtain rfl : r = 2 ^ f.fractionBits := by omega
      simp only [value, mantissa, exponent, if_neg hbig, Nat.add_mul_mod_self_left, Nat.mod_self,
        Nat.add_mul_div_left _ _ hp, Nat.div_self hp, Nat.add_zero]
      rw [show ((1 + (e + 1) - 1 : Nat) : Int) = e + 1 by omega, ← add_assoc,
        zpow_add_one₀ (by norm_num)]
      push_cast
      ring

theorem value_zero : f.value 0 = 0 := by
  simp [value, mantissa]

theorem quotient_eq (bits : Nat) :
    ((f.quotient bits).1 / (f.quotient bits).2 : ℚ) = f.value bits := by
  unfold quotient value
  split
  · rename_i e h
    rw [h]
    simp
  · rename_i e h
    rw [h, zpow_negSucc]
    push_cast
    rw [div_eq_mul_inv]

theorem quotient_pos (bits : Nat) : 0 < (f.quotient bits).2 := by
  unfold quotient
  split
  · exact Nat.one_pos
  · exact Nat.two_pow_pos _

/-- Rounding for a format that has no infinity. -/
def unbounded (num den : Nat) : Nat :=
  if num = 0 then 0
  else
    (f.unitExponent num den - f.minExponent).toNat * 2 ^ f.fractionBits +
      roundHalfEven (scaleDown num den (f.unitExponent num den)).1
        (scaleDown num den (f.unitExponent num den)).2

theorem nearest_eq_min (num den : Nat) : f.nearest num den = min (f.unbounded num den) f.infinity := by
  unfold nearest unbounded
  split
  · rw [Nat.zero_min]
  · rfl

theorem nearest_eq_unbounded {num den : Nat} (h : f.nearest num den < f.infinity) :
    f.nearest num den = f.unbounded num den := by
  have := f.nearest_eq_min num den
  omega

theorem exists_quotient (n : Nat) (e : Int) :
    ∃ num den : Nat, den ≠ 0 ∧ (num / den : ℚ) = n * 2 ^ e := by
  cases e with
  | ofNat k => exact ⟨n * 2 ^ k, 1, Nat.one_ne_zero, by simp⟩
  | negSucc k =>
      refine ⟨n, 2 ^ (k + 1), (Nat.two_pow_pos _).ne', ?_⟩
      rw [zpow_negSucc, ← div_eq_mul_inv]
      push_cast
      rfl

/-! ## The unit in the last place

In its unit, a number has as many bits before the point as a mantissa, or fewer at the least
exponent.  Rounding to an integer can bring it to the next power of two, which does not fit, but is
the number of the next pattern all the same. -/

section Unit

variable {num den : Nat}

theorem minExponent_le_unitExponent (num den : Nat) :
    f.minExponent ≤ f.unitExponent num den := le_max_left _ _

/-- In its unit, a number has no more bits before the point than a mantissa. -/
theorem div_unit_lt (hn : num ≠ 0) (hd : den ≠ 0) :
    (num / den / 2 ^ f.unitExponent num den : ℚ) < (2 ^ (f.fractionBits + 1) : Nat) := by
  have hu : log2Quotient num den - f.fractionBits ≤ f.unitExponent num den := le_max_right _ _
  rw [div_lt_iff₀ (two_zpow_pos _), Nat.cast_pow, Nat.cast_ofNat, ← zpow_natCast,
    ← zpow_add₀ (by norm_num)]
  refine (log2Quotient_bounds hn hd).2.trans_le (zpow_le_zpow_right₀ (by norm_num) ?_)
  push_cast
  omega

/-- In its unit, a number has as many bits before the point as a mantissa, unless the unit is the
least one. -/
theorem le_div_unit (hn : num ≠ 0) (hd : den ≠ 0) :
    f.unitExponent num den = f.minExponent ∨
      ((2 ^ f.fractionBits : Nat) : ℚ) ≤ num / den / 2 ^ f.unitExponent num den := by
  rcases Int.le_total (log2Quotient num den - f.fractionBits) f.minExponent with h | h
  · exact Or.inl (max_eq_left h)
  · right
    have hu : f.unitExponent num den = log2Quotient num den - f.fractionBits := max_eq_right h
    rw [le_div_iff₀ (two_zpow_pos _), Nat.cast_pow, Nat.cast_ofNat, ← zpow_natCast,
      ← zpow_add₀ (by norm_num), hu]
    refine le_trans (zpow_le_zpow_right₀ (by norm_num) ?_) (log2Quotient_bounds hn hd).1
    omega

def roundedMantissa (num den : Nat) : Nat :=
  roundHalfEven (scaleDown num den (f.unitExponent num den)).1
    (scaleDown num den (f.unitExponent num den)).2

theorem roundedMantissa_bounds (num : Nat) (hd : den ≠ 0) :
    (f.roundedMantissa num den : ℚ) ≤ num / den / 2 ^ f.unitExponent num den + 1 / 2 ∧
      (num / den / 2 ^ f.unitExponent num den : ℚ) ≤ f.roundedMantissa num den + 1 / 2 := by
  rw [← scaleDown_eq]
  exact roundHalfEven_bounds _ (scaleDown_pos num (Nat.pos_of_ne_zero hd) _)

theorem roundedMantissa_le {n : Nat} (hd : den ≠ 0)
    (h : (num / den / 2 ^ f.unitExponent num den : ℚ) ≤ n) : f.roundedMantissa num den ≤ n := by
  have hratio : ((scaleDown num den (f.unitExponent num den)).1 /
      (scaleDown num den (f.unitExponent num den)).2 : ℚ) ≤ (n * 1 : Nat) / (1 : Nat) := by
    rw [scaleDown_eq]
    simpa using h
  have hle := roundHalfEven_mono
    (scaleDown_pos num (Nat.pos_of_ne_zero hd) (f.unitExponent num den)) Nat.one_pos hratio
  rwa [roundHalfEven_mul n Nat.one_pos] at hle

theorem le_roundedMantissa {n : Nat} (hd : den ≠ 0)
    (h : (n : ℚ) ≤ num / den / 2 ^ f.unitExponent num den) : n ≤ f.roundedMantissa num den := by
  have hratio : ((n * 1 : Nat) / (1 : Nat) : ℚ) ≤ (scaleDown num den (f.unitExponent num den)).1 /
      (scaleDown num den (f.unitExponent num den)).2 := by
    rw [scaleDown_eq]
    simpa using h
  have hle := roundHalfEven_mono Nat.one_pos
    (scaleDown_pos num (Nat.pos_of_ne_zero hd) (f.unitExponent num den)) hratio
  rwa [roundHalfEven_mul n Nat.one_pos] at hle

theorem unbounded_of_ne_zero (hn : num ≠ 0) :
    f.unbounded num den =
      (f.unitExponent num den - f.minExponent).toNat * 2 ^ f.fractionBits +
        f.roundedMantissa num den := by
  rw [unbounded, if_neg hn, roundedMantissa]

theorem roundedMantissa_fits (hn : num ≠ 0) (hd : den ≠ 0) :
    f.roundedMantissa num den ≤ 2 ^ (f.fractionBits + 1) :=
  f.roundedMantissa_le hd (f.div_unit_lt hn hd).le

theorem roundedMantissa_normal (hn : num ≠ 0) (hd : den ≠ 0) :
    (f.unitExponent num den - f.minExponent).toNat = 0 ∨
      2 ^ f.fractionBits ≤ f.roundedMantissa num den := by
  rcases f.le_div_unit hn hd with h | h
  · exact Or.inl (by omega)
  · exact Or.inr (f.le_roundedMantissa hd h)

theorem value_unbounded (hn : num ≠ 0) (hd : den ≠ 0) :
    f.value (f.unbounded num den) =
      f.roundedMantissa num den * 2 ^ f.unitExponent num den := by
  have hu := f.minExponent_le_unitExponent num den
  rw [f.unbounded_of_ne_zero hn,
    f.value_pattern (f.roundedMantissa_fits hn hd) (f.roundedMantissa_normal hn hd)]
  congr 2
  omega

theorem unbounded_error (hn : num ≠ 0) (hd : den ≠ 0) :
    |f.value (f.unbounded num den) - num / den| ≤ 2 ^ f.unitExponent num den / 2 := by
  have hp := two_zpow_pos (f.unitExponent num den)
  obtain ⟨h₁, h₂⟩ := f.roundedMantissa_bounds num hd
  rw [← sub_le_iff_le_add, le_div_iff₀ hp] at h₁
  rw [div_le_iff₀ hp] at h₂
  rw [f.value_unbounded hn hd, abs_le]
  constructor <;> linarith

theorem unbounded_relative_error (hd : den ≠ 0)
    (h : (2 : ℚ) ^ (f.minExponent + f.fractionBits) ≤ num / den) :
    |f.value (f.unbounded num den) - num / den| ≤ num / den / 2 ^ (f.fractionBits + 1) := by
  have hn : num ≠ 0 := by
    rintro rfl
    have := two_zpow_pos (f.minExponent + f.fractionBits)
    simp only [Nat.cast_zero, zero_div] at h
    linarith
  refine (f.unbounded_error hn hd).trans ?_
  have hone : ((2 ^ f.fractionBits : Nat) : ℚ) ≤ num / den / 2 ^ f.unitExponent num den := by
    rcases f.le_div_unit hn hd with hu | hu
    · rw [hu, le_div_iff₀ (two_zpow_pos _), Nat.cast_pow, Nat.cast_ofNat, ← zpow_natCast,
        ← zpow_add₀ (by norm_num), add_comm]
      exact h
    · exact hu
  rw [le_div_iff₀ (two_zpow_pos _), Nat.cast_pow, Nat.cast_ofNat] at hone
  rw [le_div_iff₀ (by positivity), pow_succ]
  linarith

end Unit

/-! ## Order and exactness

Patterns are in the order of their numbers, and a number of few bits has a pattern.  Together these
give every bound on a rounded number: compare with a number that has a pattern, and rounding keeps
to its side. -/

theorem unbounded_zero (den : Nat) : f.unbounded 0 den = 0 := if_pos rfl

theorem unbounded_mono {num den num' den' : Nat} (hd : den ≠ 0) (hd' : den' ≠ 0)
    (h : (num / den : ℚ) ≤ num' / den') : f.unbounded num den ≤ f.unbounded num' den' := by
  rcases Nat.eq_zero_or_pos num with rfl | hpos
  · rw [unbounded_zero]; exact Nat.zero_le _
  have hn : num ≠ 0 := Nat.ne_of_gt hpos
  have hn' : num' ≠ 0 := by
    rintro rfl
    have : (0 : ℚ) < num / den := by
      have hd₀ : 0 < den := Nat.pos_of_ne_zero hd
      positivity
    simp only [Nat.cast_zero, zero_div] at h
    linarith
  have hlog := log2Quotient_mono hn hd hn' hd' h
  have hu : f.unitExponent num den ≤ f.unitExponent num' den' := by
    unfold unitExponent
    omega
  have hmin := f.minExponent_le_unitExponent num den
  rw [f.unbounded_of_ne_zero hn, f.unbounded_of_ne_zero hn']
  rcases hu.lt_or_eq with hlt | heq
  · -- A larger unit puts the exponent field up, by more than a mantissa can make good.
    obtain ⟨k, hk⟩ : ∃ k : Nat, (f.unitExponent num' den' - f.minExponent).toNat =
        (f.unitExponent num den - f.minExponent).toNat + (k + 1) :=
      ⟨(f.unitExponent num' den' - f.unitExponent num den).toNat - 1, by omega⟩
    have hfit := f.roundedMantissa_fits hn hd
    have hbig : 2 ^ f.fractionBits ≤ f.roundedMantissa num' den' :=
      (f.roundedMantissa_normal hn' hd').resolve_left (by omega)
    rw [hk, Nat.add_mul, Nat.succ_mul]
    rw [Nat.pow_succ] at hfit
    omega
  · refine Nat.add_le_add (by rw [heq]) (roundHalfEven_mono
      (scaleDown_pos num (Nat.pos_of_ne_zero hd) _) (scaleDown_pos num' (Nat.pos_of_ne_zero hd') _) ?_)
    rw [scaleDown_eq, scaleDown_eq, heq]
    exact div_le_div_of_nonneg_right h (two_zpow_pos _).le

theorem mantissa_ne_zero {bits : Nat} (h : bits ≠ 0) : f.mantissa bits ≠ 0 := by
  have := Nat.two_pow_pos f.fractionBits
  unfold mantissa
  split <;> omega

theorem quotient_ne_zero {bits : Nat} (h : bits ≠ 0) : (f.quotient bits).1 ≠ 0 := by
  have hm := f.mantissa_ne_zero h
  unfold quotient
  split
  · exact Nat.mul_ne_zero hm (Nat.ne_of_gt (Nat.two_pow_pos _))
  · exact hm

theorem unitExponent_quotient {bits : Nat} (h : bits ≠ 0) :
    f.unitExponent (f.quotient bits).1 (f.quotient bits).2 = f.exponent bits := by
  obtain ⟨hfit, hnormal⟩ := f.mantissa_bounds bits
  obtain ⟨l₁, l₂⟩ := log2Quotient_bounds (f.quotient_ne_zero h)
    (Nat.ne_of_gt (f.quotient_pos bits))
  rw [quotient_eq, value] at l₁ l₂
  have hone : (1 : ℚ) < 2 := by norm_num
  have hupper : log2Quotient (f.quotient bits).1 (f.quotient bits).2 - f.fractionBits ≤
      f.exponent bits := by
    have hlt : (2 : ℚ) ^ log2Quotient (f.quotient bits).1 (f.quotient bits).2 <
        2 ^ ((f.fractionBits : Int) + 1 + f.exponent bits) := by
      refine l₁.trans_lt ?_
      rw [zpow_add₀ (by norm_num)]
      refine mul_lt_mul_of_pos_right ?_ (two_zpow_pos _)
      rw [← Nat.cast_one, ← Nat.cast_add, zpow_natCast]
      exact_mod_cast hfit
    have := (zpow_lt_zpow_iff_right₀ hone).mp hlt
    omega
  unfold unitExponent
  rcases hnormal with hleast | hbig
  · have he : f.exponent bits = f.minExponent := by simp [exponent, hleast]
    omega
  · have hlt : (2 : ℚ) ^ ((f.fractionBits : Int) + f.exponent bits) <
        2 ^ (log2Quotient (f.quotient bits).1 (f.quotient bits).2 + 1) := by
      refine lt_of_le_of_lt ?_ l₂
      rw [zpow_add₀ (by norm_num)]
      refine mul_le_mul_of_nonneg_right ?_ (two_zpow_pos _).le
      rw [zpow_natCast]
      exact_mod_cast hbig
    have := (zpow_lt_zpow_iff_right₀ hone).mp hlt
    have : f.minExponent ≤ f.exponent bits := by unfold exponent; omega
    omega

theorem unbounded_quotient (bits : Nat) :
    f.unbounded (f.quotient bits).1 (f.quotient bits).2 = bits := by
  rcases Nat.eq_zero_or_pos bits with rfl | hpos
  · have hq : (f.quotient 0).1 = 0 := by
      unfold quotient
      split <;> simp [mantissa]
    rw [hq, unbounded_zero]
  have h : bits ≠ 0 := Nat.ne_of_gt hpos
  have hd := Nat.ne_of_gt (f.quotient_pos bits)
  have hscaled : ((f.quotient bits).1 / (f.quotient bits).2 /
      2 ^ f.unitExponent (f.quotient bits).1 (f.quotient bits).2 : ℚ) = f.mantissa bits := by
    rw [quotient_eq, unitExponent_quotient f h, value,
      mul_div_cancel_right₀ _ (two_zpow_pos _).ne']
  have hm : f.roundedMantissa (f.quotient bits).1 (f.quotient bits).2 = f.mantissa bits :=
    Nat.le_antisymm (f.roundedMantissa_le hd hscaled.le) (f.le_roundedMantissa hd hscaled.ge)
  rw [f.unbounded_of_ne_zero (f.quotient_ne_zero h), hm, unitExponent_quotient f h]
  have hoffset : (f.exponent bits - f.minExponent).toNat = bits / 2 ^ f.fractionBits - 1 := by
    unfold exponent
    omega
  rw [hoffset, pattern_eq]

theorem value_le_value {a b : Nat} : f.value a ≤ f.value b ↔ a ≤ b := by
  have hle : ∀ {a b : Nat}, f.value a ≤ f.value b → a ≤ b := by
    intro a b h
    rw [← quotient_eq, ← quotient_eq] at h
    have := f.unbounded_mono (Nat.ne_of_gt (f.quotient_pos a)) (Nat.ne_of_gt (f.quotient_pos b)) h
    rwa [unbounded_quotient, unbounded_quotient] at this
  refine ⟨hle, fun h => ?_⟩
  rcases le_total (f.value a) (f.value b) with h' | h'
  · exact h'
  · rw [Nat.le_antisymm h (hle h')]

theorem value_lt_value {a b : Nat} : f.value a < f.value b ↔ a < b := by
  rw [← not_le, value_le_value, Nat.not_le]

theorem value_nonneg (bits : Nat) : 0 ≤ f.value bits := by
  rw [← f.value_zero, value_le_value]
  exact Nat.zero_le bits

theorem unbounded_eq_of_value {num den bits : Nat} (hd : den ≠ 0)
    (h : (num / den : ℚ) = f.value bits) : f.unbounded num den = bits := by
  have hd' := Nat.ne_of_gt (f.quotient_pos bits)
  rw [← quotient_eq] at h
  rw [← f.unbounded_quotient bits]
  exact Nat.le_antisymm (f.unbounded_mono hd hd' h.le) (f.unbounded_mono hd' hd h.ge)

theorem nearest_mono {num den num' den' : Nat} (hd : den ≠ 0) (hd' : den' ≠ 0)
    (h : (num / den : ℚ) ≤ num' / den') : f.nearest num den ≤ f.nearest num' den' := by
  rw [nearest_eq_min, nearest_eq_min]
  have := f.unbounded_mono hd hd' h
  omega

theorem nearest_congr {num den num' den' : Nat} (hd : den ≠ 0) (hd' : den' ≠ 0)
    (h : (num / den : ℚ) = num' / den') : f.nearest num den = f.nearest num' den' :=
  Nat.le_antisymm (f.nearest_mono hd hd' h.le) (f.nearest_mono hd' hd h.ge)

theorem nearest_eq_of_value {num den bits : Nat} (hd : den ≠ 0) (hb : bits ≤ f.infinity)
    (h : (num / den : ℚ) = f.value bits) : f.nearest num den = bits := by
  rw [nearest_eq_min, f.unbounded_eq_of_value hd h, Nat.min_eq_left hb]

theorem nearest_le {num den bits : Nat} (hd : den ≠ 0) (hb : bits ≤ f.infinity)
    (h : (num / den : ℚ) ≤ f.value bits) : f.nearest num den ≤ bits := by
  rw [← quotient_eq] at h
  have := f.nearest_mono hd (Nat.ne_of_gt (f.quotient_pos bits)) h
  rwa [f.nearest_eq_of_value (Nat.ne_of_gt (f.quotient_pos bits)) hb (f.quotient_eq bits)] at this

theorem le_nearest {num den bits : Nat} (hd : den ≠ 0) (hb : bits ≤ f.infinity)
    (h : f.value bits ≤ (num / den : ℚ)) : bits ≤ f.nearest num den := by
  rw [← quotient_eq] at h
  have := f.nearest_mono (Nat.ne_of_gt (f.quotient_pos bits)) hd h
  rwa [f.nearest_eq_of_value (Nat.ne_of_gt (f.quotient_pos bits)) hb (f.quotient_eq bits)] at this

theorem value_unbounded_scaled {num den n : Nat} {e : Int} (hd : den ≠ 0)
    (hn : n < 2 ^ (f.fractionBits + 1)) (he : f.minExponent ≤ e)
    (h : (num / den : ℚ) = n * 2 ^ e) : f.value (f.unbounded num den) = n * 2 ^ e := by
  rcases Nat.eq_zero_or_pos num with rfl | hpos
  · rw [unbounded_zero, value_zero, ← h, Nat.cast_zero, zero_div]
  have hnum := Nat.ne_of_gt hpos
  obtain ⟨hlog, -⟩ := log2Quotient_bounds hnum hd
  have hbound : (n : ℚ) * 2 ^ e < 2 ^ ((f.fractionBits : Int) + 1 + e) := by
    rw [zpow_add₀ (by norm_num)]
    refine mul_lt_mul_of_pos_right ?_ (two_zpow_pos e)
    rw [← Nat.cast_one, ← Nat.cast_add, zpow_natCast]
    exact_mod_cast hn
  rw [h] at hlog
  have hlt := (zpow_lt_zpow_iff_right₀ (by norm_num : (1 : ℚ) < 2)).mp (hlog.trans_lt hbound)
  have hunit : f.unitExponent num den ≤ e := by
    unfold unitExponent
    omega
  -- In its own unit, which may be smaller, the number is an integer still.
  obtain ⟨k, hk⟩ : ∃ k : Nat, e = f.unitExponent num den + k :=
    ⟨(e - f.unitExponent num den).toNat, by omega⟩
  have hscaled : (num / den / 2 ^ f.unitExponent num den : ℚ) = (n * 2 ^ k : Nat) := by
    have hp := (two_zpow_pos (f.unitExponent num den)).ne'
    rw [h, hk, zpow_add₀ (by norm_num), zpow_natCast, div_eq_iff hp]
    push_cast
    ring
  have hm : f.roundedMantissa num den = n * 2 ^ k :=
    Nat.le_antisymm (f.roundedMantissa_le hd hscaled.le) (f.le_roundedMantissa hd hscaled.ge)
  rw [f.value_unbounded hnum hd, hm, ← hscaled, div_mul_cancel₀ _ (two_zpow_pos _).ne', h]

theorem value_unbounded_natCast {n : Nat} (h : n < 2 ^ (f.fractionBits + 1))
    (hf : f.minExponent ≤ 0) : f.value (f.unbounded n 1) = n := by
  have hunits : ((n : ℕ) / (1 : ℕ) : ℚ) = n * 2 ^ (0 : Int) := by
    rw [Nat.cast_one, div_one, zpow_zero, mul_one]
  rw [f.value_unbounded_scaled Nat.one_ne_zero h hf hunits, zpow_zero, mul_one]

/-- Above the least normal number the error of rounding to a finite number is at most half a unit
relative to the number. -/
theorem nearest_relative_error {num den : Nat} (hd : den ≠ 0)
    (h : (2 : ℚ) ^ (f.minExponent + f.fractionBits) ≤ num / den)
    (hfinite : f.nearest num den < f.infinity) :
    |f.value (f.nearest num den) - num / den| ≤ num / den / 2 ^ (f.fractionBits + 1) := by
  rw [f.nearest_eq_unbounded hfinite]
  exact f.unbounded_relative_error hd h

theorem value_nearest_le_scaled {num den n : Nat} {e : Int} (hd : den ≠ 0)
    (hn : n < 2 ^ (f.fractionBits + 1)) (he : f.minExponent ≤ e)
    (h : (num / den : ℚ) ≤ n * 2 ^ e) : f.value (f.nearest num den) ≤ n * 2 ^ e := by
  obtain ⟨num', den', hd', hq⟩ := exists_quotient n e
  have hle : f.nearest num den ≤ f.unbounded num' den' := by
    rw [nearest_eq_min]
    exact (Nat.min_le_left _ _).trans (f.unbounded_mono hd hd' (by rwa [hq]))
  rw [← f.value_unbounded_scaled hd' hn he hq]
  exact f.value_le_value.mpr hle

theorem scaled_le_value_nearest {num den n : Nat} {e : Int} (hd : den ≠ 0)
    (hn : n < 2 ^ (f.fractionBits + 1)) (he : f.minExponent ≤ e)
    (hfinite : f.nearest num den < f.infinity)
    (h : (n * 2 ^ e : ℚ) ≤ num / den) : (n * 2 ^ e : ℚ) ≤ f.value (f.nearest num den) := by
  obtain ⟨num', den', hd', hq⟩ := exists_quotient n e
  have hle : f.unbounded num' den' ≤ f.nearest num den := by
    rw [f.nearest_eq_unbounded hfinite]
    exact f.unbounded_mono hd' hd (by rwa [hq])
  rw [← f.value_unbounded_scaled hd' hn he hq]
  exact f.value_le_value.mpr hle

theorem nearest_le_infinity (num den : Nat) : f.nearest num den ≤ f.infinity := by
  rw [nearest_eq_min]
  exact Nat.min_le_right _ _

end Format

end FilterReference.Binary
