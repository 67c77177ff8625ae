/-
# The sine and cosine of a library

What a mathematical library promises of its sine and cosine: results that are finite, and off by no
more than a unit in the last place.  `Accurate` asks for a little less, the unit of one for a cosine
and that of the argument for a sine; the second makes the sine of a tiny angle that angle.

The true functions, rounded, are such a library (`accurate_rounded`).
-/
import FilterReference.Proofs.Binary.Closeness
import FilterReference.Signal.Lowpass
import Mathlib

namespace FilterReference

open Binary

/-- A sine and a cosine that are finite, and near to the true ones. -/
structure Accurate [Trigonometry] : Prop where
  sin : ∀ t, isFinite t = true →
    Close (Trigonometry.sin t) (Real.sin (number t)) (|(number t : ℝ)| / 2 ^ 52)
  cos : ∀ t, isFinite t = true → Close (Trigonometry.cos t) (Real.cos (number t)) (1 / 2 ^ 52)

theorem Accurate.cos_close [Trigonometry] (h : Accurate) {x : Float} {r δ : ℝ} (hx : Close x r δ) :
    Close (Trigonometry.cos x) (Real.cos r) (1 / 2 ^ 52 + δ) := by
  obtain ⟨hfinite, herror⟩ := h.cos x hx.finite
  refine ⟨hfinite, ?_⟩
  have htriangle := abs_sub_le (number (Trigonometry.cos x) : ℝ) (Real.cos (number x)) (Real.cos r)
  have hmoved := Real.abs_cos_sub_cos_le (number x) r
  exact htriangle.trans (add_le_add herror (hmoved.trans hx.error))

/-! ## Rounding the true functions

What is rounded is a quotient of integers, so a real number is cut off at 90 binary places first.
That would leave nothing of a tiny sine, which is taken as the angle instead: a double cannot say
more of it. -/

/-- A real number, cut to ninety binary digits and rounded. -/
noncomputable def ofReal (r : ℝ) : Float := ofQuotient (decide (r < 0)) ⌊|r| * (2 ^ 90 : Nat)⌋₊ (2 ^ 90)

theorem exists_nearest_ofReal (r : ℝ) :
    ∃ q : ℚ, Nearest (ofReal r) q ∧ |(q : ℝ) - r| ≤ 1 / 2 ^ 90 := by
  have hfloor := Nat.floor_le (by positivity : 0 ≤ |r| * 2 ^ 90)
  have hceil := Nat.lt_floor_add_one (|r| * 2 ^ 90)
  rw [ofReal, Nat.cast_pow, Nat.cast_ofNat]
  generalize ⌊|r| * 2 ^ 90⌋₊ = digits at hfloor hceil ⊢
  have hcut : |(digits / 2 ^ 90 - |r| : ℝ)| ≤ 1 / 2 ^ 90 := by
    rw [abs_le]
    constructor <;> linarith
  have hdigits : (0 : ℚ) ≤ digits / 2 ^ 90 := by positivity
  rcases lt_or_ge r 0 with hneg | hnonneg
  · refine ⟨-(digits / 2 ^ 90), nearest_ofQuotient (by norm_num) ?_ fun hne => ?_, ?_⟩
    · rw [abs_neg, abs_of_nonneg hdigits, Nat.cast_pow, Nat.cast_ofNat]
    · have : -((digits : ℚ) / 2 ^ 90) < 0 := lt_of_le_of_ne (neg_nonpos.mpr hdigits) hne
      rw [decide_eq_true hneg, decide_eq_true this]
    · rw [abs_of_neg hneg] at hcut
      rw [← abs_neg]
      convert hcut using 2
      push_cast
      ring
  · refine ⟨digits / 2 ^ 90, nearest_ofQuotient (by norm_num) ?_ fun _ => ?_, ?_⟩
    · rw [abs_of_nonneg hdigits, Nat.cast_pow, Nat.cast_ofNat]
    · rw [decide_eq_false hnonneg.not_gt, decide_eq_false hdigits.not_gt]
    · rw [abs_of_nonneg hnonneg] at hcut
      push_cast
      exact hcut

theorem ofReal_close {r : ℝ} (hr : |r| ≤ 1) :
    Close (ofReal r) r (1 / 2 ^ 90 + (|r| + 1 / 2 ^ 90) / 2 ^ 53 + 1 / 2 ^ 200) := by
  obtain ⟨q, hnearest, hq⟩ := exists_nearest_ofReal r
  exact Close.of_nearest hnearest hq (by linarith)

theorem abs_sub_sin_le (t : ℝ) : |t - Real.sin t| ≤ |t| ^ 3 / 6 := by
  have hpos : ∀ s : ℝ, 0 < s → |s - Real.sin s| ≤ s ^ 3 / 6 := fun s hs => by
    have := Real.sin_gt_sub_cube hs
    have := Real.sin_lt hs
    rw [abs_of_pos (by linarith)]
    linarith
  rcases lt_trichotomy t 0 with ht | rfl | ht
  · have hneg := hpos (-t) (neg_pos.mpr ht)
    rw [Real.sin_neg, neg_sub_neg, abs_sub_comm, ← abs_of_neg ht] at hneg
    exact hneg
  · simp
  · rw [abs_of_pos ht]
    exact hpos t ht

/-- The true sine and cosine, rounded; a tiny angle is its own sine. -/
@[reducible] noncomputable def roundedTrigonometry : Trigonometry where
  sin t := if |number t| ≤ 1 / 2 ^ 26 then t else ofReal (Real.sin (number t))
  cos t := ofReal (Real.cos (number t))

theorem rounded_sin_close {t : Float} (ht : isFinite t = true) :
    Close (roundedTrigonometry.sin t) (Real.sin (number t)) (|(number t : ℝ)| / 2 ^ 52) := by
  change Close (if |number t| ≤ 1 / 2 ^ 26 then t else ofReal (Real.sin (number t))) _ _
  split_ifs with htiny
  · have htiny' : |(number t : ℝ)| ≤ 1 / 2 ^ 26 := by
      simpa using (Rat.cast_le (K := ℝ)).mpr htiny
    refine ⟨ht, (abs_sub_sin_le _).trans ?_⟩
    have hsquare : |(number t : ℝ)| ^ 2 ≤ 1 / 2 ^ 52 := by
      calc |(number t : ℝ)| ^ 2 ≤ (1 / 2 ^ 26) ^ 2 := by gcongr
        _ = 1 / 2 ^ 52 := by norm_num
    nlinarith [abs_nonneg (number t : ℝ)]
  · have hlarge : 1 / 2 ^ 26 ≤ |(number t : ℝ)| := by
      simpa using (Rat.cast_le (K := ℝ)).mpr (not_le.mp htiny).le
    have hsin := Real.abs_sin_sub_sin_le (number t) 0
    rw [Real.sin_zero, sub_zero, sub_zero] at hsin
    refine (ofReal_close (Real.abs_sin_le_one _)).mono ?_
    linarith

theorem accurate_rounded : @Accurate roundedTrigonometry :=
  @Accurate.mk roundedTrigonometry (fun _ => rounded_sin_close) fun t _ =>
    (ofReal_close (Real.abs_cos_le_one _)).mono (by linarith [Real.abs_cos_le_one (number t)])

end FilterReference
