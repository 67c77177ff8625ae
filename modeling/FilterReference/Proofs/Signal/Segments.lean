/-
# Interpolated points stay between their neighbours

A grid point between two samples lies in their segment, a fraction of the way along it that is
neither 0 nor 1, and not nearer to 1 than `2 ^ -51` (`number_fraction`).  That distance is what
keeps the value inside: the difference of the samples, rounded, can be larger than the exact one,
but its product with the fraction, rounded again, cannot (`size_scaled_le`).  So the value lies
between the samples, inclusively, wherever their difference is finite (`upsample_between_samples`).
-/
import FilterReference.Proofs.Signal.Upsampling

namespace FilterReference

open Binary

/-! ## The fraction -/

section Fraction

variable {up k : Nat}

/-- Before it is rounded, the fraction stays away from 0 and 1 by half the distance of two points on
the finest grid. -/
theorem exists_nearest_fraction (h₀ : 0 < up) (hup : up ≤ 2 ^ 50) (hk : k ≤ 2 ^ 50)
    (hmod : k % up ≠ 0) : ∃ q, Nearest (gridPosition up k - ofCount (k / up)) q ∧
      1 / 2 ^ 51 ≤ q ∧ q ≤ 1 - 1 / 2 ^ 51 := by
  have hk₀ : 0 < k := Nat.pos_of_ne_zero (fun h => hmod (by rw [h, Nat.zero_mod]))
  have hcount : k / up ≤ 2 ^ 53 := (Nat.div_le_self k up).trans (by omega)
  obtain ⟨hfinite, hpositive, herror⟩ := gridPosition_error h₀ hup hk₀ hk
  obtain ⟨hfinite', -, -⟩ := ofCount_exact hcount
  obtain ⟨hleft, hright⟩ := exact_between_samples h₀ hmod
  obtain ⟨hbelow, habove⟩ := abs_lt.mp herror
  have hunit : 1 / 2 ^ 50 ≤ (1 / up : ℚ) :=
    one_div_le_one_div_of_le (by exact_mod_cast h₀) (by exact_mod_cast hup)
  refine ⟨_, nearest_sub hfinite hfinite', ?_, ?_⟩
  · rw [number_of_positive hpositive, number_ofCount hcount]
    linarith
  · rw [number_of_positive hpositive, number_ofCount hcount]
    linarith

/-- Both bounds are doubles, so rounding does not pass them. -/
theorem number_mem_of_nearest {y : Float} {q : ℚ} (h : Nearest y q) (h₀ : 1 / 2 ^ 51 ≤ q)
    (h₁ : q ≤ 1 - 1 / 2 ^ 51) :
    isFinite y = true ∧ 1 / 2 ^ 51 ≤ number y ∧ number y ≤ 1 - 1 / 2 ^ 51 := by
  have habs : |q| = q := abs_of_nonneg (by linarith)
  obtain ⟨hone, -, hsizeOne⟩ := ofCount_exact (n := 1) (by norm_num)
  have hfinite : isFinite y = true := h.isFinite_of_le hone (by
    rw [habs, hsizeOne]
    push_cast
    linarith)
  have hnumber : number y = size y := by
    rw [← abs_number, abs_of_nonneg (h.number_nonneg (by linarith))]
  have hge := h.scaled_le_size hfinite (n := 1) (e := -51) (by norm_num) (by norm_num)
    (by rw [habs]; norm_num at h₀ ⊢; exact h₀)
  have hle := h.size_le_scaled (n := 2 ^ 51 - 1) (e := -51) (by norm_num) (by norm_num)
    (by rw [habs]; norm_num at h₁ ⊢; exact h₁)
  rw [hnumber]
  norm_num at hge hle ⊢
  exact ⟨hfinite, hge, hle⟩

theorem number_fraction (h₀ : 0 < up) (hup : up ≤ 2 ^ 50) (hk : k ≤ 2 ^ 50) (hmod : k % up ≠ 0) :
    isFinite (gridPosition up k - ofCount (k / up)) = true ∧
      1 / 2 ^ 51 ≤ number (gridPosition up k - ofCount (k / up)) ∧
      number (gridPosition up k - ofCount (k / up)) ≤ 1 - 1 / 2 ^ 51 := by
  obtain ⟨q, hnearest, hlow, hhigh⟩ := exists_nearest_fraction h₀ hup hk hmod
  exact number_mem_of_nearest hnearest hlow hhigh

end Fraction

/-! ## Between two samples

The difference of two samples can be rounded up by half a unit, which the fraction takes back if a
unit is a small part of the difference.  If it is not, the difference is few units of the least
exponent and is not rounded at all. -/

section Scaled

variable {d p : Float} {difference fraction : ℚ}

/-- A rounded difference that is not tiny, scaled by a fraction that stays away from 1 and rounded
again: both roundings together lose less than the fraction takes away. -/
theorem size_scaled_le_of_large (hlarge : 2 ^ (-1021 : Int) ≤ |difference|)
    (hd : Nearest d difference) (hfinite : isFinite d = true) (h₀ : 0 ≤ fraction)
    (h₁ : fraction ≤ 1 - 1 / 2 ^ 51) (hp : Nearest p (number d * fraction)) :
    size p ≤ |difference| := by
  have hscaled : |number d * fraction| = size d * fraction := by
    rw [abs_mul, abs_number, abs_of_nonneg h₀]
  have hdouble : (2 : ℚ) ^ (-1021 : Int) = 2 * 2 ^ (-1022 : Int) := by
    rw [← zpow_one_add₀ (by norm_num)]
    norm_num
  have hpositive := Format.two_zpow_pos (-1022)
  rw [hdouble] at hlarge
  have herror := (abs_le.mp (hd.relative_error hfinite (by linarith))).2
  have hproduct : size d * fraction ≤
      (|difference| + |difference| / 2 ^ 53) * (1 - 1 / 2 ^ 51) :=
    mul_le_mul (by linarith) h₁ h₀ (by positivity)
  rcases le_total (2 ^ (-1022 : Int)) |number d * fraction| with hnormal | hsmall
  · have hle : |number d * fraction| ≤ size d := by
      rw [hscaled]
      exact mul_le_of_le_one_right (size_nonneg d) (h₁.trans (by norm_num))
    have herror' := (abs_le.mp (hp.relative_error (hp.isFinite_of_le hfinite hle) hnormal)).2
    rw [hscaled] at herror'
    linarith
  · -- A tiny product is rounded to at most the least normal number.
    have hleast := hp.size_le_scaled (n := 1) (e := -1022) (by norm_num) (by norm_num)
      (by rwa [Nat.cast_one, one_mul])
    rw [Nat.cast_one, one_mul] at hleast
    linarith

/-- A rounded difference of doubles, scaled by a fraction that stays away from 1 and rounded again,
is not larger than the exact difference. -/
theorem size_scaled_le {n : Int} (hunits : difference = n * 2 ^ (-1074 : Int))
    (hd : Nearest d difference) (hfinite : isFinite d = true) (h₀ : 0 ≤ fraction)
    (h₁ : fraction ≤ 1 - 1 / 2 ^ 51) (hp : Nearest p (number d * fraction)) :
    size p ≤ |difference| := by
  have habs : |difference| = n.natAbs * 2 ^ (-1074 : Int) := by
    rw [hunits, abs_mul, abs_of_pos (Format.two_zpow_pos _), Nat.cast_natAbs, Int.cast_abs]
  rcases Nat.lt_or_ge n.natAbs (2 ^ 53) with hfew | hmany
  · -- A difference of few bits is not rounded.
    have hexact := hd.size_le_scaled hfew (le_refl _) habs.le
    rw [← habs] at hexact
    have hproduct : |number d * fraction| ≤ |number d| := by
      rw [abs_mul, abs_of_nonneg h₀]
      exact mul_le_of_le_one_right (by positivity) (h₁.trans (by norm_num))
    exact (hp.size_le (nearest_number hfinite) hproduct).trans hexact
  · have hmany' : ((2 ^ 53 : Nat) : ℚ) ≤ n.natAbs := by exact_mod_cast hmany
    refine size_scaled_le_of_large ?_ hd hfinite h₀ h₁ hp
    calc (2 : ℚ) ^ (-1021 : Int) = (2 ^ 53 : Nat) * 2 ^ (-1074 : Int) := by
          rw [Nat.cast_pow, Nat.cast_ofNat, ← zpow_natCast, ← zpow_add₀ (by norm_num)]
          norm_num
      _ ≤ n.natAbs * 2 ^ (-1074 : Int) :=
          mul_le_mul_of_nonneg_right hmany' (Format.two_zpow_pos _).le
      _ = |difference| := habs.symm

end Scaled

section Between

variable {lo hi f : Float}

/-- The step that is made from one end of a segment does not lead past the other. -/
theorem size_step_le (hlo : isFinite lo = true) (hhi : isFinite hi = true)
    (hd : isFinite (hi - lo) = true) (hf : isFinite f = true) (h₀ : 0 ≤ number f)
    (h₁ : number f ≤ 1 - 1 / 2 ^ 51) :
    isFinite ((hi - lo) * f) = true ∧ size ((hi - lo) * f) ≤ |number hi - number lo| := by
  have hproduct := nearest_mul hd hf
  obtain ⟨m, hm⟩ := exists_number_eq hi
  obtain ⟨n, hn⟩ := exists_number_eq lo
  have hunits : number hi - number lo = (m - n : Int) * 2 ^ (-1074 : Int) := by
    rw [hm, hn, Int.cast_sub, sub_mul]
  refine ⟨hproduct.isFinite_of_le hd ?_,
    size_scaled_le hunits (nearest_sub hhi hlo) hd h₀ h₁ hproduct⟩
  rw [abs_mul, abs_number, abs_of_nonneg h₀]
  exact mul_le_of_le_one_right (size_nonneg _) (h₁.trans (by norm_num))

/-- **A point on a segment does not leave it**, if the difference of the ends is finite and the
fraction stays away from 1. -/
theorem between_mem (hlo : isFinite lo = true) (hhi : isFinite hi = true)
    (hd : isFinite (hi - lo) = true) (hf : isFinite f = true) (h₀ : 0 ≤ number f)
    (h₁ : number f ≤ 1 - 1 / 2 ^ 51) :
    min lo hi ≤ between lo hi f ∧ between lo hi f ≤ max lo hi := by
  have hdifference := nearest_sub hhi hlo
  have hproduct := nearest_mul hd hf
  obtain ⟨hfinite, hsize⟩ := size_step_le hlo hhi hd hf h₀ h₁
  have hsum := nearest_add hlo hfinite
  obtain ⟨hdown, hup⟩ := abs_le.mp (abs_number ((hi - lo) * f)).le
  rcases le_or_gt (number lo) (number hi) with hle | hgt
  · have hnonneg : 0 ≤ number hi - number lo := sub_nonneg.mpr hle
    have hstep := hproduct.number_nonneg (mul_nonneg (hdifference.number_nonneg hnonneg) h₀)
    have hordered : lo ≤ hi := (le_iff_number_le hlo hhi).mpr hle
    have hmin : min lo hi = lo := if_pos hordered
    have hmax : max lo hi = hi := if_pos hordered
    rw [abs_of_nonneg hnonneg] at hsize
    rw [hmin, hmax]
    exact ⟨(nearest_number hlo).le hsum (by linarith), hsum.le (nearest_number hhi) (by linarith)⟩
  · have hneg : number hi - number lo < 0 := sub_neg.mpr hgt
    have hstep := hproduct.number_nonpos
      (mul_nonpos_of_nonpos_of_nonneg (hdifference.number_nonpos hneg.le) h₀)
    have hordered : ¬ lo ≤ hi := fun h => not_lt.mpr ((le_iff_number_le hlo hhi).mp h) hgt
    have hmin : min lo hi = hi := if_neg hordered
    have hmax : max lo hi = lo := if_neg hordered
    rw [abs_of_neg hneg] at hsize
    rw [hmin, hmax]
    exact ⟨(nearest_number hhi).le hsum (by linarith), hsum.le (nearest_number hlo) (by linarith)⟩

end Between

/-! ## Whole signals -/

/-- **Interpolated points stay between their neighbours.**  In a finite signal every grid point that
is no sample lies in the segment of the exact quotient, which the clip at the end of the signal does
not change, at a fraction strictly between 0 and 1; and its value lies between the two samples, the
samples included, unless their difference overflows. -/
theorem upsample_between_samples {x : Signal} {up : Nat} (hlen : 2 ≤ x.length) (hup : 2 ≤ up)
    (hsize : (x.length - 1) * up ≤ 2 ^ 50) (hfinite : ∀ s ∈ x, isFinite s = true) :
    ∃ v, upsample x up = .ok v ∧ v.length = gridLength x.length up ∧
      ∀ k y, v[k]? = some y → k % up ≠ 0 →
        floorCount (gridPosition up k) = k / up ∧
        segmentOf x.length (gridPosition up k) = k / up ∧
        0 < gridPosition up k - ofCount (k / up) ∧ gridPosition up k - ofCount (k / up) < 1 ∧
        ∃ lo hi, x[k / up]? = some lo ∧ x[k / up + 1]? = some hi ∧
          y = between lo hi (gridPosition up k - ofCount (k / up)) ∧
          (isFinite (hi - lo) = true → min lo hi ≤ y ∧ y ≤ max lo hi) := by
  have hup₀ : 0 < up := by omega
  obtain ⟨v, hv, hlength, hvalues⟩ := exists_upsample (by omega) hlen hsize
  obtain ⟨-, hhigh⟩ := gridLength_bounds hup₀ (by omega) (Or.inr hlen) hsize
  refine ⟨v, hv, hlength, fun k y hy hmod => ?_⟩
  obtain ⟨hk, rfl⟩ := List.getElem?_eq_some_iff.mp hy
  have hle : k ≤ (x.length - 1) * up := by omega
  have hup' : up ≤ 2 ^ 50 := le_trans (Nat.le_mul_of_pos_left up (by omega)) hsize
  obtain ⟨hlt, hsegment⟩ := segmentOf_gridPosition hmod hle hsize (le_refl x.length)
  obtain ⟨hfraction, hlow, hnear⟩ := number_fraction hup₀ hup' (hle.trans hsize) hmod
  have hvalue := hvalues k hk
  rw [gridValue_between x.toArray hmod hsegment hlt] at hvalue
  simp only [List.getElem_toArray] at hvalue
  have hzero : isFinite 0 = true := by decide +kernel
  have hone : isFinite 1 = true ∧ number 1 = 1 := by decide +kernel
  refine ⟨floorCount_gridPosition hup₀ hup' (hle.trans hsize) hmod, hsegment, ?_, ?_,
    x[k / up], x[k / up + 1], List.getElem?_eq_getElem _, List.getElem?_eq_getElem _,
    (Except.ok.inj hvalue).symm, fun hd => ?_⟩
  · rw [lt_iff_number_lt hzero hfraction, number_zero]
    exact lt_of_lt_of_le (by norm_num) hlow
  · rw [lt_iff_number_lt hfraction hone.1, hone.2]
    exact lt_of_le_of_lt hnear (by norm_num)
  · rw [← Except.ok.inj hvalue]
    exact between_mem (hfinite _ (List.getElem_mem _)) (hfinite _ (List.getElem_mem _)) hd hfraction
      (le_trans (by norm_num) hlow) hnear

/-- From the least double down to zero, where there is nothing between the samples. -/
theorem upsample_between_samples_tiny :
    ∃ v y, upsample [5e-324, 0, -1.7e308] 3 = .ok v ∧ v[2]? = some y ∧
      min 5e-324 0 ≤ y ∧ y ≤ max 5e-324 0 := by
  obtain ⟨v, hv, hlength, hpoints⟩ := upsample_between_samples (x := [5e-324, 0, -1.7e308])
    (by decide) (by decide : 2 ≤ 3) (by decide) (by decide +kernel)
  have hlength' : gridLength 3 3 = 6 := by decide +kernel
  have hk : 2 < v.length := by
    rw [hlength]
    exact lt_of_lt_of_eq (by decide) hlength'.symm
  obtain ⟨-, -, -, -, lo, hi, hlo, hhi, -, hbetween⟩ :=
    hpoints 2 v[2] (List.getElem?_eq_getElem hk) (by decide)
  obtain rfl : 5e-324 = lo := Option.some.inj hlo
  obtain rfl : 0 = hi := Option.some.inj hhi
  exact ⟨v, v[2], hv, List.getElem?_eq_getElem hk, hbetween (by decide +kernel)⟩

end FilterReference
