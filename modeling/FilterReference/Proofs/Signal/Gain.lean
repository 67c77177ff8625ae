/-
# The gain of a design

The taps are divided by their sum, so a design is worth what that sum is away from zero.  Over the
reals it is: the sum of the taps is at least three fifths of the cutoff, from three taps on
(`cutoff_le_gain`), and a tenth of one once the impulse response has left its main lobe under the
window (`tenth_le_gain`).

Both come from one sum by parts.  On one side of the centre the sines are the steps of `swing`,
which is never negative.  What multiplies them, the profile, only falls, so every part of the sum
counts, and some part of it can be counted (`le_response_sum`).
-/
import FilterReference.Proofs.Signal.Taps
import Mathlib

namespace FilterReference

namespace Lowpass

open Finset

/-! ## Summation by parts

The sum of a falling sequence against steps is bounded by what the steps have added up to.  It is
enough to know that on a stretch, if it is never negative elsewhere. -/

theorem sum_by_parts (v G : ℕ → ℝ) (n : ℕ) :
    ∑ i ∈ range n, v i * (G (i + 1) - G i) =
      v n * G n - v 0 * G 0 + ∑ i ∈ range n, (v i - v (i + 1)) * G (i + 1) := by
  induction n with
  | zero => simp
  | succ n ih =>
      rw [sum_range_succ, sum_range_succ, ih]
      ring

/-- A falling sequence against the steps of one without a sign, from below: what is lost at the
start and what is sure to be won between `p` and `q`. -/
theorem le_sum_by_parts {v G : ℕ → ℝ} {n p q : ℕ} {M : ℝ} (hv : Antitone v)
    (hend : ∀ i, n ≤ i → v i = 0) (hG : ∀ i, 0 ≤ G i) (hpq : p ≤ q)
    (hM : ∀ i, p ≤ i → i < q → M ≤ G (i + 1)) :
    (v p - v q) * M - v 0 * G 0 ≤ ∑ i ∈ range n, v i * (G (i + 1) - G i) := by
  have hextend : ∑ i ∈ range n, v i * (G (i + 1) - G i) =
      ∑ i ∈ range (max n q), v i * (G (i + 1) - G i) := by
    refine sum_subset (range_mono (le_max_left n q)) fun i _ hi => ?_
    rw [hend i (by simpa using hi), zero_mul]
  have hstep : ∀ i, 0 ≤ v i - v (i + 1) := fun i => sub_nonneg.mpr (hv i.le_succ)
  have hsub : Ico p q ⊆ range (max n q) := fun i hi =>
    mem_range.mpr (lt_of_lt_of_le (mem_Ico.mp hi).2 (le_max_right n q))
  have hpart : (v p - v q) * M ≤ ∑ i ∈ range (max n q), (v i - v (i + 1)) * G (i + 1) := by
    calc (v p - v q) * M = ∑ i ∈ Ico p q, (v i - v (i + 1)) * M := by
          rw [← sum_mul, ← neg_sub (v q), ← sum_Ico_sub v hpq, ← sum_neg_distrib]
          simp only [neg_sub]
      _ ≤ ∑ i ∈ Ico p q, (v i - v (i + 1)) * G (i + 1) := sum_le_sum fun i hi =>
          mul_le_mul_of_nonneg_left (hM i (mem_Ico.mp hi).1 (mem_Ico.mp hi).2) (hstep i)
      _ ≤ _ := sum_le_sum_of_subset_of_nonneg hsub fun i _ _ => mul_nonneg (hstep i) (hG _)
  rw [hextend, sum_by_parts, hend _ (le_max_left n q), zero_mul]
  linarith

variable {cutoff : ℝ} {len e K : Nat}

/-! ## The swing of the sine

What the sines add up to in steps of one.  It is never negative, which is what the sum by parts asks
for, and small at a half, where a design with a tap in the middle begins. -/

/-- Half a step around a point, this moves by the sine there. -/
noncomputable def swing (θ x : ℝ) : ℝ := 0.5 * (1 - Real.cos (θ * x)) / Real.sin (0.5 * θ)

theorem swing_eq (θ x : ℝ) : swing θ x = (1 - Real.cos (θ * x)) / (2 * Real.sin (θ / 2)) := by
  rw [swing, half_eq, inv_mul_eq_div, inv_mul_eq_div, div_div]

theorem swing_step {θ : ℝ} (hθ : Real.sin (θ / 2) ≠ 0) (x : ℝ) :
    swing θ (x + 1 / 2) - swing θ (x - 1 / 2) = Real.sin (θ * x) := by
  have hcos := Real.cos_sub_cos (θ * (x - 1 / 2)) (θ * (x + 1 / 2))
  rw [show (θ * (x - 1 / 2) + θ * (x + 1 / 2)) / 2 = θ * x by ring,
    show (θ * (x - 1 / 2) - θ * (x + 1 / 2)) / 2 = -(θ / 2) by ring, Real.sin_neg] at hcos
  rw [swing_eq, swing_eq, ← sub_div, div_eq_iff (by simpa using hθ)]
  linarith

variable (hpos : 0 < cutoff) (hlt : cutoff < 1)

include hpos hlt

theorem cutoff_le_sin : cutoff ≤ Real.sin (Real.pi * cutoff / 2) := by
  have hpi := Real.pi_pos
  have hjordan := Real.mul_le_sin (x := Real.pi * cutoff / 2) (by positivity) (by nlinarith)
  calc cutoff = 2 / Real.pi * (Real.pi * cutoff / 2) := by field_simp
    _ ≤ _ := hjordan

theorem swing_nonneg (x : ℝ) : 0 ≤ swing (Real.pi * cutoff) x := by
  have hsin := hpos.trans_le (cutoff_le_sin hpos hlt)
  have := Real.cos_le_one (Real.pi * cutoff * x)
  simp only [swing_eq]
  exact div_nonneg (by linarith) (by positivity)

theorem cutoff_le_swing_one : cutoff ≤ swing (Real.pi * cutoff) 1 := by
  have hsin := cutoff_le_sin hpos hlt
  have hcos := Real.cos_sq' (Real.pi * cutoff / 2)
  have hdouble := Real.cos_two_mul (Real.pi * cutoff / 2)
  rw [show 2 * (Real.pi * cutoff / 2) = Real.pi * cutoff * 1 by ring] at hdouble
  rw [swing_eq, hdouble, hcos, le_div_iff₀ (by linarith)]
  nlinarith

theorem swing_half_le : swing (Real.pi * cutoff) (1 / 2) ≤ 5 / 8 * cutoff := by
  have hsin := cutoff_le_sin hpos hlt
  have hcos := Real.one_sub_sq_div_two_le_cos (x := Real.pi * cutoff * (1 / 2))
  have hpi : Real.pi ^ 2 ≤ 10 := by nlinarith [Real.pi_pos, Real.pi_lt_d2]
  have hsquare : Real.pi ^ 2 * cutoff ^ 2 ≤ 10 * cutoff ^ 2 := by gcongr
  rw [swing_eq, div_le_iff₀ (by linarith)]
  nlinarith

/-- A quarter turn away from both ends of its way, the swing has come half through. -/
theorem le_swing {x : ℝ} (hlow : 1 / 2 ≤ cutoff * x) (hhigh : cutoff * x ≤ 3 / 2) :
    1 / (Real.pi * cutoff) ≤ swing (Real.pi * cutoff) x := by
  have hpi := Real.pi_pos
  have hsin := hpos.trans_le (cutoff_le_sin hpos hlt)
  have hle : Real.sin (Real.pi * cutoff / 2) ≤ Real.pi * cutoff / 2 := Real.sin_le (by positivity)
  have hcos : Real.cos (Real.pi * cutoff * x) ≤ 0 :=
    Real.cos_nonpos_of_pi_div_two_le_of_le (by nlinarith) (by nlinarith)
  have hscale : 0 < Real.pi * cutoff := by positivity
  rw [swing_eq, div_le_div_iff₀ hscale (by linarith)]
  nlinarith

/-! ## The sum from below

The swing is large where its cosine is not positive.  Distances come in steps of one, so the cutoff
has to be small enough for some of them to lie there, and the design long enough to reach them. -/

theorem le_response_sum {p q : Nat} {M : ℝ} (hpq : p ≤ q)
    (hM : ∀ i, p ≤ i → i < q → M ≤ swing (Real.pi * cutoff) (distance e i + 1 / 2)) :
    ∑ j ∈ range e, windowed realCircular cutoff (2 * K + e) (K + j) +
        2 / Real.pi * ((profile (halfLength (2 * K + e)) (distance e p) -
          profile (halfLength (2 * K + e)) (distance e q)) * M -
            profile (halfLength (2 * K + e)) (distance e 0) *
              swing (Real.pi * cutoff) (distance e 0 - 1 / 2)) ≤
      (response realCircular cutoff (2 * K + e)).sum := by
  have hpi := Real.pi_pos
  have hsin := hpos.trans_le (cutoff_le_sin hpos hlt)
  have hnext : ∀ i, distance e (i + 1) - 1 / 2 = distance e i + 1 / 2 := fun i => by
    rw [distance_eq, distance_eq]
    push_cast
    ring
  have hanti : Antitone fun i => profile (halfLength (2 * K + e)) (distance e i) :=
    fun a b hab => profile_anti (distance_pos e a) (distance_mono e hab)
  have hend : ∀ i, K ≤ i → profile (halfLength (2 * K + e)) (distance e i) = 0 := fun i hi => by
    have hi' : (K : ℝ) ≤ i := by exact_mod_cast hi
    have hlen' : ((2 * K + e - 1 : Nat) : ℝ) ≤ 2 * K + e := by exact_mod_cast Nat.sub_le _ _
    refine if_neg (not_le.mpr ?_)
    simp only [halfLength_eq, distance_eq]
    linarith
  have hparts := le_sum_by_parts (G := fun i => swing (Real.pi * cutoff) (distance e i - 1 / 2))
    hanti hend (fun i => swing_nonneg hpos hlt _) hpq
    (fun i hp hq => by rw [hnext]; exact hM i hp hq)
  have hsum : ∑ i ∈ range K, windowed realCircular cutoff (2 * K + e) (K + e + i) =
      1 / Real.pi * ∑ i ∈ range K, profile (halfLength (2 * K + e)) (distance e i) *
        (swing (Real.pi * cutoff) (distance e (i + 1) - 1 / 2) -
          swing (Real.pi * cutoff) (distance e i - 1 / 2)) := by
    rw [mul_sum]
    refine sum_congr rfl fun i hi => ?_
    rw [windowed_upper cutoff e (mem_range.mp hi), hnext, swing_step hsin.ne']
    ring
  rw [response_sum_fold, hsum]
  have hscaled := mul_le_mul_of_nonneg_left hparts (by positivity : 0 ≤ 2 / Real.pi)
  calc _ ≤ _ := add_le_add_right hscaled _
    _ = _ := by ring

/-- An odd number of taps has the centre, which outweighs what is lost beside it. -/
theorem centre_le (he : e ≤ 1) (hK : 0 < K) :
    3 / 5 * cutoff * e ≤
      ∑ j ∈ range e, windowed realCircular cutoff (2 * K + e) (K + j) -
        2 / Real.pi * (profile (halfLength (2 * K + e)) (distance e 0) *
          swing (Real.pi * cutoff) (distance e 0 - 1 / 2)) := by
  obtain rfl | rfl : e = 0 ∨ e = 1 := by omega
  · norm_num [distance_eq, swing_eq]
  · have hcentre : windowed realCircular cutoff (2 * K + 1) K = cutoff := by
      have hoffset : (K : ℝ) - halfLength (2 * K + 1) = 0 := by
        rw [halfLength_fold (by omega)]
        norm_num
      rw [windowed_eq, hamming_eq (by omega) (by omega), hoffset, mul_zero, mul_zero,
        Real.sinc_zero, zero_div, window_zero, mul_one, mul_one]
    have hdistance : distance 1 0 = 1 := by norm_num [distance_eq]
    have hprofile := profile_le (halfLength (2 * K + 1)) one_pos
    have hprofile₀ := profile_nonneg (halfLength (2 * K + 1)) zero_le_one
    have hswing : swing (Real.pi * cutoff) (1 - 1 / 2) ≤ 5 / 8 * cutoff := by
      rw [show (1 : ℝ) - 1 / 2 = 1 / 2 by norm_num]
      exact swing_half_le hpos hlt
    have hpi : 2 / Real.pi ≤ 16 / 25 := by
      rw [div_le_div_iff₀ Real.pi_pos (by norm_num)]
      linarith [Real.pi_gt_d2]
    have hproduct : profile (halfLength (2 * K + 1)) 1 * swing (Real.pi * cutoff) (1 - 1 / 2) ≤
        5 / 8 * cutoff := by
      have := swing_nonneg hpos hlt (1 - 1 / 2)
      nlinarith
    rw [sum_range_one, add_zero K, hcentre, hdistance, Nat.cast_one, mul_one]
    have hproduct₀ := mul_nonneg hprofile₀ (swing_nonneg hpos hlt (1 - 1 / 2))
    nlinarith

omit hpos hlt in
theorem exists_distance {x : ℝ} (hx : ((e : ℝ) + 1) / 2 ≤ x) :
    ∃ p, x ≤ distance e p ∧ distance e p ≤ x + 1 ∧ ∀ i, i < p → distance e i ≤ x := by
  have hhigh := Nat.ceil_lt_add_one (sub_nonneg.mpr hx)
  have hlow := Nat.le_ceil (x - ((e : ℝ) + 1) / 2)
  refine ⟨⌈x - ((e : ℝ) + 1) / 2⌉₊, ?_, ?_, fun i hi => ?_⟩
  · rw [distance_eq]
    linarith
  · rw [distance_eq]
    linarith
  · have hbelow := Nat.lt_ceil.mp hi
    rw [distance_eq]
    linarith

omit hlt in
/-- Between the end of the main lobe and that of the first side lobe there are distances. -/
theorem exists_lobe (hsmall : cutoff ≤ 1 / 5) (he : e ≤ 1) :
    ∃ p q : Nat, p ≤ q ∧ cutoff * distance e p ≤ 3 / 5 ∧ 7 / 5 ≤ cutoff * distance e q ∧
      ∀ i, p ≤ i → i < q →
        1 / 2 ≤ cutoff * (distance e i + 1 / 2) ∧ cutoff * (distance e i + 1 / 2) ≤ 3 / 2 := by
  have he' : (e : ℝ) ≤ 1 := by exact_mod_cast he
  have hlarge : 5 / 2 ≤ 1 / (2 * cutoff) := by
    rw [div_le_div_iff₀ (by norm_num) (by linarith)]
    linarith
  have hhalf : cutoff * (1 / (2 * cutoff)) = 1 / 2 := by field_simp
  obtain ⟨p, hplow, hphigh, -⟩ :=
    exists_distance (e := e) (x := 1 / (2 * cutoff) - 1 / 2) (by linarith)
  obtain ⟨q, hqlow, -, hbelow⟩ :=
    exists_distance (e := e) (x := 3 * (1 / (2 * cutoff)) - 1 / 2) (by linarith)
  refine ⟨p, q, ?_, by nlinarith, by nlinarith, fun i hip hiq => ⟨?_, ?_⟩⟩
  · by_contra hlt
    have := distance_mono e (not_le.mp hlt).le
    linarith
  · have := distance_mono e hip
    nlinarith
  · have := hbelow i hiq
    nlinarith

theorem tenth_le_gain_of_small (hsmall : cutoff ≤ 1 / 5) (he : e ≤ 1) (hK : 0 < K)
    (hlong : 9 / 10 ≤ cutoff * halfLength (2 * K + e)) :
    1 / 10 ≤ (response realCircular cutoff (2 * K + e)).sum := by
  obtain ⟨p, q, hpq, hp, hq, hlobe⟩ := exists_lobe hpos hsmall he
  have hsum := le_response_sum (e := e) (K := K) hpos hlt hpq fun i hip hiq =>
    le_swing hpos hlt (hlobe i hip hiq).1 (hlobe i hip hiq).2
  have hcentre := centre_le hpos hlt he hK
  have hdrop := cutoff_le_profile_sub hpos hlong (distance_pos e p) hp hq
  have hpi := Real.pi_pos
  have hwon : 1 / 10 ≤ 2 / Real.pi * ((profile (halfLength (2 * K + e)) (distance e p) -
      profile (halfLength (2 * K + e)) (distance e q)) * (1 / (Real.pi * cutoff))) := by
    calc (1 : ℝ) / 10 ≤ 2 / Real.pi * (51 / 100 * cutoff * (1 / (Real.pi * cutoff))) := by
          have : 2 / Real.pi * (51 / 100 * cutoff * (1 / (Real.pi * cutoff))) =
              102 / 100 / Real.pi ^ 2 := by
            field_simp
            norm_num
          rw [this, div_le_div_iff₀ (by norm_num) (by positivity)]
          nlinarith [Real.pi_lt_d2]
      _ ≤ _ := by gcongr
  have : 0 ≤ 3 / 5 * cutoff * (e : ℝ) := by positivity
  linarith

/-! ## The gain

The bound by such a stretch holds for cutoffs up to a fifth.  Of larger ones, three fifths are more
than a tenth. -/

/-- **The gain follows the cutoff**, from three taps on. -/
theorem cutoff_le_gain (hlen : 3 ≤ len) :
    3 / 5 * cutoff ≤ (response realCircular cutoff len).sum := by
  obtain ⟨K, e, he, rfl⟩ : ∃ K e, e ≤ 1 ∧ len = 2 * K + e :=
    ⟨len / 2, len % 2, by omega, by omega⟩
  obtain rfl | rfl : e = 0 ∨ e = 1 := by omega
  · have hhalf : 3 / 2 ≤ halfLength (2 * K + 0) := by
      have : (2 : ℝ) ≤ K := by exact_mod_cast (by omega : 2 ≤ K)
      rw [halfLength_fold (by omega)]
      norm_num
      linarith
    have hdrop := one_le_profile_sub hhalf
    have hsum := le_response_sum (e := 0) (K := K) (p := 0) (q := 1) hpos hlt
      zero_le_one (M := cutoff) fun i _ hi => by
        obtain rfl : i = 0 := by omega
        norm_num [distance_eq]
        exact cutoff_le_swing_one hpos hlt
    have hcentre := centre_le (e := 0) (K := K) hpos hlt (by omega) (by omega)
    have hpi : 3 / 5 ≤ 2 / Real.pi := by
      rw [div_le_div_iff₀ (by norm_num) Real.pi_pos]
      linarith [Real.pi_lt_d2]
    have hwon : 3 / 5 * cutoff ≤ 2 / Real.pi * ((profile (halfLength (2 * K + 0)) (distance 0 0) -
        profile (halfLength (2 * K + 0)) (distance 0 1)) * cutoff) := by
      rw [show distance 0 0 = 1 / 2 by norm_num [distance_eq],
        show distance 0 1 = 3 / 2 by norm_num [distance_eq]]
      have : cutoff ≤ (profile (halfLength (2 * K + 0)) (1 / 2) -
          profile (halfLength (2 * K + 0)) (3 / 2)) * cutoff := le_mul_of_one_le_left hpos.le hdrop
      gcongr
    rw [Nat.cast_zero, mul_zero] at hcentre
    linarith
  · have hsum := le_response_sum (e := 1) (K := K) (p := 0) (q := 0) (M := 0) hpos hlt
      le_rfl fun i _ hi => absurd hi (Nat.not_lt_zero i)
    have hcentre := centre_le (e := 1) (K := K) hpos hlt le_rfl (by omega)
    norm_num at hcentre hsum
    linarith

/-- **The gain of a long design** does not depend on the cutoff. -/
theorem tenth_le_gain (hlong : 9 / 5 ≤ cutoff * (len - 1 : Nat)) :
    1 / 10 ≤ (response realCircular cutoff len).sum := by
  have hlen : 3 ≤ len := by
    have : (1 : ℝ) < (len - 1 : Nat) := by nlinarith
    have : 1 < len - 1 := by exact_mod_cast this
    omega
  rcases le_total cutoff (1 / 5) with hsmall | hlarge
  · obtain ⟨K, e, he, rfl⟩ : ∃ K e, e ≤ 1 ∧ len = 2 * K + e :=
      ⟨len / 2, len % 2, by omega, by omega⟩
    refine tenth_le_gain_of_small hpos hlt hsmall he (by omega) ?_
    simp only [halfLength_eq]
    linarith
  · have := cutoff_le_gain hpos hlt hlen
    linarith

end Lowpass

end FilterReference
