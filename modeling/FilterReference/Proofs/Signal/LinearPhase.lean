/-
# Linear phase and unit gain

The window method makes taps that are the same from both ends, and that sum up to one.  Read over
the numbers of a field, where nothing is rounded, this takes no more of sine and cosine than their
symmetries (`IsCircle`): the distance of a tap from the centre changes its sign when the taps are
reversed, which the impulse response does not see, and the window is the same on both sides of half
a turn.  Division by the sum of the taps keeps the symmetry and makes the gain one
(`taps_linearPhase`).
-/
import FilterReference.Signal.Lowpass
import Mathlib

namespace FilterReference

namespace Lowpass

/-- A circle over a field: counts are what they are, the sine is odd, and the cosine is the same on
both sides of half a turn. -/
structure IsCircle {α : Type} [Field α] (c : Circular α) : Prop where
  ofCount_eq : ∀ n, c.ofCount n = n
  sin_neg : ∀ t, c.sin (-t) = -c.sin t
  cos_turn : ∀ t, c.cos (2 * c.pi - t) = c.cos t

section Field

variable {α : Type} [Field α]

theorem two_eq : (2.0 : α) = 2 := by
  have hcast : (2.0 : α) = ((2.0 : ℚ≥0) : α) := rfl
  have htwo : (2.0 : ℚ≥0) = (2 : ℕ) := by norm_num
  rw [hcast, htwo, NNRat.cast_natCast, Nat.cast_ofNat]

theorem half_eq : (0.5 : α) = 2⁻¹ := by
  have hcast : (0.5 : α) = ((0.5 : ℚ≥0) : α) := rfl
  have hnum : (0.5 : ℚ≥0).num = 1 := by decide +kernel
  have hden : (0.5 : ℚ≥0).den = 2 := by decide +kernel
  rw [hcast, NNRat.cast_def, hnum, hden, Nat.cast_one, Nat.cast_ofNat, one_div]

/-! ## Reflection

Seen from the other end, the distance from the centre has the other sign, and the phase of the
window is what is left of a turn. -/

variable {c : Circular α} {cutoff : α} {len n : Nat}

theorem distance_reflect (h : IsCircle c) (h₂ : (2 : α) ≠ 0) (hn : n < len) :
    c.ofCount (len - 1 - n) - 0.5 * c.ofCount (len - 1) =
      -(c.ofCount n - 0.5 * c.ofCount (len - 1)) := by
  have hhalf : (0.5 : α) * 2 = 1 := by rw [half_eq, inv_mul_cancel₀ h₂]
  rw [h.ofCount_eq, h.ofCount_eq, h.ofCount_eq, Nat.cast_sub (by omega : n ≤ len - 1)]
  linear_combination -((len - 1 : Nat) : α) * hhalf

variable [DecidableEq α]

theorem sinc_neg (h : IsCircle c) (x : α) : sinc c (-x) = sinc c x := by
  unfold sinc
  by_cases hx : x = 0
  · rw [hx, neg_zero]
  · simp only [beq_iff_eq, neg_eq_zero, hx, if_false]
    rw [mul_neg, h.sin_neg, neg_div_neg_eq]

theorem hamming_reflect (h : IsCircle c) (hn : n < len) :
    hamming c (len - 1 - n) len = hamming c n len := by
  unfold hamming
  split_ifs with hone
  · rfl
  · rw [h.ofCount_eq, h.ofCount_eq, h.ofCount_eq, two_eq, Nat.cast_sub (by omega : n ≤ len - 1)]
    by_cases hk : ((len - 1 : Nat) : α) = 0
    · rw [hk, div_zero, div_zero]
    · have hturn : 2 * c.pi * (((len - 1 : Nat) : α) - n) / ((len - 1 : Nat) : α) =
          2 * c.pi - 2 * c.pi * n / ((len - 1 : Nat) : α) := by
        field_simp
      rw [hturn, h.cos_turn]

theorem windowed_reflect (h : IsCircle c) (h₂ : (2 : α) ≠ 0) (hn : n < len) :
    windowed c cutoff len (len - 1 - n) = windowed c cutoff len n := by
  unfold windowed
  dsimp only
  rw [distance_reflect h h₂ hn, mul_neg, sinc_neg h, hamming_reflect h hn]

/-! ## The taps -/

omit [DecidableEq α] in
/-- A sum from the left, begun at the zero with a sign. -/
theorem foldl_add_neg_zero (xs : List α) : xs.foldl (· + ·) (-0) = xs.sum := by
  rw [neg_zero, List.sum_eq_foldl]

theorem taps_eq (c : Circular α) (cutoff : α) (len : Nat) :
    taps c cutoff len = (List.range len).map
      fun n => windowed c cutoff len n / (response c cutoff len).sum := by
  unfold taps
  dsimp only
  rw [foldl_add_neg_zero]
  conv_lhs => rw [response, List.map_map]
  rfl

theorem response_sum (c : Circular α) (cutoff : α) (len : Nat) :
    (response c cutoff len).sum = ∑ n ∈ Finset.range len, windowed c cutoff len n := by
  rfl

theorem response_three (h : IsCircle c) (h₂ : (2 : α) ≠ 0) (cutoff : α) :
    (response c cutoff 3).sum = 2 * windowed c cutoff 3 0 + windowed c cutoff 3 1 := by
  have hlast : windowed c cutoff 3 2 = windowed c cutoff 3 0 :=
    windowed_reflect h h₂ (by norm_num : 0 < 3)
  rw [response_sum, Finset.sum_range_succ, Finset.sum_range_succ, Finset.sum_range_one, hlast]
  ring

theorem taps_getElem? (c : Circular α) (cutoff : α) (hn : n < len) :
    (taps c cutoff len)[n]? =
      some (windowed c cutoff len n / (response c cutoff len).sum) := by
  rw [taps_eq, List.getElem?_map, List.getElem?_range hn, Option.map_some]

/-- **Linear phase and unit gain.**  Unless the taps before scaling sum up to zero, there are as
many taps as asked for, they are the same from both ends, and their sum is one. -/
theorem taps_linearPhase (h : IsCircle c) (h₂ : (2 : α) ≠ 0) (cutoff : α) (len : Nat)
    (hgain : (response c cutoff len).sum ≠ 0) :
    (taps c cutoff len).length = len ∧
      (∀ i, i < len → (taps c cutoff len)[i]? = (taps c cutoff len)[len - 1 - i]?) ∧
      (taps c cutoff len).sum = 1 := by
  refine ⟨?_, fun i hi => ?_, ?_⟩
  · rw [taps_eq, List.length_map, List.length_range]
  · rw [taps_getElem? c cutoff hi, taps_getElem? c cutoff (by omega : len - 1 - i < len),
      windowed_reflect h h₂ hi]
  · have hscaled : (taps c cutoff len).sum =
        (response c cutoff len).sum / (response c cutoff len).sum := by
      rw [taps_eq]
      simp only [div_eq_mul_inv, List.sum_map_mul_right]
      rfl
    rw [hscaled, div_self hgain]

end Field

/-! ## The reals -/

noncomputable def realCircular : Circular ℝ where
  ofCount n := n
  pi := Real.pi
  sin := Real.sin
  cos := Real.cos

theorem isCircle_realCircular : IsCircle realCircular where
  ofCount_eq _ := rfl
  sin_neg := Real.sin_neg
  cos_turn := Real.cos_two_pi_sub

theorem windowed_halfBand_centre : windowed realCircular (1 / 2) 3 1 = 1 / 2 := by
  have hcos : Real.cos (2 * Real.pi * 1 / 2) = -1 := by
    rw [mul_one, mul_div_cancel_left₀ _ two_ne_zero, Real.cos_pi]
  norm_num [windowed, sinc, hamming, realCircular, hcos]

theorem windowed_halfBand_pos : 0 < windowed realCircular (1 / 2) 3 0 := by
  have hsinc : sinc realCircular (-(1 / 2)) = 1 / (Real.pi / 2) := by
    rw [sinc_neg isCircle_realCircular, sinc, if_neg (by norm_num)]
    have hsin : Real.sin (Real.pi * (1 / 2)) = 1 := by
      rw [mul_one_div, Real.sin_pi_div_two]
    simp only [realCircular, hsin]
    ring
  have hpi := Real.pi_pos
  norm_num [windowed, hamming, realCircular] at hsinc ⊢
  rw [hsinc]
  positivity

/-- Three taps at half the band. -/
theorem taps_linearPhase_halfBand :
    (response realCircular (1 / 2) 3).sum ≠ 0 ∧ (taps realCircular (1 / 2) 3).length = 3 ∧
      (∀ i, i < 3 → (taps realCircular (1 / 2) 3)[i]? = (taps realCircular (1 / 2) 3)[3 - 1 - i]?) ∧
      (taps realCircular (1 / 2) 3).sum = 1 := by
  have hgain : (response realCircular (1 / 2) 3).sum ≠ 0 := by
    have hpos := windowed_halfBand_pos
    rw [response_three isCircle_realCircular two_ne_zero, windowed_halfBand_centre]
    positivity
  exact ⟨hgain, taps_linearPhase isCircle_realCircular two_ne_zero _ _ hgain⟩

end Lowpass

end FilterReference
