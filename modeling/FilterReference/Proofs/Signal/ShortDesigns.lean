/-
# Short designs

As long as the impulse response does not leave its main lobe, no tap has a sign: the response is
positive there (`sinc_of_short`), and so is the window, and rounding does not change signs
(`tap_of_short`).  Nothing cancels in their sum then, so it is worth as much as any of them, and all
that matters is whether some tap is left when the products are rounded.

The tap in the middle is, however small the cutoff (`tap_pos_of_near`).  Two taps have none there.
Both stand at an end of the window, where eight hundredths of the cutoff are left, and rounding
keeps that of seven least units, but not of six (`tap_pos_of_pair`, `tap_eq_zero_of_pair`).
-/
import FilterReference.Proofs.Signal.Accuracy
import Mathlib

namespace FilterReference

open Binary

namespace Lowpass

/-! ## The main lobe

Up to half a turn the sine lies above any chord from zero.  So one value of the sine bounds the
impulse response on a whole interval, and three of them are enough here. -/

theorem le_sinc {t c v : ℝ} (ht : |t| ≤ c) (hc : c ≤ Real.pi) (hv : v * c ≤ Real.sin c)
    (hv₁ : v ≤ 1) : v ≤ Real.sinc t := by
  rcases eq_or_ne t 0 with rfl | hne
  · rwa [Real.sinc_zero]
  · have hpos : 0 < |t| := abs_pos.mpr hne
    have hc₀ : 0 < c := hpos.trans_le ht
    have hzero : (0 : ℝ) ∈ Set.Icc 0 Real.pi := ⟨le_rfl, Real.pi_pos.le⟩
    have hend : c ∈ Set.Icc 0 Real.pi := ⟨hc₀.le, hc⟩
    have hpart : 0 ≤ 1 - |t| / c := sub_nonneg.mpr ((div_le_one hc₀).mpr ht)
    have hconcave := strictConcaveOn_sin_Icc.concaveOn.2 hzero hend hpart
      (by positivity : 0 ≤ |t| / c) (by ring)
    simp only [smul_eq_mul, mul_zero, zero_add, Real.sin_zero] at hconcave
    rw [div_mul_cancel₀ _ hc₀.ne'] at hconcave
    have hsinc : Real.sinc t = Real.sin |t| / |t| := by
      rcases abs_choice t with h | h
      · rw [h, Real.sinc_of_ne_zero hne]
      · rw [h, Real.sinc_of_ne_zero hne, Real.sin_neg, neg_div_neg_eq]
    rw [hsinc, le_div_iff₀ hpos]
    calc v * |t| = |t| / c * (v * c) := by field_simp
      _ ≤ |t| / c * Real.sin c := by gcongr
      _ ≤ _ := hconcave

theorem le_sin_of_lobe : 1 / 10 * 2.84 ≤ Real.sin 2.84 := by
  have hmono : Real.sin 0.3 ≤ Real.sin (Real.pi - 2.84) :=
    Real.sin_le_sin_of_le_of_le_pi_div_two (by norm_num; linarith [Real.pi_pos])
      (by norm_num; linarith [Real.pi_lt_d2]) (by norm_num; linarith [Real.pi_gt_d2])
  have hsin := Real.sin_gt_sub_cube (by norm_num : (0 : ℝ) < 0.3)
  rw [Real.sin_pi_sub] at hmono
  norm_num at *
  linarith

theorem le_sin_of_centre : 0.58 * 1.58 ≤ Real.sin 1.58 :=
  (by norm_num : (0.58 * 1.58 : ℝ) ≤ 1.58 - 1.58 ^ 3 / 6).trans
    (Real.sin_gt_sub_cube (by norm_num)).le

theorem le_sin_of_tiny : 0.999 * (1 / 2 ^ 18) ≤ Real.sin (1 / 2 ^ 18) :=
  (by norm_num : (0.999 * (1 / 2 ^ 18) : ℝ) ≤ 1 / 2 ^ 18 - (1 / 2 ^ 18) ^ 3 / 6).trans
    (Real.sin_gt_sub_cube (by norm_num)).le

variable {cutoff : Float} {len n : Nat}

section Tap

variable [Trigonometry] (h : Accurate) (hd : Admitted cutoff len) (hn : n < len)

include h hd hn

/-! ## The impulse response

The bounds on the true values are handed on to the doubles with the errors of these in between.
They are round numbers, for it only matters that they have a sign and are not large. -/

theorem sinc_between {a c v : ℝ} (ha : |(number cutoff : ℝ) * (n - halfLength len)| ≤ a)
    (ha₁ : a ≤ 1) (hc : 22 / 7 * (a + 1 / 2 ^ 52) + 1 / 2 ^ 100 ≤ c) (hc₁ : c ≤ Real.pi)
    (hv : v * c ≤ Real.sin c) (hv₁ : v ≤ 1) :
    Close (sinc floatCircular (cutoff * offset len n)) ((v + 1) / 2)
      ((1 - v) / 2 + 4 / 2 ^ 53) := by
  obtain ⟨hm, hoffset⟩ := offset_exact hd.len_le hn
  have hargument := nearest_mul hd.finite hm
  have hexact : |((number cutoff * number (offset len n) : ℚ) : ℝ)| ≤ a := by
    rwa [Rat.cast_mul, hoffset]
  have hfinite := hargument.isFinite_of_real (hexact.trans (by linarith))
  have hsize : |(number (cutoff * offset len n) : ℝ)| ≤ a + 1 / 2 ^ 52 := by
    have herror := hargument.real_error (hexact.trans (by linarith))
    have := abs_sub_abs_le_abs_sub (number (cutoff * offset len n) : ℝ)
      (number cutoff * number (offset len n) : ℚ)
    linarith
  generalize cutoff * offset len n = x at hfinite hsize ⊢
  have hphase : |(number (floatCircular.pi * x) : ℝ)| ≤ c := by
    have hnearest := nearest_mul (x := floatCircular.pi) pi_bounds.1 hfinite
    have hproduct : |((number floatCircular.pi * number x : ℚ) : ℝ)| ≤
        3.1416 * (a + 1 / 2 ^ 52) := by
      rw [Rat.cast_mul, abs_mul]
      gcongr
      exact abs_pi_le
    have ha₀ : 0 ≤ a := (abs_nonneg _).trans ha
    have herror := hnearest.real_error (hproduct.trans (by linarith))
    have := abs_sub_abs_le_abs_sub (number (floatCircular.pi * x) : ℝ)
      (number floatCircular.pi * number x : ℚ)
    linarith
  have hclose := sinc_close h hfinite (hsize.trans (by linarith))
  have hlow := le_sinc hphase hc₁ hv hv₁
  have hhigh := Real.sinc_le_one (number (floatCircular.pi * x))
  refine ⟨hclose.finite, ?_⟩
  have herror := hclose.error
  rw [abs_le] at herror ⊢
  constructor <;> linarith

theorem sinc_of_short (hshort : (number cutoff : ℝ) * (len - 1 : Nat) ≤ 9 / 5) :
    isFinite (sinc floatCircular (cutoff * offset len n)) = true ∧
      1 / 20 ≤ number (sinc floatCircular (cutoff * offset len n)) ∧
        number (sinc floatCircular (cutoff * offset len n)) ≤ 1001 / 1000 := by
  have hpos := hd.real_pos
  have hinside : |(n : ℝ) - halfLength len| ≤ halfLength len := by
    have : (n : ℝ) ≤ (len - 1 : Nat) := by exact_mod_cast (by omega : n ≤ len - 1)
    have : (0 : ℝ) ≤ n := Nat.cast_nonneg n
    rw [abs_le, halfLength_eq]
    constructor <;> linarith
  have hargument : |(number cutoff : ℝ) * (n - halfLength len)| ≤ 9 / 10 := by
    rw [abs_mul, abs_of_pos hpos]
    calc _ ≤ (number cutoff : ℝ) * halfLength len := by gcongr
      _ ≤ _ := by
          simp only [halfLength_eq]
          linarith
  have hclose := sinc_between h hd hn hargument (c := 2.84) (v := 1 / 10) (by norm_num) (by norm_num)
    (by linarith [Real.pi_gt_d2]) le_sin_of_lobe (by norm_num)
  exact ⟨hclose.finite, hclose.bounds (by norm_num) (by norm_num)⟩

theorem sinc_of_centre (hcentre : |(n : ℝ) - halfLength len| ≤ 1 / 2) :
    57 / 100 ≤ number (sinc floatCircular (cutoff * offset len n)) := by
  have hpos := hd.real_pos
  have hargument : |(number cutoff : ℝ) * (n - halfLength len)| ≤ 1 / 2 := by
    rw [abs_mul, abs_of_pos hpos]
    have := hd.real_lt_one
    nlinarith [abs_nonneg ((n : ℝ) - halfLength len)]
  have hclose := sinc_between h hd hn hargument (c := 1.58) (v := 0.58) (by norm_num) (by norm_num)
    (by linarith [Real.pi_gt_d2]) le_sin_of_centre (by norm_num)
  exact (hclose.bounds (b := 2) (by norm_num) (by norm_num)).1

theorem sinc_of_tiny (hcentre : |(n : ℝ) - halfLength len| ≤ 1 / 2)
    (htiny : (number cutoff : ℝ) ≤ 1 / 2 ^ 20) :
    99 / 100 ≤ number (sinc floatCircular (cutoff * offset len n)) := by
  have hpos := hd.real_pos
  have hargument : |(number cutoff : ℝ) * (n - halfLength len)| ≤ 1 / 2 ^ 21 := by
    rw [abs_mul, abs_of_pos hpos]
    nlinarith [abs_nonneg ((n : ℝ) - halfLength len)]
  have hclose := sinc_between h hd hn hargument (c := 1 / 2 ^ 18) (v := 0.999) (by norm_num)
    (by norm_num) (by linarith [Real.pi_gt_d2]) le_sin_of_tiny (by norm_num)
  exact (hclose.bounds (b := 2) (by norm_num) (by norm_num)).1

omit hd in
theorem hamming_between (hlen : len ≤ 2 ^ 44) {a b : ℚ}
    (hlow : a + 1 / 2 ^ 48 ≤ hamming realCircular n len)
    (hhigh : hamming realCircular n len + 1 / 2 ^ 48 ≤ b) :
    isFinite (hamming floatCircular n len) = true ∧ a ≤ number (hamming floatCircular n len) ∧
      number (hamming floatCircular n len) ≤ b := by
  have hclose := hamming_close h hlen hn
  exact ⟨hclose.finite, hclose.bounds hlow hhigh⟩

theorem hamming_of_tap : isFinite (hamming floatCircular n len) = true ∧
    79 / 1000 ≤ number (hamming floatCircular n len) ∧
      number (hamming floatCircular n len) ≤ 1001 / 1000 := by
  refine hamming_between h hn hd.len_le ?_ ?_
  · have := le_hamming hn
    norm_num at this ⊢
    linarith
  · have := (le_abs_self _).trans (abs_hamming_le hn)
    norm_num
    linarith

/-! ## The taps

Cutoff and response are not negative, and neither is their rounded product, nor that with the
window.  Whether it is zero is another question, and a matter of how small the cutoff is. -/

theorem product_of_short (hshort : (number cutoff : ℝ) * (len - 1 : Nat) ≤ 9 / 5) :
    0 ≤ number cutoff * number (sinc floatCircular (cutoff * offset len n)) ∧
      number cutoff * number (sinc floatCircular (cutoff * offset len n)) ≤ 2 := by
  obtain ⟨-, hsinc₀, hsinc₁⟩ := sinc_of_short h hd hn hshort
  have hpos := hd.pos
  have hlt := hd.lt_one
  exact ⟨mul_nonneg hpos.le (by linarith), by nlinarith⟩

theorem ideal_of_short (hshort : (number cutoff : ℝ) * (len - 1 : Nat) ≤ 9 / 5) :
    isFinite (cutoff * sinc floatCircular (cutoff * offset len n)) = true ∧
      0 ≤ number (cutoff * sinc floatCircular (cutoff * offset len n)) ∧
        number (cutoff * sinc floatCircular (cutoff * offset len n)) ≤ 2 := by
  obtain ⟨hsinc, hsinc₀, -⟩ := sinc_of_short h hd hn hshort
  have hproduct := (product_of_short h hd hn hshort).2
  exact mul_le_natCast hd.finite hsinc hd.pos.le (by linarith) (n := 2) (by norm_num) hproduct

theorem tap_of_short (hshort : (number cutoff : ℝ) * (len - 1 : Nat) ≤ 9 / 5) :
    isFinite (windowed floatCircular cutoff len n) = true ∧
      0 ≤ number (windowed floatCircular cutoff len n) ∧
        number (windowed floatCircular cutoff len n) ≤ (3 : Nat) := by
  obtain ⟨hwindow, hwindow₀, hwindow₁⟩ := hamming_of_tap h hd hn
  obtain ⟨hideal, hideal₀, hideal₁⟩ := ideal_of_short h hd hn hshort
  rw [windowed_float]
  exact mul_le_natCast hideal hwindow hideal₀ (by linarith) (by norm_num)
    (by push_cast; nlinarith)

theorem tap_pos_of_near (hshort : (number cutoff : ℝ) * (len - 1 : Nat) ≤ 9 / 5)
    (hcentre : |(n : ℝ) - halfLength len| ≤ 1 / 2)
    (hnear : |(n : ℝ) - halfLength len| ≤ halfLength len / 3) :
    0 < number (windowed floatCircular cutoff len n) := by
  have hunit : (0 : ℚ) < 2 ^ (-1074 : Int) := Format.two_zpow_pos _
  have hcutoff := unit_le_number hd.pos
  obtain ⟨hsinc, -, -⟩ := sinc_of_short h hd hn hshort
  have hproduct := (product_of_short h hd hn hshort).2
  have hsinc₀ := sinc_of_centre h hd hn hcentre
  have hwindow₀ : 76 / 100 ≤ number (hamming floatCircular n len) := by
    have hhamming := le_hamming_of_near hn hnear
    have hhigh := (le_abs_self _).trans (abs_hamming_le hn)
    refine (hamming_between h hn hd.len_le (b := 2) ?_ (by norm_num; linarith)).2.1
    norm_num at hhamming ⊢
    linarith
  obtain ⟨hwindow, -, hwindow₁⟩ := hamming_of_tap h hd hn
  obtain ⟨hfinite, -, hideal₁⟩ := ideal_of_short h hd hn hshort
  have hideal₀ := (nearest_mul hd.finite hsinc).unit_le
    (by nlinarith only [hcutoff, hsinc₀, hunit]) (by linarith only [hproduct])
  have htap := (nearest_mul hfinite hwindow).unit_le (by nlinarith only [hideal₀, hwindow₀, hunit])
    (by nlinarith only [hideal₁, hideal₀, hunit, hwindow₀, hwindow₁])
  rw [windowed_float]
  exact hunit.trans_le htap

end Tap

/-! ## Two taps

Seven least units under the end of the window are `0.56` of a unit, which is rounded to one, and six
are `0.48`, which is rounded to none.  No other design comes down to so little, since its middle tap
is under the top of the window. -/

section Pair

theorem pair_near (hn : n < 2) : |(n : ℝ) - halfLength 2| ≤ 1 / 2 := by
  interval_cases n <;> norm_num [halfLength_eq]

variable (hd : Admitted cutoff 2)

include hd

theorem short_of_pair : (number cutoff : ℝ) * (2 - 1 : Nat) ≤ 9 / 5 := by
  have := hd.real_lt_one
  norm_num
  linarith

variable [Trigonometry] (h : Accurate) (hn : n < 2)

include h hn

theorem hamming_of_pair : isFinite (hamming floatCircular n 2) = true ∧
    799 / 10000 ≤ number (hamming floatCircular n 2) ∧
      number (hamming floatCircular n 2) ≤ 801 / 10000 := by
  refine hamming_between h hn hd.len_le ?_ ?_ <;> rw [hamming_pair hn] <;> norm_num

/-- Seven least units are enough for a tap. -/
theorem tap_pos_of_pair (hlow : 7 * 2 ^ (-1074 : Int) ≤ number cutoff) :
    0 < number (windowed floatCircular cutoff 2 n) := by
  have hunit : (0 : ℚ) < 2 ^ (-1074 : Int) := Format.two_zpow_pos _
  obtain ⟨hsinc, -, -⟩ := sinc_of_short h hd hn (short_of_pair hd)
  obtain ⟨-, hproduct₁⟩ := product_of_short h hd hn (short_of_pair hd)
  obtain ⟨hfinite, -, hideal₁⟩ := ideal_of_short h hd hn (short_of_pair hd)
  obtain ⟨hwindow, hwindow₀, hwindow₁⟩ := hamming_of_pair hd h hn
  have hproduct : 693 / 100 * 2 ^ (-1074 : Int) ≤
      number cutoff * number (sinc floatCircular (cutoff * offset 2 n)) := by
    rcases le_total (number cutoff) (1 / 2 ^ 20) with htiny | hlarge
    · have hone := sinc_of_tiny h hd hn (pair_near hn) (by
        simpa using (Rat.cast_le (K := ℝ)).mpr htiny)
      nlinarith only [hone, hlow, hunit]
    · have hcentre := sinc_of_centre h hd hn (pair_near hn)
      have := zpow_bounds.2.1
      nlinarith only [hcentre, hlarge, this]
  have hideal₀ : 642 / 100 * 2 ^ (-1074 : Int) ≤
      number (cutoff * sinc floatCircular (cutoff * offset 2 n)) := by
    have hrounded := ((nearest_mul hd.finite hsinc).number_between
      (by linarith only [hproduct, hunit]) (by linarith only [hproduct₁])).1
    linarith only [hrounded, hproduct, hunit]
  have htap := (nearest_mul hfinite hwindow).unit_le (by nlinarith only [hideal₀, hwindow₀, hunit])
    (by nlinarith only [hideal₁, hideal₀, hunit, hwindow₀, hwindow₁])
  rw [windowed_float]
  exact hunit.trans_le htap

/-- Six are not: both products are rounded down. -/
theorem tap_eq_zero_of_pair (hhigh : number cutoff < 7 * 2 ^ (-1074 : Int)) :
    number (windowed floatCircular cutoff 2 n) = 0 := by
  have hunit : (0 : ℚ) < 2 ^ (-1074 : Int) := Format.two_zpow_pos _
  have hpos := hd.pos
  obtain ⟨hsinc, -, hsinc₁⟩ := sinc_of_short h hd hn (short_of_pair hd)
  obtain ⟨hproduct₀, hproduct₂⟩ := product_of_short h hd hn (short_of_pair hd)
  obtain ⟨hfinite, hideal₀, -⟩ := ideal_of_short h hd hn (short_of_pair hd)
  obtain ⟨hwindow, hwindow₀, hwindow₁⟩ := hamming_of_pair hd h hn
  have hseven : ((6 : Int) : ℚ) + 1 = 7 := by norm_num
  have hcutoff : number cutoff ≤ (6 : Int) * 2 ^ (-1074 : Int) :=
    number_le_of_lt (by rw [hseven]; exact hhigh)
  rw [Int.cast_ofNat] at hcutoff
  have hproduct₁ : number cutoff * number (sinc floatCircular (cutoff * offset 2 n)) ≤
      6006 / 1000 * 2 ^ (-1074 : Int) := by
    nlinarith only [hcutoff, hsinc₁, hpos, hunit]
  have hideal₁ : number (cutoff * sinc floatCircular (cutoff * offset 2 n)) ≤
      (6 : Int) * 2 ^ (-1074 : Int) := by
    have hrounded := ((nearest_mul hd.finite hsinc).number_between hproduct₀
      (by linarith only [hproduct₂])).2
    refine number_le_of_lt ?_
    rw [hseven]
    linarith only [hrounded, hproduct₁, hunit]
  rw [Int.cast_ofNat] at hideal₁
  rw [windowed_float]
  refine (nearest_mul hfinite hwindow).eq_zero ?_
  rw [abs_of_nonneg (mul_nonneg hideal₀ (by linarith only [hwindow₀]))]
  nlinarith only [hideal₀, hideal₁, hwindow₁, hwindow₀, hunit]

end Pair

end Lowpass

end FilterReference
