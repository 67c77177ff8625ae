/-
# The true taps

The taps of a design before they are scaled, read over the reals.  A tap is the impulse response at
its distance from the centre, under a window that falls from one to eight hundredths (`windowed_eq`,
`hamming_eq`).  The two sides of the centre are the same, so a sum over the taps is one over
distances (`response_sum_fold`), where a tap is a sine under a `profile` that only falls
(`windowed_upper`).  It follows that the sizes of the taps do not add up to much, of however many
(`sum_abs_windowed_le`).
-/
import FilterReference.Proofs.Signal.LinearPhase
import Mathlib

namespace FilterReference

namespace Lowpass

open Finset

/-- The Hamming window at a distance from its centre, relative to half its length. -/
noncomputable def window (y : ℝ) : ℝ := 0.54 + 0.46 * Real.cos (Real.pi * y)

theorem window_le_one (y : ℝ) : window y ≤ 1 := by
  have := Real.cos_le_one (Real.pi * y)
  norm_num [window]
  linarith

theorem le_window (y : ℝ) : 0.08 ≤ window y := by
  have := Real.neg_one_le_cos (Real.pi * y)
  norm_num [window]
  linarith

theorem window_pos (y : ℝ) : 0 < window y := lt_of_lt_of_le (by norm_num) (le_window y)

theorem window_abs (y : ℝ) : window |y| = window y := by
  rw [window, window, ← abs_of_pos Real.pi_pos, ← abs_mul, Real.cos_abs, abs_of_pos Real.pi_pos]

theorem window_one : window 1 = 0.08 := by
  norm_num [window]

theorem window_zero : window 0 = 1 := by
  norm_num [window]

theorem window_anti {a b : ℝ} (ha : 0 ≤ a) (hab : a ≤ b) (hb : b ≤ 1) : window b ≤ window a := by
  have hpi := Real.pi_pos
  have hcos : Real.cos (Real.pi * b) ≤ Real.cos (Real.pi * a) :=
    Real.cos_le_cos_of_nonneg_of_le_pi (by positivity) (mul_le_of_le_one_right hpi.le hb) (by gcongr)
  unfold window
  gcongr

theorem window_third : window (1 / 3) = 0.77 := by
  rw [window, mul_one_div, Real.cos_pi_div_three]
  norm_num

theorem window_half : window (1 / 2) = 0.54 := by
  rw [window, mul_one_div, Real.cos_pi_div_two]
  norm_num

theorem window_two_thirds : window (2 / 3) = 0.31 := by
  have hcos : Real.cos (Real.pi * (2 / 3)) = -(1 / 2) := by
    rw [show Real.pi * (2 / 3) = Real.pi - Real.pi / 3 by ring, Real.cos_pi_sub,
      Real.cos_pi_div_three]
  rw [window, hcos]
  norm_num

/-- The distance of the last tap from the centre. -/
noncomputable def halfLength (len : Nat) : ℝ := 0.5 * (len - 1 : Nat)

theorem halfLength_eq (len : Nat) : halfLength len = (len - 1 : Nat) / 2 := by
  rw [halfLength, half_eq, inv_mul_eq_div]

theorem hamming_eq {len n : Nat} (hlen : len ≠ 1) (hn : n < len) :
    hamming realCircular n len = window ((n - halfLength len) / halfLength len) := by
  have hpos : (0 : ℝ) < (len - 1 : Nat) := by
    exact_mod_cast (by omega : 0 < len - 1)
  have hturn : 2 * Real.pi * n / (len - 1 : Nat) =
      Real.pi * ((n - halfLength len) / halfLength len) + Real.pi := by
    simp only [halfLength_eq]
    field_simp
    ring
  rw [hamming, if_neg hlen, window, two_eq]
  change 0.54 - 0.46 * Real.cos (2 * Real.pi * (n : ℝ) / ((len - 1 : Nat) : ℝ)) = _
  rw [hturn, Real.cos_add_pi]
  ring

/-! ## The taps -/

variable {cutoff : ℝ} {len n : Nat}

theorem sinc_eq (x : ℝ) : sinc realCircular x = Real.sinc (Real.pi * x) := by
  have hpi := Real.pi_ne_zero
  by_cases hx : x = 0 <;> simp [sinc, realCircular, Real.sinc_apply, hx]

theorem windowed_eq (cutoff : ℝ) (len n : Nat) :
    windowed realCircular cutoff len n =
      cutoff * Real.sinc (Real.pi * (cutoff * (n - halfLength len))) *
        hamming realCircular n len := by
  have hhalf : (0.5 : ℝ) * (len - 1 : Nat) = halfLength len := by
    rw [half_eq, halfLength_eq]
    ring
  unfold windowed
  dsimp only
  rw [sinc_eq]
  change cutoff * Real.sinc (Real.pi * (cutoff * ((n : ℝ) - 0.5 * ((len - 1 : Nat) : ℝ)))) * _ = _
  rw [hhalf]

theorem le_hamming (hn : n < len) : 0.08 ≤ hamming realCircular n len := by
  rcases eq_or_ne len 1 with rfl | hlen
  · norm_num [hamming]
  · rw [hamming_eq hlen hn]
    exact le_window _

theorem le_hamming_of_near (hn : n < len) (hnear : |(n : ℝ) - halfLength len| ≤ halfLength len / 3) :
    0.77 ≤ hamming realCircular n len := by
  rcases eq_or_ne len 1 with rfl | hlen
  · norm_num [hamming]
  · have hhalf : 0 < halfLength len := by
      have : (1 : ℝ) ≤ (len - 1 : Nat) := by exact_mod_cast (by omega : 1 ≤ len - 1)
      simp only [halfLength_eq]
      linarith
    rw [hamming_eq hlen hn, ← window_abs, ← window_third]
    refine window_anti (abs_nonneg _) ?_ (by norm_num)
    rw [abs_div, abs_of_pos hhalf, div_le_iff₀ hhalf]
    linarith

theorem centre_near (hlen : len ≠ 2) :
    |(((len - 1) / 2 : Nat) : ℝ) - halfLength len| ≤ 1 / 2 ∧
      |(((len - 1) / 2 : Nat) : ℝ) - halfLength len| ≤ halfLength len / 3 := by
  obtain ⟨k, e, he, hk⟩ : ∃ k e, e < 2 ∧ len - 1 = 2 * k + e :=
    ⟨(len - 1) / 2, (len - 1) % 2, by omega, by omega⟩
  have hhalf : halfLength len = k + (e : ℝ) / 2 := by
    rw [halfLength_eq, hk]
    push_cast
    ring
  have hcentre : (len - 1) / 2 = k := by omega
  have hoffset : ((k : ℝ) - (k + (e : ℝ) / 2)) = -(e / 2) := by ring
  rw [hcentre, hhalf, hoffset, abs_neg, abs_of_nonneg (by positivity)]
  obtain rfl | rfl : e = 0 ∨ e = 1 := by omega
  · constructor
    · norm_num
    · norm_num
      positivity
  · have : (1 : ℝ) ≤ k := by exact_mod_cast (by omega : 1 ≤ k)
    norm_num
    linarith

theorem hamming_pair (hn : n < 2) : hamming realCircular n 2 = 0.08 := by
  have hend : |((n : ℝ) - halfLength 2) / halfLength 2| = 1 := by
    interval_cases n <;> norm_num [halfLength_eq]
  rw [hamming_eq (by norm_num) hn, ← window_abs, hend, window_one]

theorem abs_hamming_le (hn : n < len) : |hamming realCircular n len| ≤ 1 := by
  rcases eq_or_ne len 1 with rfl | hlen
  · simp [hamming]
  · rw [hamming_eq hlen hn, abs_of_pos (window_pos _)]
    exact window_le_one _

theorem abs_windowed_le (hpos : 0 < cutoff) (hn : n < len) :
    |windowed realCircular cutoff len n| ≤ cutoff := by
  rw [windowed_eq, abs_mul, abs_mul, abs_of_pos hpos]
  have hsinc := Real.abs_sinc_le_one (Real.pi * (cutoff * (n - halfLength len)))
  calc cutoff * |Real.sinc (Real.pi * (cutoff * (n - halfLength len)))| *
        |hamming realCircular n len| ≤ cutoff * 1 * 1 := by
        gcongr
        exact abs_hamming_le hn
    _ = cutoff := by ring

/-! ## The profile

Where the window ends, the profile is continued by zero.  It falls on the way there and stays, which
makes it falling everywhere, and sums against it need no care at their ends. -/

/-- The window over the distance, up to the last tap. -/
noncomputable def profile (half d : ℝ) : ℝ := if d ≤ half then window (d / half) / d else 0

theorem profile_nonneg (half : ℝ) {d : ℝ} (hd : 0 ≤ d) : 0 ≤ profile half d := by
  unfold profile
  split_ifs
  · exact div_nonneg (window_pos _).le hd
  · exact le_refl _

theorem profile_le (half : ℝ) {d : ℝ} (hd : 0 < d) : profile half d ≤ 1 / d := by
  unfold profile
  split_ifs
  · gcongr
    exact window_le_one _
  · positivity

theorem profile_anti {half a b : ℝ} (ha : 0 < a) (hab : a ≤ b) :
    profile half b ≤ profile half a := by
  by_cases hb : b ≤ half
  · have hhalf : 0 < half := ha.trans_le (hab.trans hb)
    rw [profile, if_pos hb, profile, if_pos (hab.trans hb)]
    have hwindow : window (b / half) ≤ window (a / half) :=
      window_anti (by positivity) (by gcongr) ((div_le_one hhalf).mpr hb)
    have := (window_pos (b / half)).le
    gcongr
    exact (window_pos _).le
  · rw [profile, if_neg hb]
    exact profile_nonneg _ ha.le

theorem one_le_profile_sub {half : ℝ} (h : 3 / 2 ≤ half) :
    1 ≤ profile half (1 / 2) - profile half (3 / 2) := by
  have hnear : 0.77 ≤ window (1 / 2 / half) := by
    rw [← window_third]
    refine window_anti (by positivity) ?_ (by norm_num)
    rw [div_le_iff₀ (by linarith)]
    linarith
  have hfall : window (3 / 2 / half) ≤ window (1 / 2 / half) :=
    window_anti (by positivity) (by gcongr; norm_num) ((div_le_one (by linarith)).mpr h)
  rw [profile, if_pos (by linarith), profile, if_pos h]
  linarith

/-- From the distance where the main lobe ends to where the first side lobe does, the profile falls
by a part of the cutoff. -/
theorem cutoff_le_profile_sub {half a b : ℝ} (hcutoff : 0 < cutoff) (hhalf : 9 / 10 ≤ cutoff * half)
    (ha : 0 < a) (hlow : cutoff * a ≤ 3 / 5) (hhigh : 7 / 5 ≤ cutoff * b) :
    51 / 100 * cutoff ≤ profile half a - profile half b := by
  have hhalf₀ : 0 < half := pos_of_mul_pos_right (by linarith) hcutoff.le
  have hinside : a ≤ half := by nlinarith
  have hcutoff_le : cutoff ≤ 3 / 5 / a := (le_div_iff₀ ha).mpr hlow
  rw [profile, if_pos hinside]
  by_cases hb : b ≤ half
  · have hb₀ : 0 < b := pos_of_mul_pos_right (by linarith) hcutoff.le
    have hnear : 0.54 ≤ window (a / half) := by
      rw [← window_half]
      refine window_anti (by positivity) ?_ (by norm_num)
      rw [div_le_iff₀ hhalf₀]
      nlinarith
    have hfall : window (b / half) ≤ window (a / half) := by
      refine window_anti (by positivity) ?_ ((div_le_one hhalf₀).mpr hb)
      gcongr
      nlinarith
    have hdrop : 20 / 21 * cutoff ≤ 1 / a - 1 / b := by
      have : 1 / b ≤ cutoff / (7 / 5) := by
        rw [div_le_div_iff₀ hb₀ (by norm_num)]
        linarith
      have : cutoff / (3 / 5) ≤ 1 / a := by
        rw [div_le_div_iff₀ (by norm_num) ha]
        linarith
      linarith
    rw [profile, if_pos hb]
    calc 51 / 100 * cutoff ≤ 0.54 * (20 / 21 * cutoff) := by linarith
      _ ≤ window (a / half) * (1 / a - 1 / b) := by gcongr
      _ = window (a / half) / a - window (a / half) / b := by ring
      _ ≤ window (a / half) / a - window (b / half) / b := by gcongr
  · have hnear : 0.31 ≤ window (a / half) := by
      rw [← window_two_thirds]
      refine window_anti (by positivity) ?_ (by norm_num)
      rw [div_le_iff₀ hhalf₀]
      nlinarith
    rw [profile, if_neg hb, sub_zero, le_div_iff₀ ha]
    linarith

/-! ## Folding

A design has a tap in the middle or two of them beside it.  Both are covered by a number `e` of taps
that are not folded, and distances count from there in steps of one. -/

variable {e K : Nat}

/-- The distances on one side of the centre, in the middle of an even number of taps and of an odd
one. -/
noncomputable def distance (e i : Nat) : ℝ := i + 0.5 * (e + 1)

theorem distance_eq (e i : Nat) : distance e i = i + (e + 1) / 2 := by
  rw [distance, half_eq, inv_mul_eq_div]

theorem distance_pos (e i : Nat) : 0 < distance e i := by
  simp only [distance_eq]
  positivity

theorem distance_mono (e : Nat) : Monotone (distance e) := fun i j hij => by
  rw [distance_eq, distance_eq]
  gcongr

theorem halfLength_fold (h : 0 < 2 * K + e) : halfLength (2 * K + e) = K + (e - 1) / 2 := by
  rw [halfLength_eq, Nat.cast_sub h]
  push_cast
  ring

theorem windowed_upper (cutoff : ℝ) (e : Nat) {i : Nat} (hi : i < K) :
    windowed realCircular cutoff (2 * K + e) (K + e + i) =
      profile (halfLength (2 * K + e)) (distance e i) *
        Real.sin (Real.pi * cutoff * distance e i) / Real.pi := by
  have hd := distance_pos e i
  have hoffset : ((K + e + i : Nat) : ℝ) - halfLength (2 * K + e) = distance e i := by
    rw [halfLength_fold (by omega), distance_eq]
    push_cast
    ring
  have hinside : distance e i ≤ halfLength (2 * K + e) := by
    have : (i : ℝ) + 1 ≤ K := by exact_mod_cast hi
    rw [halfLength_fold (by omega), distance_eq]
    linarith
  rw [windowed_eq, hamming_eq (by omega) (by omega), hoffset, profile, if_pos hinside]
  rcases eq_or_ne cutoff 0 with rfl | hcutoff
  · simp
  · have hpi := Real.pi_ne_zero
    rw [Real.sinc_of_ne_zero (by positivity)]
    field_simp

/-- What is the same from both ends sums up to the middle and twice the far side. -/
theorem sum_fold {f : ℕ → ℝ} (e K : Nat) (hf : ∀ n, n < 2 * K + e → f (2 * K + e - 1 - n) = f n) :
    ∑ n ∈ range (2 * K + e), f n =
      ∑ j ∈ range e, f (K + j) + 2 * ∑ i ∈ range K, f (K + e + i) := by
  have hlower : ∑ i ∈ range K, f i = ∑ i ∈ range K, f (K + e + i) := by
    rw [← sum_range_reflect]
    refine sum_congr rfl fun i hi => ?_
    have hi := mem_range.mp hi
    rw [← hf _ (by omega : K + e + i < 2 * K + e),
      show 2 * K + e - 1 - (K + e + i) = K - 1 - i by omega]
  rw [show 2 * K + e = K + e + K by ring, sum_range_add, sum_range_add, hlower]
  ring

theorem response_sum_fold (cutoff : ℝ) (e K : Nat) :
    (response realCircular cutoff (2 * K + e)).sum =
      ∑ j ∈ range e, windowed realCircular cutoff (2 * K + e) (K + j) +
        2 * ∑ i ∈ range K, windowed realCircular cutoff (2 * K + e) (K + e + i) := by
  rw [response_sum]
  exact sum_fold e K fun n => windowed_reflect isCircle_realCircular two_ne_zero

/-! ## The sizes of the taps

A tap is no larger than one part in its distance, so the sizes add up to a logarithm of their
number.  That is a small number, of however many taps there can be places for. -/

theorem sum_inv_distance_le {e : Nat} (hK : K ≤ 2 ^ 43) :
    ∑ i ∈ range K, 1 / distance e i ≤ 33 := by
  have hlog : Real.log 2 < 0.694 := Real.log_two_lt_d9.trans (by norm_num)
  cases K with
  | zero => norm_num
  | succ K =>
      have hfirst : 1 / distance e 0 ≤ 2 := by
        rw [div_le_iff₀ (distance_pos e 0), distance_eq]
        have : (0 : ℝ) ≤ e := by positivity
        norm_num
        linarith
      have hnext : ∀ i : Nat, 1 / distance e (i + 1) ≤ ((i : ℝ) + 1)⁻¹ := fun i => by
        rw [← one_div]
        gcongr
        simp only [distance_eq]
        push_cast
        have : (0 : ℝ) ≤ e := by positivity
        linarith
      have hharmonic : ∑ i ∈ range K, ((i : ℝ) + 1)⁻¹ ≤ 1 + Real.log K := by
        simpa [harmonic] using harmonic_le_one_add_log K
      have hK' : Real.log K ≤ 43 * Real.log 2 := by
        rcases Nat.eq_zero_or_pos K with rfl | hpos
        · have := Real.log_pos one_lt_two
          norm_num
          linarith
        · rw [← Real.log_rpow two_pos]
          refine Real.log_le_log (by exact_mod_cast hpos) ?_
          have : (K : ℝ) ≤ 2 ^ 43 := by exact_mod_cast (by omega : K ≤ 2 ^ 43)
          norm_num at this ⊢
          linarith
      rw [sum_range_succ']
      have := sum_le_sum fun i (_ : i ∈ range K) => hnext i
      linarith

theorem sum_abs_windowed_le (hpos : 0 < cutoff) (hlt : cutoff < 1) (hlen : len ≤ 2 ^ 44) :
    ∑ n ∈ range len, |windowed realCircular cutoff len n| ≤ 23 := by
  obtain ⟨K, e, he, rfl⟩ : ∃ K e, e ≤ 1 ∧ len = 2 * K + e :=
    ⟨len / 2, len % 2, by omega, by omega⟩
  have hpi := Real.pi_pos
  have hcentre : ∑ j ∈ range e, |windowed realCircular cutoff (2 * K + e) (K + j)| ≤ 1 := by
    calc _ ≤ ∑ _j ∈ range e, (1 : ℝ) := sum_le_sum fun j hj =>
          (abs_windowed_le hpos (by have := mem_range.mp hj; omega)).trans hlt.le
      _ ≤ 1 := by
          rw [sum_const, card_range, nsmul_eq_mul, mul_one]
          exact_mod_cast he
  have hupper : ∀ i ∈ range K, |windowed realCircular cutoff (2 * K + e) (K + e + i)| ≤
      1 / Real.pi * (1 / distance e i) := fun i hi => by
    have hd := distance_pos e i
    rw [windowed_upper cutoff e (mem_range.mp hi), abs_div, abs_mul, abs_of_pos hpi,
      abs_of_nonneg (profile_nonneg _ hd.le), div_eq_inv_mul, ← one_div]
    gcongr
    refine (mul_le_of_le_one_right (profile_nonneg _ hd.le) (Real.abs_sin_le_one _)).trans ?_
    exact profile_le _ hd
  have hsum := sum_le_sum hupper
  rw [← mul_sum] at hsum
  have hinv := sum_inv_distance_le (e := e) (by omega : K ≤ 2 ^ 43)
  have hthird : 1 / Real.pi * ∑ i ∈ range K, 1 / distance e i ≤ 1 / 3 * 33 := by
    have : 1 / Real.pi ≤ 1 / 3 := by
      gcongr
      exact Real.pi_gt_three.le
    have : 0 ≤ ∑ i ∈ range K, 1 / distance e i := sum_nonneg fun i _ =>
      (one_div_pos.mpr (distance_pos e i)).le
    gcongr
  rw [sum_fold e K fun n hn => by
    rw [windowed_reflect isCircle_realCircular two_ne_zero hn]]
  linarith

end Lowpass

end FilterReference
