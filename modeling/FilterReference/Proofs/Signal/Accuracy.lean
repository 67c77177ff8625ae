/-
# The accuracy of the taps

How far the taps of doubles, before they are scaled, are from those of the reals, with an `Accurate`
library.  The distance of a tap from the centre is a double (`offset_exact`).  The window is as good
as the cosine (`hamming_close`), and the impulse response as good as its argument
(`sinc_close_of_precise`), since `sin t / t` moves by no more than twice the part by which `t` does.
So a tap has an error of a small part of the cutoff, as long as the cutoff is not tiny
(`windowed_close`).
-/
import FilterReference.Proofs.Signal.Library
import FilterReference.Proofs.Signal.Taps
import Mathlib

namespace FilterReference

open Binary

namespace Lowpass

/-! ## Constants

The constants of the formulas are the doubles nearest to them.  Each is looked up once as a number,
and after that only its error counts. -/

theorem constants :
    (isFinite (3.141592653589793 : Float) = true ∧
      number (3.141592653589793 : Float) = 884279719003555 / 281474976710656) ∧
    (isFinite (0.54 : Float) = true ∧
      number (0.54 : Float) = 607985949695017 / 1125899906842624) ∧
    (isFinite (0.46 : Float) = true ∧
      number (0.46 : Float) = 8286623314361713 / 18014398509481984) ∧
    (isFinite (0.5 : Float) = true ∧ number (0.5 : Float) = 1 / 2) ∧
    (isFinite (2.0 : Float) = true ∧ number (2.0 : Float) = 2) ∧
    (isFinite (1 : Float) = true ∧ number (1 : Float) = 1) := by
  decide +kernel

theorem pi_precise : Precise 3.141592653589793 Real.pi (1 / 2 ^ 53) := by
  obtain ⟨⟨hfinite, hnumber⟩, -⟩ := constants
  refine ⟨hfinite, ?_⟩
  have hlow := Real.pi_gt_d20
  have hhigh := Real.pi_lt_d20
  rw [hnumber, abs_of_pos Real.pi_pos, abs_le]
  constructor <;> norm_num at * <;> linarith

theorem pi_bounds : isFinite (3.141592653589793 : Float) = true ∧
    1 ≤ number (3.141592653589793 : Float) ∧ number (3.141592653589793 : Float) ≤ 3.1416 := by
  obtain ⟨⟨hfinite, hnumber⟩, -⟩ := constants
  rw [hnumber]
  exact ⟨hfinite, by norm_num, by norm_num⟩

theorem within_two_pi : Within 3 (2 * Real.pi) := by
  right
  rw [abs_of_pos (by positivity)]
  constructor <;> linarith [Real.pi_gt_three, Real.pi_lt_four]

theorem windowBase_close : Close 0.54 0.54 (1 / 2 ^ 53) := by
  obtain ⟨-, ⟨hfinite, hnumber⟩, -⟩ := constants
  refine ⟨hfinite, ?_⟩
  rw [hnumber]
  norm_num [abs_le]

theorem windowSwing_close : Close 0.46 0.46 (1 / 2 ^ 53) := by
  obtain ⟨-, -, ⟨hfinite, hnumber⟩, -⟩ := constants
  refine ⟨hfinite, ?_⟩
  rw [hnumber]
  norm_num [abs_le]

theorem two_precise : Precise 2.0 2 0 := by
  obtain ⟨-, -, -, -, ⟨hfinite, hnumber⟩, -⟩ := constants
  refine ⟨hfinite, ?_⟩
  rw [hnumber]
  norm_num

theorem one_close : Close 1 1 0 := by
  obtain ⟨-, -, -, -, -, hfinite, hnumber⟩ := constants
  refine ⟨hfinite, ?_⟩
  rw [hnumber]
  norm_num

theorem ofCount_precise {n : Nat} (h : n ≤ 2 ^ 53) : Precise (ofCount n) n 0 := by
  refine ⟨(ofCount_exact h).1, ?_⟩
  rw [number_ofCount h]
  simp

/-! ## The true impulse response -/

/-- The impulse response moves by no more than twice the part by which its argument does. -/
theorem abs_mul_sinc_sub_le (a b : ℝ) : |a| * |Real.sinc a - Real.sinc b| ≤ 2 * |a - b| := by
  have hmul : ∀ t : ℝ, t * Real.sinc t = Real.sin t := fun t => by
    rcases eq_or_ne t 0 with rfl | ht
    · simp
    · rw [Real.sinc_of_ne_zero ht, mul_div_cancel₀ _ ht]
  have hsplit : a * (Real.sinc a - Real.sinc b) =
      (Real.sin a - Real.sin b) + (b - a) * Real.sinc b := by
    rw [← hmul a, ← hmul b]
    ring
  have hsin := Real.abs_sin_sub_sin_le a b
  have hsinc : |(b - a) * Real.sinc b| ≤ |a - b| := by
    rw [abs_mul, abs_sub_comm]
    exact mul_le_of_le_one_right (abs_nonneg _) (Real.abs_sinc_le_one b)
  rw [← abs_mul, hsplit]
  linarith [abs_add_le (Real.sin a - Real.sin b) ((b - a) * Real.sinc b)]

variable [Trigonometry] {x cutoff : Float} {len n : Nat}

theorem abs_pi_le : |(number floatCircular.pi : ℝ)| ≤ 3.1416 := by
  have hpi : 1 ≤ number floatCircular.pi ∧ number floatCircular.pi ≤ 3.1416 := pi_bounds.2
  have hhigh := (Rat.cast_le (K := ℝ)).mpr hpi.2
  rw [abs_of_nonneg (by exact_mod_cast zero_le_one.trans hpi.1)]
  refine hhigh.trans ?_
  norm_num

/-! ## The window

The phase goes through several roundings before the cosine sees it, and the cosine moves by no more
than its argument.  So one bound is good for all points. -/

theorem phase_precise (hlen : len ≤ 2 ^ 44) (hone : len ≠ 1) (hn : n < len) :
    Precise (2.0 * floatCircular.pi * floatCircular.ofCount n / floatCircular.ofCount (len - 1))
      (2 * Real.pi * n / (len - 1 : Nat)) (7 / 2 ^ 53) := by
  have hturn : Precise (2.0 * floatCircular.pi) (2 * Real.pi) (3 / 2 ^ 53) :=
    (two_precise.mul pi_precise (by norm_num) (within_two_pi.mono (by norm_num))).mono (by norm_num)
  have hn₁ : n ≤ 2 ^ 44 := by omega
  have hlast₁ : len - 1 ≤ 2 ^ 44 := by omega
  have hturns : Within 47 (2 * Real.pi * n) := within_two_pi.mul (.natCast hn₁)
  have hproduct : Precise (2.0 * floatCircular.pi * floatCircular.ofCount n) (2 * Real.pi * n)
      (5 / 2 ^ 53) :=
    (hturn.mul (ofCount_precise (by omega)) (by norm_num) (hturns.mono (by norm_num))).mono
      (by norm_num)
  have hlast : ((len - 1 : Nat) : ℝ) ≠ 0 := Nat.cast_ne_zero.mpr (by omega)
  have hwithin : Within 91 (2 * Real.pi * n / (len - 1 : Nat)) := hturns.div (.natCast hlast₁)
  exact (hproduct.div (ofCount_precise (by omega)).finite (by rw [number_ofCount (by omega)]; rfl)
    hlast (by norm_num) (hwithin.mono (by norm_num))).mono (by norm_num)

theorem hamming_close (h : Accurate) (hlen : len ≤ 2 ^ 44) (hn : n < len) :
    Close (hamming floatCircular n len) (hamming realCircular n len) (1 / 2 ^ 48) := by
  unfold hamming
  split_ifs with hone
  · exact one_close.mono (by norm_num)
  · have hlast : (1 : ℝ) ≤ (len - 1 : Nat) := by exact_mod_cast (by omega : 1 ≤ len - 1)
    have hsmall : |2 * Real.pi * n / (len - 1 : Nat)| ≤ 8 := by
      have : (n : ℝ) ≤ (len - 1 : Nat) := by exact_mod_cast (by omega : n ≤ len - 1)
      have := Real.pi_lt_four
      rw [abs_of_nonneg (by positivity), div_le_iff₀ (by linarith)]
      nlinarith [Real.pi_pos]
    have hphase := (phase_precise hlen hone hn).close (by norm_num) hsmall
    have hcos := (h.cos_close hphase).mono (ε := 58 / 2 ^ 53) (by norm_num)
    have hcos₁ := Real.abs_cos_le_one (2 * Real.pi * n / (len - 1 : Nat))
    have hswing := (windowSwing_close.mul hcos (a := 0.46) (b := 1) (κ := 28 / 2 ^ 53)
      (by norm_num) hcos₁ (by norm_num) (by norm_num)).mono (ε := 29 / 2 ^ 53) (by norm_num)
    have hwindow : |0.54 - 0.46 * Real.cos (2 * Real.pi * n / (len - 1 : Nat))| ≤ 1 := by
      rw [abs_le] at hcos₁ ⊢
      constructor <;> norm_num <;> linarith
    have hdifference := (windowBase_close.sub hswing (κ := 30 / 2 ^ 53) hwindow (by norm_num)
      (by norm_num)).mono (ε := 1 / 2 ^ 48) (by norm_num)
    rw [two_eq]
    exact hdifference

/-! ## The impulse response

The argument of the sine and its divisor are the same rounded product with the circle constant, so
one error enters in two places.  It is measured as a part of the product, which is also how the
response depends on it. -/

def offset (len n : Nat) : Float := floatCircular.ofCount n - 0.5 * floatCircular.ofCount (len - 1)

theorem windowed_float (cutoff : Float) (len n : Nat) : windowed floatCircular cutoff len n =
    cutoff * sinc floatCircular (cutoff * offset len n) * hamming floatCircular n len := rfl

/-- Twice the distance is an integer, so it is not rounded. -/
theorem offset_exact (hlen : len ≤ 2 ^ 44) (hn : n < len) :
    isFinite (offset len n) = true ∧ (number (offset len n) : ℝ) = n - halfLength len := by
  have hn₁ : n ≤ 2 ^ 53 := by omega
  have hlast₁ : len - 1 ≤ 2 ^ 53 := by omega
  have hhalf : isFinite (0.5 : Float) = true ∧ number (0.5 : Float) = 1 / 2 := constants.2.2.2.1
  have hcentre := (nearest_mul hhalf.1 (ofCount_exact hlast₁).1).of_half (n := (len - 1 : Nat))
    (by rw [hhalf.2, number_ofCount hlast₁, Int.cast_natCast]; ring) (by omega)
  rw [hhalf.2, number_ofCount hlast₁] at hcentre
  have hdistance := (nearest_sub (ofCount_exact hn₁).1 hcentre.1).of_half
    (n := 2 * n - (len - 1 : Nat))
    (by rw [hcentre.2, number_ofCount hn₁]; push_cast; ring) (by omega)
  rw [hcentre.2, number_ofCount hn₁] at hdistance
  refine ⟨hdistance.1, ?_⟩
  change (number (ofCount n - 0.5 * ofCount (len - 1)) : ℝ) = _
  rw [hdistance.2, halfLength_eq]
  push_cast
  ring

/-- The impulse response, against the true one at the phase that was computed for it. -/
theorem sinc_close (h : Accurate) (hx : isFinite x = true) (hsize : |(number x : ℝ)| ≤ 2 ^ 95) :
    Close (sinc floatCircular x) (Real.sinc (number (floatCircular.pi * x))) (4 / 2 ^ 53) := by
  have hpi : isFinite floatCircular.pi = true ∧ 1 ≤ number floatCircular.pi ∧
      number floatCircular.pi ≤ 3.1416 := pi_bounds
  have hphase := nearest_mul hpi.1 hx
  have hfinite : isFinite (floatCircular.pi * x) = true := by
    refine hphase.isFinite_of_real ?_
    rw [Rat.cast_mul, abs_mul]
    calc _ ≤ (3.1416 : ℝ) * 2 ^ 95 := by
          gcongr
          exact abs_pi_le
      _ ≤ 2 ^ 100 := by norm_num
  unfold sinc
  by_cases hzero : (x == 0) = true
  · have hx₀ := number_of_zero (beq_zero_iff.mp hzero)
    rw [hx₀, mul_zero] at hphase
    rw [if_pos hzero, le_antisymm (hphase.number_nonpos le_rfl) (hphase.number_nonneg le_rfl),
      Rat.cast_zero, Real.sinc_zero]
    exact one_close.mono (by norm_num)
  · have hx₀ : magnitude x ≠ 0 := fun hm => hzero (beq_zero_iff.mpr hm)
    have hle : size x ≤ size (floatCircular.pi * x) := by
      refine (nearest_number hx).size_le hphase ?_
      rw [abs_mul, abs_of_nonneg (zero_le_one.trans hpi.2.1)]
      exact le_mul_of_one_le_left (abs_nonneg _) hpi.2.1
    have hne : number (floatCircular.pi * x) ≠ 0 := by
      rw [← abs_pos, abs_number]
      exact (size_pos hx₀).trans_le hle
    have hne' : (number (floatCircular.pi * x) : ℝ) ≠ 0 := by exact_mod_cast hne
    rw [if_neg hzero]
    refine (Close.of_nearest (nearest_div (h.sin _ hfinite).finite hfinite hne)
      (δ := 1 / 2 ^ 52) ?_ ?_).mono ?_
    · rw [Rat.cast_div, Real.sinc_of_ne_zero hne', ← sub_div, abs_div,
        div_le_iff₀ (abs_pos.mpr hne'), one_div_mul_eq_div]
      exact (h.sin _ hfinite).error
    · have := Real.abs_sinc_le_one (number (floatCircular.pi * x))
      linarith
    · have := Real.abs_sinc_le_one (number (floatCircular.pi * x))
      linarith

theorem sinc_close_of_precise (h : Accurate) {r : ℝ} (hx : Precise x r (1 / 2 ^ 53))
    (hr : Within 90 r) :
    Close (sinc floatCircular x) (Real.sinc (Real.pi * r)) (12 / 2 ^ 53) := by
  have hpi : Within 2 Real.pi := by
    right
    rw [abs_of_pos Real.pi_pos]
    constructor <;> linarith [Real.pi_gt_three, Real.pi_lt_four]
  have hphase : Precise (floatCircular.pi * x) (Real.pi * r) (4 / 2 ^ 53) :=
    (pi_precise.mul hx (by norm_num) ((hpi.mul hr).mono (by norm_num))).mono (by norm_num)
  have hcomputed := sinc_close h hx.finite (by
    have := (hx.close (by norm_num) hr.abs_le).abs_number_le
    linarith [hr.abs_le])
  have hmoved : |Real.sinc (number (floatCircular.pi * x)) - Real.sinc (Real.pi * r)| ≤
      8 / 2 ^ 53 := by
    have herror := hphase.error
    rcases eq_or_ne (Real.pi * r) 0 with hzero | hne
    · rw [hzero, abs_zero, mul_zero, sub_zero] at herror
      rw [hzero, abs_eq_zero.mp (le_antisymm herror (abs_nonneg _)), sub_self, abs_zero]
      norm_num
    · have hpart := abs_mul_sinc_sub_le (Real.pi * r) (number (floatCircular.pi * x))
      rw [abs_sub_comm (Real.sinc _), abs_sub_comm (Real.pi * r)] at hpart
      refine le_of_mul_le_mul_left ?_ (abs_pos.mpr hne)
      linarith
  refine ⟨hcomputed.finite, ?_⟩
  have htriangle := abs_sub_le (number (sinc floatCircular x) : ℝ)
    (Real.sinc (number (floatCircular.pi * x))) (Real.sinc (Real.pi * r))
  linarith [hcomputed.error]

/-! ## The taps

A tap is a product of three doubles near their true values.  While the cutoff is not tiny, no
product comes near the least numbers, where an error is no longer a part of what is rounded. -/

/-- A cutoff between zero and one, and no more taps than an address space of 47 bits has places
for. -/
structure Admitted (cutoff : Float) (len : Nat) : Prop where
  finite : isFinite cutoff = true
  pos : 0 < number cutoff
  lt_one : number cutoff < 1
  len_le : len ≤ 2 ^ 44

omit [Trigonometry] in
theorem Admitted.real_pos (hd : Admitted cutoff len) : (0 : ℝ) < number cutoff := by
  exact_mod_cast hd.pos

omit [Trigonometry] in
theorem Admitted.real_lt_one (hd : Admitted cutoff len) : (number cutoff : ℝ) < 1 := by
  exact_mod_cast hd.lt_one

/-- **The error of a tap**, as a part of the cutoff. -/
theorem windowed_close (h : Accurate) (hd : Admitted cutoff len) (hn : n < len)
    (hlow : (1 : ℝ) / 2 ^ 44 ≤ number cutoff) :
    Close (windowed floatCircular cutoff len n) (windowed realCircular (number cutoff) len n)
      (1 / 2 ^ 47 * number cutoff) := by
  have hlen := hd.len_le
  have hfinite := hd.finite
  have hlt := hd.real_lt_one
  obtain ⟨hm, hdistance⟩ := offset_exact hlen hn
  have hpos := hd.real_pos
  have habs : |(number cutoff : ℝ)| = number cutoff := abs_of_pos hpos
  have hwithin : Within 44 (number cutoff : ℝ) := by
    right
    rw [habs]
    exact ⟨hlow, by linarith⟩
  have hhalves : Within 45 ((n : ℝ) - halfLength len) := by
    have hcast : (n : ℝ) - halfLength len = ((2 * n - (len - 1 : Nat) : Int) : ℝ) / (2 : Nat) := by
      rw [halfLength_eq]
      push_cast
      ring
    rw [hcast]
    have htwice : Within 44 ((2 * n - (len - 1 : Nat) : Int) : ℝ) := .intCast (by omega)
    have htwo : Within 1 ((2 : Nat) : ℝ) := .natCast le_rfl
    exact htwice.div htwo
  have hproduct := hwithin.mul hhalves
  have hargument := ((Precise.self hfinite).mul (Precise.self hm) (by norm_num)
    (by rw [hdistance]; exact hproduct.mono (by norm_num))).mono (β := 1 / 2 ^ 53) (by norm_num)
  rw [hdistance] at hargument
  have hsinc := sinc_close_of_precise h hargument (hproduct.mono (by norm_num))
  have hideal := ((Precise.self hfinite).close le_rfl habs.le).mul hsinc habs.le
    (Real.abs_sinc_le_one _) (κ := 12 / 2 ^ 53 * number cutoff) (by linarith) (by linarith)
  have hideal := hideal.mono (ε := 14 / 2 ^ 53 * number cutoff) (by linarith)
  have hsmall : |(number cutoff : ℝ) *
      Real.sinc (Real.pi * (number cutoff * (n - halfLength len)))| ≤ number cutoff := by
    rw [abs_mul, habs]
    exact mul_le_of_le_one_right hpos.le (Real.abs_sinc_le_one _)
  have htap := hideal.mul (hamming_close h hlen hn) hsmall (abs_hamming_le hn)
    (κ := 47 / 2 ^ 53 * number cutoff) (by linarith) (by linarith)
  rw [windowed_eq]
  exact htap.mono (by linarith)

end Lowpass

end FilterReference
