/-
# What becomes of a design

The taps of a design are divided by their own sum, rounded, so they are finite if that is not zero.
Two things can bring it there: terms that cancel, and terms that are lost.

In a long design, of which the side lobes have signs, the sum of the true taps is a tenth at least,
and all that rounding does to the taps and to their sum is less than that (`gain_of_long`).  For
this the taps must be so few that there can be places for them.  In a short one nothing cancels
(`gain_of_short`), and all taps are lost in one case only: two taps for a cutoff of less than seven
least units (`Starved`).  The rest is put together in `design_outcome`.
-/
import FilterReference.Proofs.Signal.Checks
import FilterReference.Proofs.Signal.Gain
import FilterReference.Proofs.Signal.ShortDesigns
import Mathlib

namespace FilterReference

open Binary

namespace Lowpass

open Finset (range sum_le_sum)

theorem isFinite_neg_zero : isFinite (-0) = true ∧ number (-0) = 0 :=
  ⟨rfl, number_of_zero rfl⟩

section Library

variable [Trigonometry] {cutoff : Float} {len n : Nat}

/-- The sum that the taps are divided by. -/
def gain (cutoff : Float) (len : Nat) : Float :=
  (response floatCircular cutoff len).foldl (· + ·) (-0)

theorem taps_floatCircular (cutoff : Float) (len : Nat) :
    taps floatCircular cutoff len =
      (List.range len).map fun n => windowed floatCircular cutoff len n / gain cutoff len := by
  rw [taps]
  conv_lhs => rw [response, List.map_map]
  rfl

theorem taps_finite_iff : (∀ tap ∈ taps floatCircular cutoff len, isFinite tap = true) ↔
    ∀ n, n < len → isFinite (windowed floatCircular cutoff len n / gain cutoff len) = true := by
  rw [taps_floatCircular]
  simp

theorem response_map_sum (f : Float → ℚ) (cutoff : Float) (len : Nat) :
    ((response floatCircular cutoff len).map f).sum =
      ∑ n ∈ range len, f (windowed floatCircular cutoff len n) := by
  rw [response, List.map_map]
  rfl

/-! ## Long designs

The taps have signs, so their sum has to be kept from zero by estimates.  Against what the true sum
is worth stand the errors of the taps, a part of the cutoff, and those of the summation, a part of
what the taps are worth by size. -/

section Long

variable (h : Accurate) (hd : Admitted cutoff len)
  (hlong : 9 / 5 ≤ (number cutoff : ℝ) * (len - 1 : Nat))

include hd hlong

omit [Trigonometry] in
theorem cutoff_of_long : (1 : ℝ) / 2 ^ 44 ≤ number cutoff := by
  have hpos := hd.real_pos
  have hlen := hd.len_le
  have hlast : ((len - 1 : Nat) : ℝ) ≤ 2 ^ 44 := by exact_mod_cast (by omega : len - 1 ≤ 2 ^ 44)
  rw [div_le_iff₀ (by norm_num)]
  nlinarith

omit [Trigonometry] in
theorem three_le_of_long : 3 ≤ len := by
  have hlast : (1 : ℝ) < (len - 1 : Nat) := by nlinarith [hd.real_pos, hd.real_lt_one]
  have : 1 < len - 1 := by exact_mod_cast hlast
  omega

include h

theorem sum_errors_of_long :
    ∑ n ∈ range len, |(number (windowed floatCircular cutoff len n) : ℝ) -
      windowed realCircular (number cutoff) len n| ≤ 1 / 8 * number cutoff := by
  have hlow := cutoff_of_long hd hlong
  have hpos := hd.real_pos
  calc _ ≤ ∑ _n ∈ range len, 1 / 2 ^ 47 * (number cutoff : ℝ) := sum_le_sum fun n hn =>
        (windowed_close h hd (Finset.mem_range.mp hn) hlow).error
    _ = len * (1 / 2 ^ 47 * number cutoff) := by
        rw [Finset.sum_const, Finset.card_range, nsmul_eq_mul]
    _ ≤ 2 ^ 44 * (1 / 2 ^ 47 * number cutoff) := by
        gcongr
        exact_mod_cast hd.len_le
    _ = 1 / 8 * number cutoff := by ring

theorem sum_abs_of_long :
    ∑ n ∈ range len, |(number (windowed floatCircular cutoff len n) : ℝ)| ≤ 24 := by
  have herrors := sum_errors_of_long h hd hlong
  have hsizes := sum_abs_windowed_le hd.real_pos hd.real_lt_one hd.len_le
  have hlt := hd.real_lt_one
  calc _ ≤ ∑ n ∈ range len, (|(number (windowed floatCircular cutoff len n) : ℝ) -
          windowed realCircular (number cutoff) len n| +
        |windowed realCircular (number cutoff) len n|) := sum_le_sum fun n _ => by
          have := abs_sub_abs_le_abs_sub (number (windowed floatCircular cutoff len n) : ℝ)
            (windowed realCircular (number cutoff) len n)
          linarith
    _ ≤ 24 := by
        rw [Finset.sum_add_distrib]
        linarith

omit h hlong [Trigonometry] in
theorem growth_of_admitted : growth len ≤ 1 / 511 := by
  have hlen := hd.len_le
  have hlen' : (len : ℚ) ≤ 2 ^ 44 := by exact_mod_cast hlen
  refine (growth_le (by omega)).trans ?_
  rw [div_le_div_iff₀ (by linarith) (by norm_num)]
  linarith

theorem gain_error_of_long :
    isFinite (gain cutoff len) = true ∧
      |(number (gain cutoff len) : ℝ) -
        ∑ n ∈ range len, (number (windowed floatCircular cutoff len n) : ℝ)| ≤ 24 / 511 := by
  have hgrowth := growth_of_admitted hd
  have hsizes : ((response floatCircular cutoff len).map fun x => |number x|).sum ≤ 24 := by
    rw [response_map_sum]
    exact_mod_cast sum_abs_of_long h hd hlong
  have hsizes₀ : 0 ≤ ((response floatCircular cutoff len).map fun x => |number x|).sum :=
    List.sum_nonneg (by simp)
  have hlength : (response floatCircular cutoff len).length = len := by simp [response]
  have hall : ∀ x ∈ response floatCircular cutoff len, isFinite x = true := by
    intro x hx
    obtain ⟨n, hn, rfl⟩ := List.mem_map.mp hx
    exact (windowed_close h hd (List.mem_range.mp hn) (cutoff_of_long hd hlong)).finite
  have hroom : (1 + 1 / 2 ^ 53) ^ (response floatCircular cutoff len).length *
      (|number (-0)| + ((response floatCircular cutoff len).map fun x => |number x|).sum) ≤
        2 ^ (1023 : Int) := by
    rw [hlength, isFinite_neg_zero.2, abs_zero, zero_add]
    unfold growth at hgrowth
    calc (1 + 1 / 2 ^ 53 : ℚ) ^ len * ((response floatCircular cutoff len).map fun x => |number x|).sum
        ≤ 2 * 24 := by
          gcongr
          linarith
      _ ≤ 2 ^ (100 : Nat) := by norm_num
      _ ≤ 2 ^ (1023 : Int) := zpow_bounds.1
  obtain ⟨hgain, herror⟩ := foldl_add_error isFinite_neg_zero.1 hall hroom
  rw [isFinite_neg_zero.2, abs_zero, zero_add, zero_add, hlength, response_map_sum] at herror
  have hbound := herror.trans (mul_le_mul hgrowth hsizes hsizes₀ (by norm_num))
  have hcast := (Rat.cast_le (K := ℝ)).mpr hbound
  push_cast at hcast
  exact ⟨hgain, hcast.trans (by norm_num)⟩

/-- **The gain of a long design** is not lost. -/
theorem gain_of_long :
    isFinite (gain cutoff len) = true ∧ 1 / 500 ≤ (number (gain cutoff len) : ℝ) := by
  obtain ⟨hgain, hrounded⟩ := gain_error_of_long h hd hlong
  have htrue : |∑ n ∈ range len, (number (windowed floatCircular cutoff len n) : ℝ) -
      (response realCircular (number cutoff) len).sum| ≤ 1 / 8 * number cutoff := by
    rw [response_sum, ← Finset.sum_sub_distrib]
    exact (Finset.abs_sum_le_sum_abs _ _).trans (sum_errors_of_long h hd hlong)
  have htenth := tenth_le_gain hd.real_pos hd.real_lt_one hlong
  have hcutoff := cutoff_le_gain hd.real_pos hd.real_lt_one (three_le_of_long hd hlong)
  refine ⟨hgain, ?_⟩
  rw [abs_le] at hrounded htrue
  linarith

theorem tap_of_long (hn : n < len) :
    isFinite (windowed floatCircular cutoff len n / gain cutoff len) = true := by
  obtain ⟨hgain, hlow⟩ := gain_of_long h hd hlong
  have htap := windowed_close h hd hn (cutoff_of_long hd hlong)
  have hne : number (gain cutoff len) ≠ 0 := by
    intro hzero
    rw [hzero, Rat.cast_zero] at hlow
    linarith
  have hsize : |(number (windowed floatCircular cutoff len n) : ℝ)| ≤ 2 := by
    have := abs_windowed_le hd.real_pos hn
    have := htap.abs_number_le
    have := hd.real_lt_one
    linarith
  refine (nearest_div htap.finite hgain hne).isFinite_of_real ?_
  rw [Rat.cast_div, abs_div, div_le_iff₀ (by positivity),
    abs_of_pos (a := (number (gain _ _) : ℝ)) (by linarith)]
  linarith

end Long

/-! ## Short designs

Without signs a sum is no less than any of its terms.  So it is zero only if all of them are, and a
tap divided by it is no more than one. -/

section Short

variable (h : Accurate) (hd : Admitted cutoff len)
  (hshort : (number cutoff : ℝ) * (len - 1 : Nat) ≤ 9 / 5)

include h hd hshort

/-- No tap of a short design has a sign, so the gain is no less than each of them. -/
theorem gain_of_short :
    isFinite (gain cutoff len) = true ∧ ∀ n, n < len →
      number (windowed floatCircular cutoff len n) ≤ number (gain cutoff len) := by
  have hlen := hd.len_le
  have hlength : (response floatCircular cutoff len).length = len := by simp [response]
  have hall : ∀ x ∈ response floatCircular cutoff len,
      isFinite x = true ∧ 0 ≤ number x ∧ number x ≤ (3 : Nat) := by
    intro x hx
    obtain ⟨n, hn, rfl⟩ := List.mem_map.mp hx
    exact tap_of_short h hd (List.mem_range.mp hn) hshort
  obtain ⟨hfinite, -, hle⟩ := foldl_add_nonneg (n := 0) isFinite_neg_zero.1 isFinite_neg_zero.2.ge
    (by rw [isFinite_neg_zero.2]; norm_num) hall (by rw [hlength]; omega)
  exact ⟨hfinite, fun n hn => hle _ (List.mem_map.mpr ⟨n, List.mem_range.mpr hn, rfl⟩)⟩

/-- The taps of a short design are finite, if one of them is not lost. -/
theorem tap_of_pos (hkept : ∃ m, m < len ∧ 0 < number (windowed floatCircular cutoff len m))
    (hn : n < len) : isFinite (windowed floatCircular cutoff len n / gain cutoff len) = true := by
  obtain ⟨hgain, hle⟩ := gain_of_short h hd hshort
  obtain ⟨m, hm, hpos⟩ := hkept
  obtain ⟨hfinite, hnonneg, -⟩ := tap_of_short h hd hn hshort
  have hgain₀ : 0 < number (gain cutoff len) := hpos.trans_le (hle m hm)
  refine (nearest_div hfinite hgain hgain₀.ne').isFinite (le_trans ?_ zpow_bounds.1)
  rw [abs_of_nonneg (div_nonneg hnonneg hgain₀.le)]
  exact ((div_le_one hgain₀).mpr (hle n hn)).trans (by norm_num)

/-- No tap is finite, if all of them are lost. -/
theorem tap_of_lost (hlost : ∀ m, m < len → number (windowed floatCircular cutoff len m) = 0) :
    isFinite (windowed floatCircular cutoff len n / gain cutoff len) = false := by
  have hall : ∀ x ∈ response floatCircular cutoff len, isFinite x = true := by
    intro x hx
    obtain ⟨m, hm, rfl⟩ := List.mem_map.mp hx
    exact (tap_of_short h hd (List.mem_range.mp hm) hshort).1
  have hsum : ((response floatCircular cutoff len).map number).sum = 0 := by
    rw [response_map_sum]
    exact Finset.sum_eq_zero fun m hm => hlost m (Finset.mem_range.mp hm)
  have hsizes : ((response floatCircular cutoff len).map fun x => |number x|).sum = 0 := by
    rw [response_map_sum]
    exact Finset.sum_eq_zero fun m hm => by rw [hlost m (Finset.mem_range.mp hm), abs_zero]
  obtain ⟨-, herror⟩ := foldl_add_error isFinite_neg_zero.1 hall (by
    rw [isFinite_neg_zero.2, hsizes, abs_zero, add_zero, mul_zero]
    exact (Format.two_zpow_pos _).le)
  rw [isFinite_neg_zero.2, hsizes, hsum, abs_zero, add_zero, mul_zero, sub_zero] at herror
  have hgain : number (gain cutoff len) = 0 := abs_eq_zero.mp (le_antisymm herror (abs_nonneg _))
  refine isFinite_div_zero _ ?_
  by_contra hne
  exact number_ne_zero hne hgain

end Short

/-! ## Usable designs

A design is long or short, and of the short ones only a starved one loses all taps.  A filter takes
any coefficients that are finite, so taps that are finite are usable. -/

omit [Trigonometry] in
theorem number_seven_units : isFinite (ofParts false 7) = true ∧
    number (ofParts false 7) = 7 * 2 ^ (-1074 : Int) := by
  decide +kernel

/-- Two taps for a cutoff of less than seven least units.  The window leaves eight hundredths of it
on both, which is less than half a unit. -/
def Starved (count : Nat) (cutoff : Float) : Prop := count = 2 ∧ cutoff < ofParts false 7

/-- **The taps are finite** unless the design is starved. -/
theorem taps_finite_iff_not_starved (h : Accurate) (hd : Admitted cutoff len) (hlen : len ≠ 0) :
    (∀ tap ∈ taps floatCircular cutoff len, isFinite tap = true) ↔ ¬ Starved len cutoff := by
  rw [taps_finite_iff]
  rcases le_total ((number cutoff : ℝ) * (len - 1 : Nat)) (9 / 5) with hshort | hlong
  · by_cases hpair : len = 2
    · subst hpair
      by_cases hlow : cutoff < ofParts false 7
      · have hunits : number cutoff < 7 * 2 ^ (-1074 : Int) := by
          rwa [lt_iff_number_lt hd.finite number_seven_units.1, number_seven_units.2] at hlow
        refine iff_of_false (fun hall => ?_) fun hnot => hnot ⟨rfl, hlow⟩
        have hlost := tap_of_lost (n := 0) h hd hshort fun m hm => tap_eq_zero_of_pair hd h hm hunits
        rw [hall 0 (by norm_num)] at hlost
        exact Bool.noConfusion hlost
      · have hunits : 7 * 2 ^ (-1074 : Int) ≤ number cutoff := by
          rwa [lt_iff_number_lt hd.finite number_seven_units.1, number_seven_units.2, not_lt] at hlow
        refine iff_of_true (fun n hn => ?_) fun hstarved => hlow hstarved.2
        exact tap_of_pos h hd hshort ⟨0, by norm_num, tap_pos_of_pair hd h (by norm_num) hunits⟩ hn
    · refine iff_of_true (fun n hn => ?_) fun hstarved => hpair hstarved.1
      obtain ⟨hcentre, hnear⟩ := centre_near hpair
      have hmiddle : (len - 1) / 2 < len := by omega
      exact tap_of_pos h hd hshort
        ⟨_, hmiddle, tap_pos_of_near h hd hmiddle hshort hcentre hnear⟩ hn
  · refine iff_of_true (fun n hn => tap_of_long h hd hlong hn) fun hstarved => ?_
    have := three_le_of_long hd hlong
    have := hstarved.1
    omega

omit [Trigonometry] in
theorem admitted_of_lt (hpos : 0 < cutoff) (hlt : cutoff < 1) (hlen : len ≤ 2 ^ 44) :
    Admitted cutoff len := by
  have hone : isFinite (1 : Float) = true ∧ rank 1 < binary64.infinity := ⟨rfl, by decide⟩
  have hzero : isFinite (0 : Float) = true ∧ rank 0 = 0 := ⟨rfl, rfl⟩
  have hfinite : isFinite cutoff = true := by
    have hlow := (lt_iff_rank_lt.mp hpos).2.2
    have hhigh := (lt_iff_rank_lt.mp hlt).2.2
    have hrank : rank cutoff = -magnitude cutoff ∨ rank cutoff = magnitude cutoff := by
      rw [rank]
      exact (ite_eq_or_eq _ _ _)
    exact decide_eq_true (by omega)
  have hpos' := (lt_iff_number_lt hzero.1 hfinite).mp hpos
  have hlt' := (lt_iff_number_lt hfinite hone.1).mp hlt
  rw [number_zero] at hpos'
  rw [number_one] at hlt'
  exact ⟨hfinite, hpos', hlt', hlen⟩

theorem design_fault_iff (count : Nat) (cutoff : Float) :
    (∃ fault, design count cutoff = .error (.invalidDesign fault)) ↔
      count = 0 ∨ ¬ (0 < cutoff ∧ cutoff < 1) := by
  by_cases hcount : count = 0
  · subst hcount
    exact iff_of_true ⟨.noTaps, rfl⟩ (Or.inl rfl)
  · rw [design_eq hcount]
    by_cases hrange : 0 < cutoff ∧ cutoff < 1
    · rw [if_pos hrange]
      refine iff_of_false ?_ fun h => h.elim hcount fun h => h hrange
      rintro ⟨fault, hfault⟩
      split_ifs at hfault
      cases hfault
    · rw [if_neg hrange]
      exact iff_of_true ⟨_, rfl⟩ (Or.inr hrange)

theorem taps_usable_iff (h : Accurate) (hpos : 0 < cutoff) (hlt : cutoff < 1) (hlen : len ≤ 2 ^ 44)
    (hne : len ≠ 0) :
    ((∀ tap ∈ taps floatCircular cutoff len, isFinite tap = true) ↔ ¬ Starved len cutoff) ∧
      ((∃ filter, Filter.fir (taps floatCircular cutoff len) = .ok filter) ↔
        ¬ Starved len cutoff) := by
  have hfinite := taps_finite_iff_not_starved h (admitted_of_lt hpos hlt hlen) hne
  have htaps : taps floatCircular cutoff len ≠ [] :=
    List.isEmpty_eq_false_iff.mp (taps_isEmpty hne cutoff)
  exact ⟨hfinite, (Filter.exists_fir_iff htaps).trans hfinite⟩

/-- **What becomes of a design.**  It is refused exactly if it asks for no taps or its cutoff is not
between zero and one, and is otherwise answered with as many taps as it asks for.  These are finite,
and make a filter, unless the design is starved. -/
theorem design_outcome (h : Accurate) (count : Nat) (cutoff : Float) :
    ((∃ fault, design count cutoff = .error (.invalidDesign fault)) ↔
      count = 0 ∨ ¬ (0 < cutoff ∧ cutoff < 1)) ∧
    (count ≠ 0 → 0 < cutoff → cutoff < 1 → count ≤ maxNumbers →
      ∃ taps, design count cutoff = .ok taps ∧ taps.length = count ∧
        (count ≤ 2 ^ 44 →
          ((∀ tap ∈ taps, isFinite tap = true) ↔ ¬ Starved count cutoff) ∧
          ((∃ filter, Filter.fir taps = .ok filter) ↔ ¬ Starved count cutoff))) := by
  refine ⟨design_fault_iff count cutoff, fun hcount hpos hlt hmax => ?_⟩
  refine ⟨taps floatCircular cutoff count, ?_, length_taps count cutoff, fun hlen => ?_⟩
  · rw [design_eq hcount, if_pos ⟨hpos, hlt⟩, if_neg (not_lt.mpr hmax)]
  · exact taps_usable_iff h hpos hlt hlen hcount

end Library

/-- The production filter's design, with a library that rounds. -/
theorem design_outcome_thirty :
    ∃ taps, @design roundedTrigonometry 30 0.333 = .ok taps ∧ taps.length = 30 ∧
      (∀ tap ∈ taps, isFinite tap = true) ∧ ∃ filter, Filter.fir taps = .ok filter := by
  have houtcome := (@design_outcome roundedTrigonometry accurate_rounded 30 0.333).2
  obtain ⟨taps, hdesign, hlength, husable⟩ := houtcome (by decide) (by decide +kernel)
    (by decide +kernel) (by decide)
  have hfed : ¬ Starved 30 0.333 := fun hstarved => absurd hstarved.1 (by decide)
  obtain ⟨hfinite, hfilter⟩ := husable (by norm_num)
  exact ⟨taps, hdesign, hlength, hfinite.mpr hfed, hfilter.mpr hfed⟩

/-- Two taps for the least cutoff there is are not finite, and make no filter. -/
theorem design_starved :
    0 < ofParts false 1 ∧ ofParts false 1 < 1 ∧
      ∃ taps, @design roundedTrigonometry 2 (ofParts false 1) = .ok taps ∧ taps.length = 2 ∧
        ¬ (∀ tap ∈ taps, isFinite tap = true) ∧ ¬ ∃ filter, Filter.fir taps = .ok filter := by
  have hpos : 0 < ofParts false 1 := by decide +kernel
  have hlt : ofParts false 1 < 1 := by decide +kernel
  have hstarved : Starved 2 (ofParts false 1) := ⟨rfl, by decide +kernel⟩
  let _ := roundedTrigonometry
  obtain ⟨hfinite, hfilter⟩ := taps_usable_iff accurate_rounded hpos hlt
    (by norm_num : 2 ≤ 2 ^ 44) (by norm_num)
  refine ⟨hpos, hlt, taps floatCircular (ofParts false 1) 2, ?_, length_taps 2 _,
    fun hall => hfinite.mp hall hstarved, fun hfir => hfilter.mp hfir hstarved⟩
  rw [design_eq (by norm_num), if_pos ⟨hpos, hlt⟩, if_neg (by decide)]

end Lowpass

end FilterReference
