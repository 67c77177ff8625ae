/-
# Errors of rounded arithmetic

A double nearest to an exact number is off by at most the `2 ^ 53`rd part of that number and half of
the least unit (`Nearest.error`); a sum is never off by more than the first (`add_error`).  The
numbers of doubles are integers of least units, so what is rounded to less than one is lost
(`Nearest.eq_zero`, `Nearest.unit_le`).

A sum of many terms is off by at most `growth n` times the sum of their sizes (`foldl_add_error`),
and terms without a sign add up to no less than each of them (`foldl_add_nonneg`).
-/
import FilterReference.Proofs.Binary.Counts
import Mathlib

namespace FilterReference.Binary

namespace Format

variable (f : Format)

/-- The error of rounding is at most half a unit relative to the number, or half of the least
unit. -/
theorem unbounded_error_le {num den : Nat} (hd : den ≠ 0) :
    |f.value (f.unbounded num den) - num / den| ≤
      num / den / 2 ^ (f.fractionBits + 1) + 2 ^ f.minExponent / 2 := by
  have hleast := two_zpow_pos f.minExponent
  rcases eq_or_ne num 0 with rfl | hn
  · rw [unbounded_zero, value_zero, Nat.cast_zero, zero_div, sub_self, abs_zero]
    positivity
  · refine (f.unbounded_error hn hd).trans ?_
    rcases f.le_div_unit hn hd with hunit | hunit
    · rw [hunit]
      have : (0 : ℚ) ≤ num / den / 2 ^ (f.fractionBits + 1) := by positivity
      linarith
    · rw [le_div_iff₀ (two_zpow_pos _), Nat.cast_pow, Nat.cast_ofNat] at hunit
      have hhalf : (2 ^ f.unitExponent num den : ℚ) / 2 ≤ num / den / 2 ^ (f.fractionBits + 1) := by
        rw [le_div_iff₀ (by positivity), pow_succ]
        linarith
      linarith

end Format

variable {x y : Float} {q : ℚ}

/-! ## One rounding

Near zero the error is not a part of the number but up to half a unit.  That matters for the
products alone, since sums are made of whole units. -/

/-- Rounding keeps the sign, so the error is that of the sizes. -/
theorem Nearest.abs_number_sub (hx : Nearest x q) : |number x - q| = |(size x - |q|)| := by
  rcases lt_trichotomy q 0 with h | rfl | h
  · rw [number, hx.negative_eq h.ne, decide_eq_true h, if_pos rfl, abs_of_neg h, ← abs_neg]
    congr 1
    ring
  · rw [sub_zero, abs_number, abs_zero, sub_zero, abs_of_nonneg (size_nonneg x)]
  · rw [number, hx.negative_eq h.ne', decide_eq_false h.not_gt, if_neg Bool.false_ne_true,
      abs_of_pos h]

theorem zpow_bounds : (2 : ℚ) ^ (100 : Nat) ≤ 2 ^ (1023 : Int) ∧
    (2 : ℚ) ^ (-1074 : Int) / 2 ≤ 1 / 2 ^ (200 : Nat) ∧
    (2 : ℚ) ^ (-1022 : Int) ≤ 1 / 2 ^ (100 : Nat) := by
  have hmono : ∀ {a b : Int}, a ≤ b → (2 : ℚ) ^ a ≤ 2 ^ b := fun h =>
    zpow_le_zpow_right₀ (by norm_num) h
  refine ⟨?_, ?_, ?_⟩
  · rw [← zpow_natCast]
    exact hmono (by norm_num)
  · rw [one_div, ← zpow_natCast, ← zpow_neg]
    exact (half_le_self (Format.two_zpow_pos _).le).trans (hmono (by norm_num))
  · rw [one_div, ← zpow_natCast, ← zpow_neg]
    exact hmono (by norm_num)

theorem Nearest.isFinite (hx : Nearest x q) (h : |q| ≤ 2 ^ (1023 : Int)) :
    Binary.isFinite x = true := by
  rw [Binary.isFinite, hx.magnitude_eq]
  exact decide_eq_true (nearest_lt_infinity q.den_ne_zero (by rwa [natAbs_div_den]))

/-- **The error of rounding.** -/
theorem Nearest.error (hx : Nearest x q) (h : |q| ≤ 2 ^ (1023 : Int)) :
    |number x - q| ≤ |q| / 2 ^ 53 + 2 ^ (-1074 : Int) / 2 := by
  have hlt : binary64.nearest q.num.natAbs q.den < binary64.infinity :=
    nearest_lt_infinity q.den_ne_zero (by rwa [natAbs_div_den])
  rw [hx.abs_number_sub, hx.size_eq, binary64.nearest_eq_unbounded hlt, ← natAbs_div_den q]
  exact binary64.unbounded_error_le q.den_ne_zero

theorem Nearest.error_of_normal (hx : Nearest x q) (h : |q| ≤ 2 ^ (1023 : Int))
    (hnormal : q = 0 ∨ 2 ^ (-1022 : Int) ≤ |q|) : |number x - q| ≤ |q| / 2 ^ 53 := by
  rw [hx.abs_number_sub]
  rcases hnormal with rfl | hnormal
  · rw [size_eq_zero hx.magnitude_eq, abs_zero, sub_zero, abs_zero, zero_div]
  · exact hx.relative_error (hx.isFinite h) hnormal

/-- The numbers of doubles are integers of least units: one that is less than a unit is zero. -/
theorem number_eq_zero_of_lt (h : |number x| < 2 ^ (-1074 : Int)) : number x = 0 := by
  have hunit : (0 : ℚ) < 2 ^ (-1074 : Int) := Format.two_zpow_pos _
  obtain ⟨n, hn⟩ := exists_number_eq x
  rw [hn, abs_mul, abs_of_pos hunit, mul_lt_iff_lt_one_left hunit] at h
  have hzero : n = 0 := Int.abs_lt_one_iff.mp (by exact_mod_cast h)
  rw [hn, hzero, Int.cast_zero, zero_mul]

theorem number_le_of_lt {n : Int} (h : number x < (n + 1) * 2 ^ (-1074 : Int)) :
    number x ≤ n * 2 ^ (-1074 : Int) := by
  have hunit : (0 : ℚ) < 2 ^ (-1074 : Int) := Format.two_zpow_pos _
  obtain ⟨m, hm⟩ := exists_number_eq x
  rw [hm, mul_lt_mul_iff_left₀ hunit] at h
  have hle : m ≤ n := Int.lt_add_one_iff.mp (by exact_mod_cast h)
  rw [hm, mul_le_mul_iff_left₀ hunit]
  exact_mod_cast hle

theorem unit_le_number (h : 0 < number x) : 2 ^ (-1074 : Int) ≤ number x := by
  by_contra hlt
  have := number_le_of_lt (n := 0) (by simpa using hlt)
  rw [Int.cast_zero, zero_mul] at this
  linarith

theorem Nearest.number_between (hx : Nearest x q) (hq : 0 ≤ q) (h : q ≤ 2 ^ (100 : Nat)) :
    q - q / 2 ^ 53 - 2 ^ (-1074 : Int) / 2 ≤ number x ∧
      number x ≤ q + q / 2 ^ 53 + 2 ^ (-1074 : Int) / 2 := by
  have herror := hx.error ((abs_of_nonneg hq).le.trans (h.trans zpow_bounds.1))
  rw [abs_of_nonneg hq, abs_le] at herror
  exact ⟨by linarith only [herror.1], by linarith only [herror.2]⟩

/-- What is more than half a unit is not lost. -/
theorem Nearest.unit_le (hx : Nearest x q) (hlow : 51 / 100 * 2 ^ (-1074 : Int) ≤ q)
    (hhigh : q ≤ 2 ^ (100 : Nat)) : 2 ^ (-1074 : Int) ≤ number x := by
  have hunit : (0 : ℚ) < 2 ^ (-1074 : Int) := Format.two_zpow_pos _
  have hq : 0 < q := (mul_pos (by norm_num) hunit).trans_le hlow
  have hrounded := (hx.number_between hq.le hhigh).1
  refine unit_le_number ?_
  linarith only [hrounded, hlow, hunit]

/-- What is less than half a unit is lost. -/
theorem Nearest.eq_zero (hx : Nearest x q) (h : |q| ≤ 49 / 100 * 2 ^ (-1074 : Int)) :
    number x = 0 := by
  have hunit : (0 : ℚ) < 2 ^ (-1074 : Int) := Format.two_zpow_pos _
  have hone : (2 : ℚ) ^ (-1074 : Int) ≤ 2 ^ (1023 : Int) :=
    zpow_le_zpow_right₀ (by norm_num) (by norm_num)
  have herror := hx.error (h.trans ((mul_le_of_le_one_left hunit.le (by norm_num)).trans hone))
  have htriangle := abs_sub_abs_le_abs_sub (number x) q
  refine number_eq_zero_of_lt ?_
  linarith only [herror, htriangle, h, hunit]

theorem Nearest.of_half (hx : Nearest x q) {n : Int} (hq : q = n / 2) (hn : n.natAbs < 2 ^ 53) :
    Binary.isFinite x = true ∧ number x = q := by
  have habs : |q| = n.natAbs * 2 ^ (-1 : Int) := by
    rw [hq, abs_div, Nat.cast_natAbs, Int.cast_abs]
    norm_num
    ring
  have hsmall : |q| ≤ 2 ^ (1023 : Int) := by
    have hn' : (n.natAbs : ℚ) ≤ 2 ^ (53 : Int) := by exact_mod_cast hn.le
    calc |q| ≤ 2 ^ (53 : Int) * 2 ^ (-1 : Int) := by
          rw [habs]
          gcongr
      _ = 2 ^ (52 : Int) := by rw [← zpow_add₀ (by norm_num)]; norm_num
      _ ≤ _ := zpow_le_zpow_right₀ (by norm_num) (by norm_num)
  have hfinite := hx.isFinite hsmall
  exact ⟨hfinite, hx.number_eq hfinite hn (by norm_num) habs⟩

theorem mul_le_natCast (hx : isFinite x = true) (hy : isFinite y = true) (hx₀ : 0 ≤ number x)
    (hy₀ : 0 ≤ number y) {n : Nat} (hn : n < 2 ^ 53) (h : number x * number y ≤ n) :
    isFinite (x * y) = true ∧ 0 ≤ number (x * y) ∧ number (x * y) ≤ n := by
  have hproduct := nearest_mul hx hy
  have habs : |number x * number y| ≤ n := by rwa [abs_of_nonneg (mul_nonneg hx₀ hy₀)]
  have hfinite := hproduct.isFinite_of_le (ofCount_exact hn.le).1 (by
    rwa [(ofCount_exact hn.le).2.2])
  have hsize := hproduct.size_le_natCast hn habs
  rw [← abs_number] at hsize
  exact ⟨hfinite, hproduct.number_nonneg (mul_nonneg hx₀ hy₀), (le_abs_self _).trans hsize⟩

/-- A sum has no error below the least normal number, where it is an integer of units. -/
theorem add_error (hx : isFinite x = true) (hy : isFinite y = true)
    (h : |number x + number y| ≤ 2 ^ (1023 : Int)) :
    |number (x + y) - (number x + number y)| ≤ |number x + number y| / 2 ^ 53 := by
  have hsum := nearest_add hx hy
  by_cases hnormal : 2 ^ (-1022 : Int) ≤ |number x + number y|
  · exact hsum.error_of_normal h (Or.inr hnormal)
  · have hunit : (0 : ℚ) < 2 ^ (-1074 : Int) := Format.two_zpow_pos _
    obtain ⟨m, hm⟩ := exists_number_eq x
    obtain ⟨n, hn⟩ := exists_number_eq y
    have habs : |number x + number y| = (m + n).natAbs * 2 ^ (-1074 : Int) := by
      rw [hm, hn, ← add_mul, abs_mul, abs_of_pos hunit, ← Int.cast_add, Nat.cast_natAbs, Int.cast_abs]
    have hfits : (m + n).natAbs < 2 ^ 53 := by
      rw [habs, show (-1022 : Int) = 52 + -1074 by norm_num, zpow_add₀ (by norm_num),
        mul_le_mul_iff_left₀ hunit, not_le] at hnormal
      have hlt : ((m + n).natAbs : ℚ) < 2 ^ (53 : Nat) := hnormal.trans (by norm_num)
      exact_mod_cast hlt
    rw [hsum.number_eq (hsum.isFinite h) hfits (le_refl _) habs, sub_self, abs_zero]
    positivity

/-! ## Sums

Every term goes through all the roundings that come after it, so the errors grow with the number of
terms, not with their values.  The bound is on the sum of the sizes, because in the sum itself they
may cancel. -/

/-- How far `n` rounded additions can lead away from the exact sum, relative to the sizes of what is
added. -/
def growth (n : Nat) : ℚ := (1 + 1 / 2 ^ 53) ^ n - 1

theorem growth_nonneg (n : Nat) : 0 ≤ growth n :=
  sub_nonneg.mpr (one_le_pow₀ (by norm_num))

theorem growth_succ (n : Nat) : growth (n + 1) = growth n * (1 + 1 / 2 ^ 53) + 1 / 2 ^ 53 := by
  unfold growth
  ring

/-- The bound hardly grows faster than the number of additions. -/
theorem growth_le {n : Nat} (hn : n < 2 ^ 53) : growth n ≤ n / (2 ^ 53 - n) := by
  have hn' : (n : ℚ) < 2 ^ 53 := by exact_mod_cast hn
  have hbernoulli := one_add_mul_le_pow (a := (-(1 / 2 ^ 53) : ℚ)) (by norm_num) n
  have hproduct : ((1 + 1 / 2 ^ 53 : ℚ)) ^ n * (1 + -(1 / 2 ^ 53)) ^ n ≤ 1 := by
    rw [← mul_pow]
    exact pow_le_one₀ (by norm_num) (by norm_num)
  have hpower : ((1 + 1 / 2 ^ 53 : ℚ)) ^ n * (1 - n / 2 ^ 53) ≤ 1 := by
    refine le_trans (mul_le_mul_of_nonneg_left ?_ (by positivity)) hproduct
    linarith
  rw [growth, le_div_iff₀ (by linarith)]
  linarith

theorem growth_step {n : Nat} {a b c rest sizes result : ℚ} (hsizes : 0 ≤ sizes)
    (hfirst : |c - (a + b)| ≤ |a + b| / 2 ^ 53)
    (hrest : |result - (c + rest)| ≤ growth n * (|c| + sizes)) :
    |result - (a + (b + rest))| ≤ growth (n + 1) * (|a| + (|b| + sizes)) := by
  have hgrowth := growth_nonneg n
  have htriangle := abs_add_le a b
  have hnext : |c| ≤ (1 + 1 / 2 ^ 53) * (|a| + |b|) := by
    have := abs_sub_abs_le_abs_sub c (a + b)
    linarith
  calc |result - (a + (b + rest))|
      = |(result - (c + rest)) + (c - (a + b))| := by ring_nf
    _ ≤ growth n * (|c| + sizes) + |a + b| / 2 ^ 53 :=
        (abs_add_le _ _).trans (add_le_add hrest hfirst)
    _ ≤ growth n * ((1 + 1 / 2 ^ 53) * (|a| + |b|) + sizes) + (|a| + |b|) / 2 ^ 53 := by gcongr
    _ ≤ growth (n + 1) * (|a| + (|b| + sizes)) := by
        rw [growth_succ]
        nlinarith [mul_nonneg hgrowth hsizes]

/-- **The error of a sum** from the left, as long as the sizes stay away from infinity. -/
theorem foldl_add_error {acc : Float} {xs : List Float} (hacc : isFinite acc = true)
    (hxs : ∀ x ∈ xs, isFinite x = true)
    (h : (1 + 1 / 2 ^ 53) ^ xs.length * (|number acc| + (xs.map fun x => |number x|).sum) ≤
      2 ^ (1023 : Int)) :
    isFinite (xs.foldl (· + ·) acc) = true ∧
      |number (xs.foldl (· + ·) acc) - (number acc + (xs.map number).sum)| ≤
        growth xs.length * (|number acc| + (xs.map fun x => |number x|).sum) := by
  induction xs generalizing acc with
  | nil => simp [hacc, growth]
  | cons x xs ih =>
      obtain ⟨hx, hxs⟩ := List.forall_mem_cons.mp hxs
      simp only [List.map_cons, List.sum_cons, List.length_cons, List.foldl_cons] at h ⊢
      have hsizes : 0 ≤ (xs.map fun x => |number x|).sum := List.sum_nonneg (by simp)
      have htriangle := abs_add_le (number acc) (number x)
      have hsmall : |number acc + number x| ≤ 2 ^ (1023 : Int) := by
        refine le_trans ?_ h
        have hpower : (1 : ℚ) ≤ (1 + 1 / 2 ^ 53) ^ (xs.length + 1) := one_le_pow₀ (by norm_num)
        refine le_trans ?_ (le_mul_of_one_le_left (by positivity) hpower)
        linarith
      have herror := add_error hacc hx hsmall
      have hnext : |number (acc + x)| ≤ (1 + 1 / 2 ^ 53) * (|number acc| + |number x|) := by
        have := abs_sub_abs_le_abs_sub (number (acc + x)) (number acc + number x)
        linarith
      have hroom : (1 + 1 / 2 ^ 53) ^ xs.length *
          (|number (acc + x)| + (xs.map fun x => |number x|).sum) ≤ 2 ^ (1023 : Int) := by
        refine le_trans ?_ h
        rw [pow_succ _ xs.length, mul_assoc]
        refine mul_le_mul_of_nonneg_left ?_ (by positivity)
        linarith
      obtain ⟨hfinite, hrest⟩ := ih ((nearest_add hacc hx).isFinite hsmall) hxs hroom
      exact ⟨hfinite, growth_step hsizes herror hrest⟩

/-- **Terms without a sign** add up to no less than each of them.  The bound keeps the sums finite.
-/
theorem foldl_add_nonneg {acc : Float} {xs : List Float} {bound n : Nat}
    (hacc : isFinite acc = true) (hacc₀ : 0 ≤ number acc) (hacc₁ : number acc ≤ bound * n)
    (hxs : ∀ x ∈ xs, isFinite x = true ∧ 0 ≤ number x ∧ number x ≤ bound)
    (h : bound * (n + xs.length) < 2 ^ 53) :
    isFinite (xs.foldl (· + ·) acc) = true ∧ number acc ≤ number (xs.foldl (· + ·) acc) ∧
      ∀ x ∈ xs, number x ≤ number (xs.foldl (· + ·) acc) := by
  induction xs generalizing acc n with
  | nil => exact ⟨hacc, le_refl _, fun x hx => absurd hx List.not_mem_nil⟩
  | cons x xs ih =>
      obtain ⟨⟨hx, hx₀, hx₁⟩, hxs⟩ := List.forall_mem_cons.mp hxs
      have hsum := nearest_add hacc hx
      have habs : |number acc + number x| = number acc + number x := abs_of_nonneg (by linarith)
      have hle : |number acc + number x| ≤ (bound * (n + 1) : Nat) := by
        rw [habs]
        push_cast
        linarith
      have hfits : bound * (n + 1) < 2 ^ 53 := by
        refine lt_of_le_of_lt (Nat.mul_le_mul_left _ ?_) h
        rw [List.length_cons]
        omega
      have hfinite : isFinite (acc + x) = true :=
        hsum.isFinite_of_le (ofCount_exact hfits.le).1 (by rwa [(ofCount_exact hfits.le).2.2])
      have hnonneg := hsum.number_nonneg (by linarith : 0 ≤ number acc + number x)
      have hupper : number (acc + x) ≤ bound * (n + 1 : Nat) := by
        have := hsum.size_le_natCast hfits hle
        rw [← abs_number, abs_of_nonneg hnonneg] at this
        exact_mod_cast this
      obtain ⟨hend, hstart, hall⟩ := ih hfinite hnonneg hupper hxs (by
        rwa [List.length_cons, Nat.add_comm xs.length, ← Nat.add_assoc] at h)
      have haccle := (nearest_number hacc).number_le hsum (by linarith)
      have hxle := (nearest_number hx).number_le hsum (by linarith)
      refine ⟨hend, haccle.trans hstart, List.forall_mem_cons.mpr ⟨hxle.trans hstart, hall⟩⟩

/-! ## Division by zero -/

open Float.Model.UnpackedFloat in
theorem isFinite_div_zero (x : Float) (hy : magnitude y = 0) : isFinite (x / y) = false := by
  have hunfold : x / y =
      Float.ofModel (.pack (div double (unpack double (word x)) (unpack double (word y)))) := rfl
  rw [hunfold, unpack_eq_zero hy]
  generalize signOf (negative y) = s
  cases unpack double (word x) with
  | notANumber => rfl
  | zero t => rfl
  | infinity t => cases s <;> cases t <;> rfl
  | finite t m e hm =>
      have hdiv : div double (finite t m e hm) (zero s) = .infinity (t / s) := rfl
      rw [hdiv]
      cases s <;> cases t <;> rfl

end FilterReference.Binary
