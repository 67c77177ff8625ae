/-
# Doubles that stand in for real numbers

What longer computations are followed with.  A double is `Close` to a real number if it is finite
and the distance is bounded, and `Precise` if the bound is a part of the number.  The first is kept
by sums and products, the second by products and quotients, as long as these are zero or not too far
from one (`Within`), where every rounding adds the same part.
-/
import FilterReference.Proofs.Binary.Errors
import Mathlib

namespace FilterReference.Binary

variable {x y : Float} {q : ℚ} {r s δ ε α β : ℝ}

/-! ## One rounding

The bounds `2 ^ 100` and `2 ^ -100` are far from where doubles end, and far from what the
computations below come to.  They keep infinity and the least numbers out of all that follows. -/

theorem Nearest.isFinite_of_real (hx : Nearest x q) (h : |(q : ℝ)| ≤ 2 ^ 100) :
    Binary.isFinite x = true := by
  refine hx.isFinite (le_trans ?_ zpow_bounds.1)
  exact_mod_cast h

theorem Nearest.real_error (hx : Nearest x q) (h : |(q : ℝ)| ≤ 2 ^ 100) :
    |(number x : ℝ) - q| ≤ |(q : ℝ)| / 2 ^ 53 + 1 / 2 ^ 200 := by
  have hq : |q| ≤ 2 ^ (100 : Nat) := by exact_mod_cast h
  have herror := hx.error (hq.trans zpow_bounds.1)
  have hbound : |number x - q| ≤ |q| / 2 ^ 53 + 1 / 2 ^ 200 := by linarith [zpow_bounds.2.1]
  simpa using (Rat.cast_le (K := ℝ)).mpr hbound

theorem Nearest.real_error_of_normal (hx : Nearest x q) (h : |(q : ℝ)| ≤ 2 ^ 100)
    (hnormal : q = 0 ∨ 1 / 2 ^ 100 ≤ |(q : ℝ)|) : |(number x : ℝ) - q| ≤ |(q : ℝ)| / 2 ^ 53 := by
  have hq : |q| ≤ 2 ^ (100 : Nat) := by exact_mod_cast h
  have herror := hx.error_of_normal (hq.trans zpow_bounds.1) (hnormal.imp_right fun hlow =>
    zpow_bounds.2.2.trans ((Rat.cast_le (K := ℝ)).mp (by simpa using hlow)))
  simpa using (Rat.cast_le (K := ℝ)).mpr herror

/-! ## Absolute errors

Bounds on the true values are arguments of the laws, because a computation knows them and its
doubles do not.  Each law adds one rounding to what comes of the errors of the operands. -/

/-- A finite double that is at most `δ` away from a real number. -/
structure Close (x : Float) (r δ : ℝ) : Prop where
  finite : isFinite x = true
  error : |(number x : ℝ) - r| ≤ δ

namespace Close

theorem mono (h : Close x r δ) (hδ : δ ≤ ε) : Close x r ε := ⟨h.finite, h.error.trans hδ⟩

theorem abs_number_le (h : Close x r δ) : |(number x : ℝ)| ≤ |r| + δ := by
  have := abs_sub_abs_le_abs_sub (number x : ℝ) r
  linarith [h.error]

theorem bounds (h : Close x r δ) {a b : ℚ} (hlow : a + δ ≤ r) (hhigh : r + δ ≤ b) :
    a ≤ number x ∧ number x ≤ b := by
  obtain ⟨hleft, hright⟩ := abs_le.mp h.error
  have hlow' : (a : ℝ) ≤ number x := by linarith
  have hhigh' : (number x : ℝ) ≤ b := by linarith
  exact ⟨by exact_mod_cast hlow', by exact_mod_cast hhigh'⟩

theorem of_nearest (hx : Nearest x q) (hq : |(q : ℝ) - r| ≤ δ) (h : |r| + δ ≤ 2 ^ 100) :
    Close x r (δ + (|r| + δ) / 2 ^ 53 + 1 / 2 ^ 200) := by
  have hsize : |(q : ℝ)| ≤ |r| + δ := by
    have := abs_sub_abs_le_abs_sub (q : ℝ) r
    linarith
  refine ⟨hx.isFinite_of_real (hsize.trans h), ?_⟩
  have herror := hx.real_error (hsize.trans h)
  have htriangle := abs_sub_le (number x : ℝ) q r
  have : |(q : ℝ)| / 2 ^ 53 ≤ (|r| + δ) / 2 ^ 53 := by gcongr
  linarith

theorem mul {a b κ : ℝ} (hx : Close x r δ) (hy : Close y s ε) (hr : |r| ≤ a) (hs : |s| ≤ b)
    (hκ : δ * (b + ε) + a * ε ≤ κ) (h : a * b + κ ≤ 2 ^ 100) :
    Close (x * y) (r * s) (κ + (a * b + κ) / 2 ^ 53 + 1 / 2 ^ 200) := by
  have hprod : |r * s| ≤ a * b := by
    rw [abs_mul]
    gcongr
    exact (abs_nonneg r).trans hr
  have hexact : |((number x * number y : ℚ) : ℝ) - r * s| ≤ κ := by
    have hδ : 0 ≤ δ := (abs_nonneg _).trans hx.error
    have hsplit : ((number x * number y : ℚ) : ℝ) - r * s =
        ((number x : ℝ) - r) * number y + r * ((number y : ℝ) - s) := by
      push_cast
      ring
    rw [hsplit]
    refine (abs_add_le _ _).trans (le_trans ?_ hκ)
    rw [abs_mul, abs_mul]
    have := hx.error
    have := hy.error
    have : |(number y : ℝ)| ≤ b + ε := hy.abs_number_le.trans (by linarith)
    have : 0 ≤ a := (abs_nonneg r).trans hr
    gcongr
  refine (of_nearest (nearest_mul hx.finite hy.finite) hexact (by linarith)).mono ?_
  have : (|r * s| + κ) / 2 ^ 53 ≤ (a * b + κ) / 2 ^ 53 := by gcongr
  linarith

theorem sub {a κ : ℝ} (hx : Close x r δ) (hy : Close y s ε) (ha : |r - s| ≤ a) (hκ : δ + ε ≤ κ)
    (h : a + κ ≤ 2 ^ 100) : Close (x - y) (r - s) (κ + (a + κ) / 2 ^ 53 + 1 / 2 ^ 200) := by
  have hexact : |((number x - number y : ℚ) : ℝ) - (r - s)| ≤ κ := by
    have hsplit : ((number x - number y : ℚ) : ℝ) - (r - s) =
        ((number x : ℝ) - r) - ((number y : ℝ) - s) := by
      push_cast
      ring
    rw [hsplit]
    refine (abs_sub _ _).trans (le_trans ?_ hκ)
    linarith [hx.error, hy.error]
  refine (of_nearest (nearest_sub hx.finite hy.finite) hexact (by linarith)).mono ?_
  have : (|r - s| + κ) / 2 ^ 53 ≤ (a + κ) / 2 ^ 53 := by gcongr
  linarith

end Close

/-! ## Relative errors

A relative error needs a number that is not rounded to something tiny.  `Within` says so with one
bound for both sides, which products and quotients add up. -/

/-- Zero, or `k` binary digits at most away from one. -/
def Within (k : Nat) (r : ℝ) : Prop := r = 0 ∨ 1 / 2 ^ k ≤ |r| ∧ |r| ≤ 2 ^ k

namespace Within

variable {j k : Nat}

theorem mono (h : Within j r) (hjk : j ≤ k) : Within k r := by
  refine h.imp_right fun h => ⟨le_trans ?_ h.1, h.2.trans ?_⟩
  · gcongr
    norm_num
  · gcongr
    norm_num

theorem abs_le (h : Within k r) : |r| ≤ 2 ^ k := by
  rcases h with rfl | h
  · rw [abs_zero]
    positivity
  · exact h.2

theorem mul (hr : Within j r) (hs : Within k s) : Within (j + k) (r * s) := by
  rcases hr with rfl | hr
  · exact Or.inl (zero_mul s)
  · rcases hs with rfl | hs
    · exact Or.inl (mul_zero r)
    · right
      rw [abs_mul, pow_add, ← one_div_mul_one_div]
      exact ⟨mul_le_mul hr.1 hs.1 (by positivity) (abs_nonneg r),
        mul_le_mul hr.2 hs.2 (abs_nonneg s) (by positivity)⟩

theorem inv (h : Within k r) : Within k r⁻¹ := by
  rcases h with rfl | ⟨hlow, hhigh⟩
  · exact Or.inl inv_zero
  · have hpos : 0 < |r| := lt_of_lt_of_le (by positivity) hlow
    right
    rw [abs_inv, ← one_div, one_div_le_one_div (by positivity) hpos]
    refine ⟨hhigh, ?_⟩
    rwa [div_le_iff₀ hpos, ← div_le_iff₀' (by positivity)]

theorem div (hr : Within j r) (hs : Within k s) : Within (j + k) (r / s) := by
  rw [div_eq_mul_inv]
  exact hr.mul hs.inv

theorem intCast {n : Int} (h : n.natAbs ≤ 2 ^ k) : Within k n := by
  rcases eq_or_ne n 0 with rfl | hn
  · exact Or.inl Int.cast_zero
  · right
    rw [← Int.cast_abs, ← Nat.cast_natAbs]
    have : (1 : ℝ) / 2 ^ k ≤ 1 := div_le_one_of_le₀ (one_le_pow₀ one_le_two) (by positivity)
    exact ⟨this.trans (by exact_mod_cast Int.natAbs_pos.mpr hn), by exact_mod_cast h⟩

theorem natCast {n : Nat} (h : n ≤ 2 ^ k) : Within k n := by
  have hcast := intCast (n := n) (k := k) (by rwa [Int.natAbs_natCast])
  rwa [Int.cast_natCast] at hcast

end Within

/-- A finite double whose distance from a real number is a small part of that number. -/
structure Precise (x : Float) (r α : ℝ) : Prop where
  finite : isFinite x = true
  error : |(number x : ℝ) - r| ≤ α * |r|

namespace Precise

theorem self (hx : isFinite x = true) : Precise x (number x) 0 := ⟨hx, by simp⟩

theorem mono (h : Precise x r α) (hα : α ≤ β) : Precise x r β :=
  ⟨h.finite, h.error.trans (by gcongr)⟩

theorem close (h : Precise x r α) {b : ℝ} (hα : 0 ≤ α) (hr : |r| ≤ b) : Close x r (α * b) :=
  ⟨h.finite, h.error.trans (by gcongr)⟩

theorem of_nearest (hx : Nearest x q) (hq : |(q : ℝ) - r| ≤ α * |r|) (hα : α ≤ 1 / 2)
    (h : Within 99 r) : Precise x r (α + (1 + α) / 2 ^ 53) := by
  have hr := abs_nonneg r
  have hupper := abs_sub_abs_le_abs_sub (q : ℝ) r
  have hlower := abs_sub_abs_le_abs_sub r (q : ℝ)
  rw [abs_sub_comm r] at hlower
  have hscaled : α * |r| ≤ 1 / 2 * |r| := by gcongr
  have hlarge : |(q : ℝ)| ≤ 2 ^ 100 := by
    rcases h with rfl | ⟨-, h⟩
    · rw [abs_zero] at *
      linarith
    · linarith
  have hnormal : q = 0 ∨ 1 / 2 ^ 100 ≤ |(q : ℝ)| := by
    rcases h with rfl | ⟨h, -⟩
    · left
      rw [abs_zero, mul_zero, sub_zero] at hq
      exact_mod_cast abs_eq_zero.mp (le_antisymm hq (abs_nonneg _))
    · right
      linarith
  refine ⟨hx.isFinite_of_real hlarge, ?_⟩
  have herror := hx.real_error_of_normal hlarge hnormal
  have htriangle := abs_sub_le (number x : ℝ) q r
  have : |(q : ℝ)| / 2 ^ 53 ≤ (1 + α) * |r| / 2 ^ 53 := by
    gcongr
    linarith
  calc |(number x : ℝ) - r| ≤ (1 + α) * |r| / 2 ^ 53 + α * |r| := by linarith
    _ = (α + (1 + α) / 2 ^ 53) * |r| := by ring

theorem mul (hx : Precise x r α) (hy : Precise y s β) (hαβ : α + β + α * β ≤ 1 / 2)
    (h : Within 99 (r * s)) :
    Precise (x * y) (r * s) (α + β + α * β + (1 + (α + β + α * β)) / 2 ^ 53) := by
  refine of_nearest (nearest_mul hx.finite hy.finite) ?_ hαβ h
  have hsplit : ((number x * number y : ℚ) : ℝ) - r * s =
      ((number x : ℝ) - r) * s + r * ((number y : ℝ) - s) +
        ((number x : ℝ) - r) * ((number y : ℝ) - s) := by
    push_cast
    ring
  have hfirst : |((number x : ℝ) - r) * s| ≤ α * |r| * |s| := by
    rw [abs_mul]
    gcongr
    exact hx.error
  have hsecond : |r * ((number y : ℝ) - s)| ≤ |r| * (β * |s|) := by
    rw [abs_mul]
    gcongr
    exact hy.error
  have hthird : |((number x : ℝ) - r) * ((number y : ℝ) - s)| ≤ α * |r| * (β * |s|) := by
    rw [abs_mul]
    exact mul_le_mul hx.error hy.error (abs_nonneg _) ((abs_nonneg _).trans hx.error)
  rw [hsplit, abs_mul r s]
  calc |((number x : ℝ) - r) * s + r * ((number y : ℝ) - s) +
        ((number x : ℝ) - r) * ((number y : ℝ) - s)|
      ≤ α * |r| * |s| + |r| * (β * |s|) + α * |r| * (β * |s|) :=
        (abs_add_le _ _).trans
          (add_le_add ((abs_add_le _ _).trans (add_le_add hfirst hsecond)) hthird)
    _ = (α + β + α * β) * (|r| * |s|) := by ring

theorem div (hx : Precise x r α) (hy : isFinite y = true) (hs : (number y : ℝ) = s) (hs₀ : s ≠ 0)
    (hα : α ≤ 1 / 2) (h : Within 99 (r / s)) :
    Precise (x / y) (r / s) (α + (1 + α) / 2 ^ 53) := by
  have hy₀ : number y ≠ 0 := by
    rintro hzero
    rw [hzero, Rat.cast_zero] at hs
    exact hs₀ hs.symm
  refine of_nearest (nearest_div hx.finite hy hy₀) ?_ hα h
  rw [Rat.cast_div, hs, ← sub_div, abs_div, abs_div, ← mul_div_assoc]
  gcongr
  exact hx.error

end Precise

end FilterReference.Binary
