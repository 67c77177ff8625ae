/-
# The interpolation grid

The grid is laid out in doubles: its step is `1 / up` rounded, its points are multiples of the step
rounded again, and its length is a rounded quotient.  As long as the exact grid has at most `2 ^ 50`
points, the three errors stay below the distance of two points.  So the grid has the exact number of
points or one more (`gridLength_bounds`), and a point between two samples lies between the same two
samples on the exact grid (`floorCount_gridPosition`).
-/
import FilterReference.Proofs.Binary.Counts
import FilterReference.Signal.Resampling

namespace FilterReference

open Binary

variable {len up k : Nat}

/-! ## Step, points and end

Each rounding is off by at most the `2 ^ 53`rd part.  A point is a multiple of the step, so the
error of the step grows with the number of the point, but with at most `2 ^ 50` points it stays
below half the distance of two of them. -/

theorem one_eq_ofCount : (1 : Float) = ofCount 1 := rfl

theorem nearest_gridStep (h₀ : 0 < up) (h : up ≤ 2 ^ 50) : Nearest (gridStep up) (1 / up) := by
  obtain ⟨hone, -, -⟩ := ofCount_exact (n := 1) (by norm_num)
  obtain ⟨hup, -, -⟩ := ofCount_exact (n := up) (by omega)
  have hnumber : number (ofCount up) = up := number_ofCount (by omega)
  have hne : (up : ℚ) ≠ 0 := by exact_mod_cast h₀.ne'
  have hdiv := nearest_div hone hup (by rwa [hnumber])
  rwa [number_ofCount (n := 1) (by norm_num), hnumber, Nat.cast_one, ← one_eq_ofCount] at hdiv

theorem rounds_gridStep (h₀ : 0 < up) (h : up ≤ 2 ^ 50) : Rounds (gridStep up) (1 / up) := by
  have hup : (0 : ℚ) < up := by exact_mod_cast h₀
  have hone : (1 : ℚ) ≤ up := by exact_mod_cast h₀
  have hle : (up : ℚ) ≤ 2 ^ 50 := by exact_mod_cast h
  refine (nearest_gridStep h₀ h).rounds (ordinary_of_bounds ?_ ?_)
  · exact one_div_le_one_div_of_le hup (hle.trans (by norm_num))
  · rw [div_le_iff₀ hup]
    linarith

theorem size_gridStep (h₀ : 0 < up) (h : up ≤ 2 ^ 50) :
    1 / up / 2 ≤ size (gridStep up) ∧ size (gridStep up) ≤ 2 * (1 / up : ℚ) ∧
      |size (gridStep up) - 1 / up| ≤ 1 / up / 2 ^ 53 := by
  have herror := (rounds_gridStep h₀ h).error
  have hpos : (0 : ℚ) < 1 / up := by
    have : (0 : ℚ) < up := by exact_mod_cast h₀
    positivity
  obtain ⟨h₁, h₂⟩ := abs_le.mp herror
  refine ⟨?_, ?_, herror⟩ <;> linarith

theorem number_gridStep (h₀ : 0 < up) (h : up ≤ 2 ^ 50) :
    number (gridStep up) = size (gridStep up) :=
  number_of_positive (rounds_gridStep h₀ h).positive

theorem nearest_gridEnd {count : Nat} (h₀ : 0 < up) (h : up ≤ 2 ^ 50) (hcount : count ≤ 2 ^ 53) :
    Nearest (ofCount count / gridStep up) (count / number (gridStep up)) := by
  obtain ⟨hfinite, -, -⟩ := ofCount_exact hcount
  have hlow := (size_gridStep h₀ h).1
  have hup : (0 : ℚ) < up := by exact_mod_cast h₀
  have hpos : 0 < size (gridStep up) := lt_of_lt_of_le (by positivity) hlow
  have hne : number (gridStep up) ≠ 0 := by
    rw [number_gridStep h₀ h]
    exact hpos.ne'
  have hdiv := nearest_div hfinite (rounds_gridStep h₀ h).finite hne
  rwa [number_ofCount hcount] at hdiv

/-- A grid point is less than half the distance of two points away from its exact place. -/
theorem gridPosition_error (h₀ : 0 < up) (h : up ≤ 2 ^ 50) (hk₀ : 0 < k) (hk : k ≤ 2 ^ 50) :
    isFinite (gridPosition up k) = true ∧ negative (gridPosition up k) = false ∧
      |size (gridPosition up k) - k / up| < 1 / up / 2 := by
  obtain ⟨hlow, hhigh, hstep⟩ := size_gridStep h₀ h
  have hup : (0 : ℚ) < 1 / up := by
    have : (0 : ℚ) < up := by exact_mod_cast h₀
    positivity
  have hup' : 1 / 2 ^ 50 ≤ (1 / up : ℚ) :=
    one_div_le_one_div_of_le (by exact_mod_cast h₀) (by exact_mod_cast h)
  have hup'' : (1 / up : ℚ) ≤ 1 := by
    rw [div_le_one (by exact_mod_cast h₀)]
    exact_mod_cast h₀
  have hkpos : (1 : ℚ) ≤ k := by exact_mod_cast hk₀
  have hkle : (k : ℚ) ≤ 2 ^ 50 := by exact_mod_cast hk
  obtain ⟨-, -, hsize⟩ := ofCount_exact (n := k) (by omega)
  have hrounds := (rounds_ofCount (n := k) (by omega)).mul (rounds_gridStep h₀ h)
  rw [hsize] at hrounds
  generalize size (gridStep up) = step at *
  rw [show (k / up : ℚ) = k * (1 / up) by ring]
  generalize (1 / up : ℚ) = unit at *
  obtain ⟨hfinite, hpositive, herror⟩ := hrounds (ordinary_of_bounds (by nlinarith) (by nlinarith))
  refine ⟨hfinite, hpositive, ?_⟩
  have hscaled : |k * step - k * unit| ≤ 2 ^ 50 * (unit / 2 ^ 53) := by
    rw [← mul_sub, abs_mul, Nat.abs_cast]
    exact mul_le_mul hkle hstep (abs_nonneg _) (by positivity)
  have hproduct : k * step ≤ 2 ^ 50 * (2 * unit) :=
    mul_le_mul hkle hhigh (by linarith) (by positivity)
  have hsum := abs_sub_le (size (gridPosition up k)) (k * step) (k * unit)
  rw [gridPosition] at hsum ⊢
  linarith

theorem gridEnd_error {count : Nat} (h₀ : 0 < up) (hc₀ : 0 < count)
    (h : count * up ≤ 2 ^ 50) :
    isFinite (ofCount count / gridStep up) = true ∧
      negative (ofCount count / gridStep up) = false ∧
      |size (ofCount count / gridStep up) - (count * up : Nat)| < 1 := by
  have hup : up ≤ 2 ^ 50 := le_trans (Nat.le_mul_of_pos_left up hc₀) h
  have hcount : count ≤ 2 ^ 50 := le_trans (Nat.le_mul_of_pos_right count h₀) h
  obtain ⟨hlow, hhigh, hstep⟩ := size_gridStep h₀ hup
  have hcpos : (1 : ℚ) ≤ count := by exact_mod_cast hc₀
  have hcle : (count : ℚ) ≤ 2 ^ 50 := by exact_mod_cast hcount
  have hupos : (1 : ℚ) ≤ up := by exact_mod_cast h₀
  have htotal : (count * up : ℚ) ≤ 2 ^ 50 := by exact_mod_cast h
  obtain ⟨-, -, hsize⟩ := ofCount_exact (n := count) (by omega)
  have hrounds := (rounds_ofCount (n := count) (by omega)).div (rounds_gridStep h₀ hup)
  rw [hsize] at hrounds
  have hunit : (0 : ℚ) < 1 / up := by positivity
  generalize size (gridStep up) = step at *
  have hspos : 0 < step := by linarith
  have hexact : |count / step - count * up| ≤ 1 / 4 := by
    have hfactor : count / step - count * up = count * up * ((1 / up - step) / step) := by
      field_simp
    have hratio : |(1 / up - step) / step| ≤ 2 / 2 ^ 53 := by
      rw [abs_div, abs_of_pos hspos, div_le_iff₀ hspos, abs_sub_comm]
      linarith
    rw [hfactor, abs_mul, abs_of_pos (by positivity)]
    calc (count * up : ℚ) * |(1 / up - step) / step| ≤ 2 ^ 50 * (2 / 2 ^ 53) :=
          mul_le_mul htotal hratio (abs_nonneg _) (by positivity)
      _ = 1 / 4 := by norm_num
  have hone : (1 : ℚ) ≤ count * up := by
    calc (1 : ℚ) = 1 * 1 := (one_mul 1).symm
      _ ≤ count * up := mul_le_mul hcpos hupos (by norm_num) (by linarith)
  obtain ⟨hbelow, habove⟩ := abs_le.mp hexact
  obtain ⟨hfinite, hpositive, herror⟩ :=
    hrounds hspos (ordinary_of_bounds (by linarith) (by linarith))
  refine ⟨hfinite, hpositive, ?_⟩
  have hsum := abs_sub_le (size (ofCount count / gridStep up)) (count / step) (count * up)
  rw [Nat.cast_mul]
  linarith

/-! ## Length -/

theorem gridLength_of_one_lt (hup : 1 < up) (hlen : 2 ≤ len) :
    gridLength len up = ceilCount (ofCount (len - 1) / gridStep up) := by
  rw [gridLength, if_neg (by omega)]

/-- The grid has the exact number of points, or one more. -/
theorem gridLength_bounds (hup : 0 < up) (hlen : 0 < len) (hgrow : up = 1 ∨ 2 ≤ len)
    (h : (len - 1) * up ≤ 2 ^ 50) :
    (len - 1) * up ≤ gridLength len up ∧ gridLength len up ≤ (len - 1) * up + 1 := by
  rcases Nat.lt_or_ge 1 up with hlt | hle
  · have hlen : 2 ≤ len := by omega
    obtain ⟨hfinite, hpositive, herror⟩ := gridEnd_error hup (by omega : 0 < len - 1) h
    obtain ⟨hbelow, habove⟩ := abs_lt.mp herror
    have hlow : (len - 1) * up ≤ ⌈size (ofCount (len - 1) / gridStep up)⌉₊ := by
      rcases Nat.eq_zero_or_pos ((len - 1) * up) with hzero | hpos
      · rw [hzero]
        exact Nat.zero_le _
      · obtain ⟨n, hn⟩ : ∃ n, (len - 1) * up = n + 1 := ⟨_, (Nat.succ_pred_eq_of_pos hpos).symm⟩
        rw [hn] at hbelow ⊢
        rw [Nat.add_one_le_ceil_iff]
        push_cast at hbelow
        linarith
    have hhigh : ⌈size (ofCount (len - 1) / gridStep up)⌉₊ ≤ (len - 1) * up + 1 := by
      rw [Nat.ceil_le]
      push_cast at habove ⊢
      linarith
    have hmax : (len - 1) * up + 1 ≤ maxCount := by
      have : 2 ^ 50 + 1 ≤ maxCount := by decide
      omega
    rw [gridLength_of_one_lt hlt hlen, ceilCount_eq hfinite hpositive]
    omega
  · have hone : up = 1 := by omega
    rw [gridLength, if_pos (Or.inl hle), hone]
    omega

/-- **A step that was not rounded down gives the grid no further point.** -/
theorem gridLength_of_le_gridStep (hup : 1 < up) (hlen : 2 ≤ len) (h : (len - 1) * up ≤ 2 ^ 50)
    (hstep : 1 / up ≤ number (gridStep up)) : gridLength len up = (len - 1) * up := by
  have hup₀ : 0 < up := by omega
  have hcount₀ : 0 < len - 1 := by omega
  have hup' : up ≤ 2 ^ 50 := le_trans (Nat.le_mul_of_pos_left up hcount₀) h
  have hcount : len - 1 ≤ 2 ^ 50 := le_trans (Nat.le_mul_of_pos_right (len - 1) hup₀) h
  obtain ⟨hfinite, hpositive, -⟩ := gridEnd_error hup₀ hcount₀ h
  have hupq : (0 : ℚ) < up := by exact_mod_cast hup₀
  have hpos : 0 < number (gridStep up) := lt_of_lt_of_le (by positivity) hstep
  have hexact : |((len - 1 : Nat) / number (gridStep up) : ℚ)| ≤ ((len - 1) * up : Nat) := by
    rw [abs_of_nonneg (by positivity), div_le_iff₀ hpos]
    calc ((len - 1 : Nat) : ℚ) = ((len - 1) * up : Nat) * (1 / up) := by
          push_cast
          field_simp
      _ ≤ ((len - 1) * up : Nat) * number (gridStep up) :=
          mul_le_mul_of_nonneg_left hstep (Nat.cast_nonneg _)
  have hend := (nearest_gridEnd hup₀ hup' (by omega : len - 1 ≤ 2 ^ 53)).size_le_natCast
    (by omega) hexact
  have hle : gridLength len up ≤ (len - 1) * up := by
    rw [gridLength_of_one_lt hup hlen, ceilCount_eq hfinite hpositive]
    exact (min_le_left _ _).trans (Nat.ceil_le.mpr hend)
  exact le_antisymm hle (gridLength_bounds hup₀ (by omega) (Or.inr hlen) h).1

theorem gridLength_mono {len' : Nat} (hup : 0 < up) (hlen : 0 < len) (hgrow : up = 1 ∨ 2 ≤ len)
    (hle : len ≤ len') (h : (len' - 1) * up ≤ 2 ^ 50) :
    gridLength len up ≤ gridLength len' up := by
  rcases hle.lt_or_eq with hlt | rfl
  · have hprod : (len - 1) * up + up ≤ (len' - 1) * up := by
      rw [← Nat.succ_mul]
      exact Nat.mul_le_mul_right up (by omega)
    have h₁ := (gridLength_bounds hup hlen hgrow (by omega)).2
    have h₂ := (gridLength_bounds hup (by omega) (by omega : up = 1 ∨ 2 ≤ len') h).1
    omega
  · exact le_refl _

/-! ## Points between samples

On the exact grid a point between two samples is one step away from both at least.  The computed
point is off by less than half a step, so it has not left the segment. -/

/-- On the exact grid, the neighbours of a point that is no sample are not past the two samples
around it. -/
theorem exact_between_samples (h₀ : 0 < up) (hmod : k % up ≠ 0) :
    ((k / up : Nat) + 1 / up : ℚ) ≤ k / up ∧ (k / up : ℚ) ≤ (k / up : Nat) + 1 - 1 / up := by
  have hpos : (0 : ℚ) < up := by exact_mod_cast h₀
  have hdiv := Nat.div_add_mod' k up
  have hlt := Nat.mod_lt k h₀
  constructor
  · rw [← le_sub_iff_add_le, ← sub_div, le_div_iff₀ hpos, le_sub_iff_add_le]
    have : k / up * up + 1 ≤ k := by omega
    exact_mod_cast this
  · rw [le_sub_iff_add_le, ← add_div, div_le_iff₀ hpos, add_mul, one_mul]
    have : k + 1 ≤ k / up * up + up := by omega
    exact_mod_cast this

theorem floorCount_gridPosition (h₀ : 0 < up) (hup : up ≤ 2 ^ 50) (hk : k ≤ 2 ^ 50)
    (hmod : k % up ≠ 0) : floorCount (gridPosition up k) = k / up := by
  have hk₀ : 0 < k := Nat.pos_of_ne_zero (fun h => hmod (by rw [h, Nat.zero_mod]))
  obtain ⟨hfinite, hpositive, herror⟩ := gridPosition_error h₀ hup hk₀ hk
  obtain ⟨hbelow, habove⟩ := abs_lt.mp herror
  obtain ⟨hleft, hright⟩ := exact_between_samples h₀ hmod
  have hpos : (0 : ℚ) < 1 / up := by
    have : (0 : ℚ) < up := by exact_mod_cast h₀
    positivity
  have hfloor : ⌊size (gridPosition up k)⌋₊ = k / up := by
    rw [Nat.floor_eq_iff (size_nonneg _)]
    constructor <;> linarith
  have hmax : k / up ≤ maxCount := by
    have : 2 ^ 50 ≤ maxCount := by decide
    exact (Nat.div_le_self k up).trans (hk.trans this)
  rw [floorCount_eq hfinite hpositive, hfloor, Nat.min_eq_left hmax]

end FilterReference
