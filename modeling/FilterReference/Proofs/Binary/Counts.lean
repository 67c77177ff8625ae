/-
# Counts as doubles

Counts up to `2 ^ 53` are doubles, and rounding does not pass them.  So a quotient that is rounded
stays on the side of every such count that it is on (`natCast_le_size`, `size_le_natCast`), which is
what the integer part of a rounded number depends on.  A number without a sign that is neither tiny
nor near infinity is rounded with an error of at most its `2 ^ 53`rd part (`Nearest.rounds`), and so
are the products and quotients of doubles (`Rounds.mul`, `Rounds.div`).
-/
import FilterReference.Proofs.Binary.Nearest
import Mathlib.Algebra.Order.Floor.Semifield

namespace FilterReference.Binary

open Format (two_zpow_pos)

theorem value_large : binary64.value (2046 * 2 ^ 52) = 2 ^ (1023 : Int) := by
  have h := binary64.value_pattern (e := 2045) (m := 2 ^ 52) (by decide) (Or.inr (le_refl _))
  change binary64.value (2045 * 2 ^ 52 + 2 ^ 52) = _ at h
  rw [show 2046 * 2 ^ 52 = 2045 * 2 ^ 52 + 2 ^ 52 by norm_num, h]
  change (((2 ^ 52 : Nat) : ℚ)) * 2 ^ (-1074 + 2045 : Int) = _
  rw [Nat.cast_pow, Nat.cast_ofNat, ← zpow_natCast, ← zpow_add₀ (by norm_num)]
  norm_num

theorem nearest_lt_infinity {num den : Nat} (hd : den ≠ 0)
    (h : (num / den : ℚ) ≤ 2 ^ (1023 : Int)) : binary64.nearest num den < binary64.infinity := by
  rw [← value_large] at h
  have := binary64.nearest_le hd (by decide) h
  exact lt_of_le_of_lt this (by decide)

theorem isFinite_ofQuotient (negative : Bool) {num den : Nat} (hd : den ≠ 0)
    (h : (num / den : ℚ) ≤ 2 ^ (1023 : Int)) : isFinite (ofQuotient negative num den) = true := by
  rw [isFinite, magnitude_ofQuotient]
  exact decide_eq_true (nearest_lt_infinity hd h)

/-! ## Counts -/

theorem exists_value_natCast {n : Nat} (h : n ≤ 2 ^ 53) :
    ∃ bits, bits < binary64.infinity ∧ binary64.value bits = n := by
  have hlarge : ∀ bits, binary64.value bits = n → bits < binary64.infinity := by
    intro bits hbits
    have hle : binary64.value bits ≤ binary64.value (2046 * 2 ^ 52) := by
      rw [hbits, value_large, show (1023 : Int) = (1023 : Nat) by rfl, zpow_natCast]
      exact_mod_cast h.trans (Nat.pow_le_pow_right (by norm_num) (by norm_num))
    rw [binary64.value_le_value] at hle
    exact lt_of_le_of_lt hle (by decide)
  rcases h.lt_or_eq with hlt | rfl
  · have hvalue := binary64.value_unbounded_natCast (n := n) hlt (by decide)
    exact ⟨_, hlarge _ hvalue, hvalue⟩
  · have hvalue : binary64.value (1074 * 2 ^ 52 + 2 ^ 53) = (2 ^ 53 : Nat) := by
      have h := binary64.value_pattern (e := 1074) (m := 2 ^ 53) (le_refl _) (Or.inr (by decide))
      change binary64.value (1074 * 2 ^ 52 + 2 ^ 53) = _ at h
      rw [h]
      change ((2 ^ 53 : Nat) : ℚ) * 2 ^ (-1074 + 1074 : Int) = _
      norm_num
    exact ⟨_, hlarge _ hvalue, hvalue⟩

theorem natCast_le_size (negative : Bool) {num den n : Nat} (hd : den ≠ 0) (hn : n ≤ 2 ^ 53)
    (h : (n : ℚ) ≤ num / den) : (n : ℚ) ≤ size (ofQuotient negative num den) := by
  obtain ⟨bits, hb, hvalue⟩ := exists_value_natCast hn
  rw [size_ofQuotient, ← hvalue, binary64.value_le_value]
  exact binary64.le_nearest hd hb.le (by rwa [hvalue])

theorem size_le_natCast (negative : Bool) {num den n : Nat} (hd : den ≠ 0) (hn : n ≤ 2 ^ 53)
    (h : (num / den : ℚ) ≤ n) : size (ofQuotient negative num den) ≤ n := by
  obtain ⟨bits, hb, hvalue⟩ := exists_value_natCast hn
  rw [size_ofQuotient, ← hvalue, binary64.value_le_value]
  exact binary64.nearest_le hd hb.le (by rwa [hvalue])

/-- Counts up to `2 ^ 53` are doubles. -/
theorem ofCount_exact {n : Nat} (h : n ≤ 2 ^ 53) :
    isFinite (ofCount n) = true ∧ negative (ofCount n) = false ∧ size (ofCount n) = n := by
  have hn : n < 2 ^ 64 := by omega
  have hone : (n / (1 : Nat) : ℚ) = n := by rw [Nat.cast_one, div_one]
  have hlarge : (n / (1 : Nat) : ℚ) ≤ 2 ^ (1023 : Int) := by
    rw [hone, show (1023 : Int) = (1023 : Nat) by rfl, zpow_natCast]
    exact_mod_cast h.trans (Nat.pow_le_pow_right (by norm_num) (by norm_num))
  rw [ofCount_eq hn]
  refine ⟨isFinite_ofQuotient _ Nat.one_ne_zero hlarge, negative_ofQuotient _ _ _, ?_⟩
  exact le_antisymm (size_le_natCast _ Nat.one_ne_zero h hone.le)
    (natCast_le_size _ Nat.one_ne_zero h hone.ge)

theorem number_ofCount {n : Nat} (h : n ≤ 2 ^ 53) : number (ofCount n) = n := by
  obtain ⟨-, hpositive, hsize⟩ := ofCount_exact h
  rw [number_of_positive hpositive, hsize]

/-! ## Integer parts -/

theorem toCount_eq (cut : Nat → Nat → Nat) {x : Float} (hx : isFinite x = true)
    (hs : negative x = false) :
    toCount cut x = min (cut (binary64.quotient (magnitude x)).1
      (binary64.quotient (magnitude x)).2) maxCount := by
  have hne : ¬ magnitude x = binary64.infinity := by
    rw [isFinite, decide_eq_true_eq] at hx
    omega
  simp only [toCount, hs, isNaN_of_isFinite hx, Bool.or_self, Bool.false_eq_true, if_false,
    if_neg hne]

theorem floorCount_eq {x : Float} (hx : isFinite x = true) (hs : negative x = false) :
    floorCount x = min ⌊size x⌋₊ maxCount := by
  rw [floorCount, toCount_eq _ hx hs, size, ← binary64.quotient_eq, Nat.floor_div_eq_div]

theorem ceilCount_eq {x : Float} (hx : isFinite x = true) (hs : negative x = false) :
    ceilCount x = min ⌈size x⌉₊ maxCount := by
  have hpos := binary64.quotient_pos (magnitude x)
  have hceil : ⌈size x⌉₊ = ((binary64.quotient (magnitude x)).1 +
      (binary64.quotient (magnitude x)).2 - 1) / (binary64.quotient (magnitude x)).2 := by
    rw [size, ← binary64.quotient_eq]
    generalize (binary64.quotient (magnitude x)).1 = num
    generalize (binary64.quotient (magnitude x)).2 = den at *
    have hd : (0 : ℚ) < den := by exact_mod_cast hpos
    have hdiv := Nat.div_add_mod' (num + den - 1) den
    have hmod := Nat.mod_lt (num + den - 1) hpos
    apply le_antisymm
    · rw [Nat.ceil_le, div_le_iff₀ hd]
      have : num ≤ (num + den - 1) / den * den := by omega
      exact_mod_cast this
    · rcases Nat.eq_zero_or_pos num with rfl | hn
      · rw [Nat.div_eq_of_lt (by omega)]
        exact Nat.zero_le _
      · have hlt : (num - 1) / den * den < num := by
          have := Nat.div_mul_le_self (num - 1) den
          omega
        rw [show num + den - 1 = num - 1 + den by omega, Nat.add_div_right _ hpos,
          Nat.add_one_le_ceil_iff, lt_div_iff₀ hd]
        exact_mod_cast hlt
  rw [ceilCount, toCount_eq _ hx hs, hceil]

/-! ## Rounded results

The grid is computed from positive numbers that are neither tiny nor huge.  For these a rounded
result is finite, positive, and off by a part of itself: three facts that are always wanted together
(`Rounds`). -/

/-- A double is a number of ordinary size, rounded. -/
structure Rounds (x : Float) (q : ℚ) : Prop where
  finite : isFinite x = true
  positive : negative x = false
  error : |size x - q| ≤ q / 2 ^ 53

/-- The numbers that are neither rounded to less than 53 bits nor anywhere near infinity. -/
def Ordinary (q : ℚ) : Prop := 2 ^ (-1022 : Int) ≤ q ∧ q ≤ 2 ^ (1023 : Int)

theorem ordinary_of_bounds {q : ℚ} (hlow : 1 / 2 ^ 100 ≤ q) (hhigh : q ≤ 2 ^ 100) :
    Ordinary q := by
  constructor
  · refine le_trans ?_ hlow
    rw [one_div, ← zpow_natCast, ← zpow_neg]
    exact zpow_le_zpow_right₀ (by norm_num) (by norm_num)
  · refine hhigh.trans ?_
    rw [← zpow_natCast]
    exact zpow_le_zpow_right₀ (by norm_num) (by norm_num)

theorem Nearest.rounds {x : Float} {q : ℚ} (h : Nearest x q) (hq : Ordinary q) : Rounds x q := by
  have hpos : 0 < q := (two_zpow_pos _).trans_le hq.1
  have habs : |q| = q := abs_of_pos hpos
  have hfinite : isFinite x = true := by
    rw [isFinite, h.magnitude_eq]
    exact decide_eq_true (nearest_lt_infinity q.den_ne_zero (by rw [natAbs_div_den, habs]; exact hq.2))
  have herror := h.relative_error hfinite (by rw [habs]; exact hq.1)
  rw [habs] at herror
  exact ⟨hfinite, (h.negative_eq hpos.ne').trans (decide_eq_false hpos.le.not_gt), herror⟩

theorem rounds_ofQuotient {num den : Nat} {q : ℚ} (hd : den ≠ 0) (h : (num / den : ℚ) = q)
    (hq : Ordinary q) : Rounds (ofQuotient false num den) q := by
  have hpos : 0 < q := (two_zpow_pos _).trans_le hq.1
  have hnearest := nearest_ofQuotient (s := false) hd (h.trans (abs_of_pos hpos).symm)
    fun _ => (decide_eq_false hpos.le.not_gt).symm
  exact hnearest.rounds hq

theorem rounds_ofCount {n : Nat} (h : n ≤ 2 ^ 53) : Rounds (ofCount n) n := by
  obtain ⟨hfinite, hpositive, hsize⟩ := ofCount_exact h
  refine ⟨hfinite, hpositive, ?_⟩
  rw [hsize, sub_self, abs_zero]
  positivity

theorem Rounds.mul {x y : Float} {p q : ℚ} (hx : Rounds x p) (hy : Rounds y q)
    (h : Ordinary (size x * size y)) : Rounds (x * y) (size x * size y) := by
  have hnearest := nearest_mul hx.finite hy.finite
  rw [number_of_positive hx.positive, number_of_positive hy.positive] at hnearest
  exact hnearest.rounds h

theorem Rounds.div {x y : Float} {p q : ℚ} (hx : Rounds x p) (hy : Rounds y q)
    (hy₀ : 0 < size y) (h : Ordinary (size x / size y)) : Rounds (x / y) (size x / size y) := by
  have hne : number y ≠ 0 := by
    rw [number_of_positive hy.positive]
    exact hy₀.ne'
  have hnearest := nearest_div hx.finite hy.finite hne
  rw [number_of_positive hx.positive, number_of_positive hy.positive] at hnearest
  exact hnearest.rounds h

end FilterReference.Binary
