/-
# The shortest decimal has the fewest digits

No decimal that is read as a double has fewer digits than the one that is shown of it
(`shortest_digits_le`), and the last digit shown is not a zero (`shortest_mod_ten`).

The search begins on the grid of the first digit of the exact value and ends on the first grid with
a hit.  A decimal that is read as the double is a point of the grid of its own last digit; if its
first digit stands elsewhere than that of the exact value, a power of ten lies between the two, is
read as the double as well, and is a point of the very first grid (`exists_hit_of_nearest`).
-/
import FilterReference.Proofs.Decimal.Literal

namespace FilterReference

open Binary

namespace Decimal

/-! ## The number of digits -/

theorem digits_length_pos (d : Decimal) : 0 < d.digits.length := Nat.length_toDigits_pos

theorem digits_length_le_iff {d : Decimal} {k : Nat} (hk : 0 < k) :
    d.digits.length ≤ k ↔ d.significand < 10 ^ k :=
  Nat.length_toDigits_le_iff (by decide) hk

theorem significand_lt (d : Decimal) : d.significand < 10 ^ d.digits.length :=
  (digits_length_le_iff d.digits_length_pos).mp (le_refl _)

theorem le_significand {d : Decimal} (h : d.significand ≠ 0) :
    10 ^ (d.digits.length - 1) ≤ d.significand := by
  rcases Nat.eq_zero_or_pos (d.digits.length - 1) with hone | hmore
  · rw [hone, Nat.pow_zero]
    exact Nat.pos_of_ne_zero h
  · by_contra hlt
    have := (digits_length_le_iff hmore).mpr (Nat.not_le.mp hlt)
    omega

theorem value_bounds {d : Decimal} (h : d.significand ≠ 0) :
    (10 : ℚ) ^ d.exponent ≤ d.value ∧ d.value < 10 ^ (d.exponent + 1) := by
  have hten := ten_zpow_pos d.power
  have hpos := d.digits_length_pos
  have hfirst : d.exponent = ((d.digits.length - 1 : Nat) : Int) + d.power := by
    unfold exponent
    omega
  have hnext : d.exponent + 1 = (d.digits.length : Int) + d.power := by
    unfold exponent
    omega
  constructor
  · rw [hfirst, zpow_add₀ (by norm_num), zpow_natCast, value]
    exact mul_le_mul_of_nonneg_right (by exact_mod_cast le_significand h) hten.le
  · rw [hnext, zpow_add₀ (by norm_num), zpow_natCast, value]
    exact mul_lt_mul_of_pos_right (by exact_mod_cast d.significand_lt) hten

/-! ## The grid of the first digit

A decimal that is read as the double may have its first digit in another place than the exact value,
but then a power of ten lies between the two.  That power is on the coarsest grid of all, so the
search ends there. -/

theorem lt_pow_leadingPower {num den : Nat} (hn : num ≠ 0) (hd : den ≠ 0) :
    (num / den : ℚ) < 10 ^ (leadingPower num den + 1) := by
  have hdpos : (0 : ℚ) < den := by exact_mod_cast Nat.pos_of_ne_zero hd
  unfold leadingPower
  split_ifs with hle
  · have hlt : num / den < 10 ^ digitCount (num / den) (num / den) := lt_pow_digitCount (le_refl _)
    rw [Int.sub_add_cancel, zpow_natCast, div_lt_iff₀ hdpos]
    calc (num : ℚ) < den * ((num / den + 1 : Nat) : ℚ) := by
          exact_mod_cast Nat.lt_mul_div_succ num (Nat.pos_of_ne_zero hd)
      _ ≤ den * 10 ^ digitCount (num / den) (num / den) := by
          refine mul_le_mul_of_nonneg_left ?_ hdpos.le
          exact_mod_cast hlt
      _ = 10 ^ digitCount (num / den) (num / den) * den := mul_comm _ _
  · obtain ⟨k, hk⟩ : ∃ k, digitCount den ((den - 1) / num) = k + 1 := by
      refine Nat.exists_eq_succ_of_ne_zero ?_
      have hquotient : (den - 1) / num ≠ 0 :=
        Nat.ne_of_gt (Nat.div_pos (by omega) (Nat.pos_of_ne_zero hn))
      obtain ⟨den', rfl⟩ := Nat.exists_eq_succ_of_ne_zero hd
      rw [digitCount, if_neg hquotient]
      exact Nat.succ_ne_zero _
    have hpow : 10 ^ k * num < den := by
      have hquotient : (den - 1) / num ≠ 0 :=
        Nat.ne_of_gt (Nat.div_pos (by omega) (Nat.pos_of_ne_zero hn))
      have hcount := pow_digitCount_le hquotient hd
      rw [hk, Nat.add_sub_cancel] at hcount
      have := Nat.mul_le_of_le_div num _ _ hcount
      omega
    rw [hk, show -((k + 1 : Nat) : Int) + 1 = -(k : Int) by push_cast; ring, zpow_neg, zpow_natCast,
      div_lt_iff₀ hdpos, inv_mul_eq_div, lt_div_iff₀ (by positivity), mul_comm]
    exact_mod_cast hpow

section Grids

variable (tie : Tie) {bits : Nat}

theorem firstPower_bounds (h₀ : bits ≠ 0) :
    (10 : ℚ) ^ firstPower bits ≤ binary64.value bits ∧
      binary64.value bits < 10 ^ (firstPower bits + 1) := by
  have hn := binary64.quotient_ne_zero h₀
  have hd := Nat.ne_of_gt (binary64.quotient_pos bits)
  rw [← binary64.quotient_eq]
  exact ⟨pow_leadingPower_le hn hd, lt_pow_leadingPower hn hd⟩

theorem significand_le_of_onFiner? (h₀ : bits ≠ 0) {d : Decimal} {j : Nat}
    (h : onFiner? tie bits j = some d) : d.significand ≤ 10 ^ (j + 1) := by
  have hd := Nat.ne_of_gt (binary64.quotient_pos bits)
  obtain ⟨-, hle, -⟩ := onGrid?_eq_some h
  obtain ⟨hlower, -⟩ := neighbours_bounds (binary64.quotient bits).1 hd (firstPower bits - j)
  rw [binary64.quotient_eq] at hlower
  generalize (inUnits _ _ (firstPower bits - (j : Int))).1 /
    (inUnits _ _ (firstPower bits - (j : Int))).2 = lower at hle hlower
  have hlt : (lower : ℚ) < 10 ^ (j + 1) := by
    refine lt_of_mul_lt_mul_right ?_ (ten_zpow_pos (firstPower bits - j)).le
    calc (lower : ℚ) * 10 ^ (firstPower bits - j) < 10 ^ (firstPower bits + 1) :=
          hlower.trans_lt (firstPower_bounds h₀).2
      _ = 10 ^ (j + 1) * 10 ^ (firstPower bits - j) := by
          rw [← zpow_natCast, ← zpow_add₀ (by norm_num)]
          congr 1
          push_cast
          ring
  have hlt' : lower < 10 ^ (j + 1) := by exact_mod_cast hlt
  omega

/-- A decimal that is read as the pattern has as many digits as a grid with a hit at least. -/
theorem exists_hit_of_nearest (h₀ : bits ≠ 0) (hb : bits < binary64.infinity) {d : Decimal}
    (hd : d.nearest = bits) : ∃ j < d.digits.length, (onFiner? tie bits j).isSome = true := by
  obtain ⟨hlow, hhigh⟩ := value_bounds (significand_ne_zero (by rwa [hd]))
  obtain ⟨hfirst, hnext⟩ := firstPower_bounds h₀
  have hpos := d.digits_length_pos
  have hgrid : firstPower bits - ((0 : Nat) : Int) = firstPower bits := by omega
  have hone : (⟨1, firstPower bits⟩ : Decimal).value = 10 ^ firstPower bits := by
    rw [value, Nat.cast_one, one_mul]
  have hten : (⟨10, firstPower bits⟩ : Decimal).value = 10 ^ (firstPower bits + 1) := by
    rw [value, zpow_add_one₀ (by norm_num), mul_comm]
    rfl
  rcases lt_trichotomy d.exponent (firstPower bits) with hlt | heq | hgt
  · -- Between the two is the power of ten of the first digit.
    have hle : d.value ≤ (⟨1, firstPower bits⟩ : Decimal).value := by
      rw [hone]
      exact hhigh.le.trans (zpow_le_zpow_right₀ (by norm_num) (by omega))
    have hread : (⟨1, firstPower bits⟩ : Decimal).nearest = bits :=
      Nat.le_antisymm (nearest_le hb.le (by rwa [hone])) (hd.ge.trans (nearest_mono hle))
    exact ⟨0, hpos, onFiner?_isSome tie hb.le (by rwa [hgrid])⟩
  · have hpower : firstPower bits - ((d.digits.length - 1 : Nat) : Int) = d.power := by
      unfold exponent at heq
      omega
    exact ⟨d.digits.length - 1, by omega, onFiner?_isSome tie hb.le (by rwa [hpower])⟩
  · -- Between the two is the power of ten above.
    have hle : (⟨10, firstPower bits⟩ : Decimal).value ≤ d.value := by
      rw [hten]
      exact (zpow_le_zpow_right₀ (by norm_num) (by omega)).trans hlow
    have hread : (⟨10, firstPower bits⟩ : Decimal).nearest = bits :=
      Nat.le_antisymm ((nearest_mono hle).trans hd.le) (le_nearest hb.le (by rw [hten]; exact hnext.le))
    exact ⟨0, hpos, onFiner?_isSome tie hb.le (by rwa [hgrid])⟩

end Grids

/-! ## The fewest digits

A hit may be the upper neighbour of the exact value, and that may be the next power of ten, which is
a digit longer than its grid allows.  As a number of this length it ends in zeros, and these are
dropped; so the last digit of what is left decides about the length as well. -/

theorem dropZeros_significand_le (fuel : Nat) (d : Decimal) :
    (dropZeros fuel d).significand ≤ d.significand := by
  induction fuel generalizing d with
  | zero => exact le_refl _
  | succ fuel ih =>
      rw [dropZeros]
      split_ifs
      · exact (ih _).trans (Nat.div_le_self _ _)
      · exact le_refl _

/-- With enough fuel no zero is left at the end. -/
theorem dropZeros_mod_ten {fuel : Nat} {d : Decimal} (h₀ : d.significand ≠ 0)
    (h : d.significand ≤ 10 ^ fuel) : (dropZeros fuel d).significand % 10 ≠ 0 := by
  induction fuel generalizing d with
  | zero =>
      rw [Nat.pow_zero] at h
      rw [dropZeros]
      omega
  | succ fuel ih =>
      rw [Nat.pow_succ] at h
      rw [dropZeros]
      split_ifs with hzero
      · exact ih (by change d.significand / 10 ≠ 0; omega) (by change d.significand / 10 ≤ _; omega)
      · omega

/-- The shortest decimal has no more digits than any grid with a hit, and no zero at its end. -/
theorem exists_shortest_lt (tie : Tie) {bits : Nat} (h₀ : bits ≠ 0) (hb : bits < binary64.infinity) :
    ∃ j, (∀ i, (onFiner? tie bits i).isSome = true → j ≤ i) ∧
      (shortest tie bits).significand < 10 ^ (j + 1) ∧ (shortest tie bits).significand % 10 ≠ 0 := by
  obtain ⟨j, hfuel, hj, hbefore⟩ := exists_found tie h₀ hb
  have hread := (onGrid?_eq_some hj).2.2
  have hle := significand_le_of_onFiner? tie h₀ hj
  have hfound : (found tie bits).significand ≠ 0 := significand_ne_zero (by rwa [hread])
  have hlast := dropZeros_mod_ten hfound (hle.trans (Nat.pow_le_pow_right (by decide) hfuel))
  rw [← shortest_eq tie h₀] at hlast
  refine ⟨j, hbefore, lt_of_le_of_ne ?_ fun heq => hlast ?_, hlast⟩
  · rw [shortest_eq tie h₀]
    exact (dropZeros_significand_le _ _).trans hle
  · rw [heq, Nat.pow_succ, Nat.mul_mod_left]

theorem shortest_mod_ten (tie : Tie) {bits : Nat} (h₀ : bits ≠ 0) (hb : bits < binary64.infinity) :
    (shortest tie bits).significand % 10 ≠ 0 := by
  obtain ⟨-, -, -, hlast⟩ := exists_shortest_lt tie h₀ hb
  exact hlast

/-- **No decimal with fewer digits** is read as the pattern. -/
theorem shortest_digits_le (tie : Tie) {bits : Nat} (hb : bits < binary64.infinity) {d : Decimal}
    (hd : d.nearest = bits) : (shortest tie bits).digits.length ≤ d.digits.length := by
  by_cases h₀ : bits = 0
  · have hzero : shortest tie 0 = ⟨0, 0⟩ := if_pos rfl
    rw [h₀, hzero]
    exact d.digits_length_pos
  · obtain ⟨j, hbefore, hlt, -⟩ := exists_shortest_lt tie h₀ hb
    obtain ⟨i, hi, hhit⟩ := exists_hit_of_nearest tie h₀ hb hd
    have hdigits := (digits_length_le_iff (Nat.succ_pos j)).mpr hlt
    exact hdigits.trans ((Nat.succ_le_succ (hbefore i hhit)).trans hi)

end Decimal

end FilterReference
