/-
# The shortest decimal is read back

A decimal denotes `Decimal.value`, and what it is read as depends on that number alone.  The search
for the shortest one ends on a grid of which one point is read as the pattern: the grids get finer
by a factor of ten, and on the grid of the last digit of the exact value that value is a point.  As
the exact value of a double has less than `exactDigits` digits, that grid is among those searched,
and `shortest_nearest` follows.
-/
import FilterReference.Decimal.Shortest
import FilterReference.Proofs.Binary.Double

namespace FilterReference

open Binary

namespace Decimal

/-- The number that a decimal denotes. -/
def value (d : Decimal) : ℚ := d.significand * 10 ^ d.power

theorem ten_zpow_pos (p : Int) : (0 : ℚ) < 10 ^ p := zpow_pos (by norm_num) p

theorem quotient_den_ne_zero (d : Decimal) : d.quotient.2 ≠ 0 := by
  unfold quotient
  split
  · exact Nat.one_ne_zero
  · exact Nat.ne_of_gt (Nat.pow_pos (by norm_num))

theorem quotient_eq (d : Decimal) : (d.quotient.1 / d.quotient.2 : ℚ) = d.value := by
  unfold quotient value
  split
  · simp only [Nat.cast_mul, Nat.cast_pow, Nat.cast_ofNat, Nat.cast_one, div_one, Int.ofNat_eq_natCast,
      zpow_natCast]
  · simp only [Nat.cast_pow, Nat.cast_ofNat, zpow_negSucc, div_eq_mul_inv]

theorem nearest_eq {d : Decimal} {num den : Nat} (hd : den ≠ 0) (h : (num / den : ℚ) = d.value) :
    d.nearest = binary64.nearest num den :=
  binary64.nearest_congr d.quotient_den_ne_zero hd (by rw [quotient_eq, h])

theorem nearest_congr {d e : Decimal} (h : d.value = e.value) : d.nearest = e.nearest :=
  nearest_eq e.quotient_den_ne_zero (by rw [quotient_eq, h])

theorem nearest_eq_of_value {d : Decimal} {bits : Nat} (hb : bits ≤ binary64.infinity)
    (h : d.value = binary64.value bits) : d.nearest = bits :=
  binary64.nearest_eq_of_value d.quotient_den_ne_zero hb (by rw [quotient_eq, h])

theorem nearest_mono {d e : Decimal} (h : d.value ≤ e.value) : d.nearest ≤ e.nearest :=
  binary64.nearest_mono d.quotient_den_ne_zero e.quotient_den_ne_zero
    (by rwa [quotient_eq, quotient_eq])

theorem nearest_le {d : Decimal} {bits : Nat} (hb : bits ≤ binary64.infinity)
    (h : d.value ≤ binary64.value bits) : d.nearest ≤ bits :=
  binary64.nearest_le d.quotient_den_ne_zero hb (by rwa [quotient_eq])

theorem le_nearest {d : Decimal} {bits : Nat} (hb : bits ≤ binary64.infinity)
    (h : binary64.value bits ≤ d.value) : bits ≤ d.nearest :=
  binary64.le_nearest d.quotient_den_ne_zero hb (by rwa [quotient_eq])

theorem significand_ne_zero {d : Decimal} (hd : d.nearest ≠ 0) : d.significand ≠ 0 := by
  intro hzero
  refine hd (nearest_eq_of_value (Nat.zero_le _) ?_)
  rw [binary64.value_zero, value, hzero, Nat.cast_zero, zero_mul]

theorem value_dropZeros (fuel : Nat) (d : Decimal) : (dropZeros fuel d).value = d.value := by
  induction fuel generalizing d with
  | zero => rfl
  | succ fuel ih =>
      rw [dropZeros]
      split_ifs with h
      · have hdiv : d.significand / 10 * 10 = d.significand := by omega
        rw [ih, value, value, ← hdiv, zpow_add₀ (by norm_num), Nat.cast_mul]
        push_cast
        simp only [Nat.mul_div_cancel _ (by norm_num : 0 < 10)]
        ring
      · rfl

/-! ## The first digit

The place of the first digit is found by dividing by ten until nothing is left.  Below one it is the
reciprocal that is divided, taken a little too small so that powers of ten come out right as well.
-/

theorem pow_digitCount_le {fuel n : Nat} (hn : n ≠ 0) (hf : fuel ≠ 0) :
    10 ^ (digitCount fuel n - 1) ≤ n := by
  induction fuel generalizing n with
  | zero => exact absurd rfl hf
  | succ fuel ih =>
      rw [digitCount, if_neg hn, Nat.add_sub_cancel]
      by_cases hf' : fuel = 0
      · rw [hf', digitCount, Nat.pow_zero]
        omega
      by_cases hn' : n / 10 = 0
      · have hzero : digitCount fuel (n / 10) = 0 := by
          obtain ⟨k, rfl⟩ := Nat.exists_eq_succ_of_ne_zero hf'
          rw [digitCount, if_pos hn']
        rw [hzero, Nat.pow_zero]
        omega
      · have hpos : digitCount fuel (n / 10) ≠ 0 := by
          obtain ⟨k, rfl⟩ := Nat.exists_eq_succ_of_ne_zero hf'
          rw [digitCount, if_neg hn']
          omega
        obtain ⟨k, hk⟩ := Nat.exists_eq_succ_of_ne_zero hpos
        have hle := ih hn' hf'
        rw [hk, Nat.succ_sub_one] at hle
        rw [hk, Nat.pow_succ]
        omega

theorem lt_pow_digitCount {fuel n : Nat} (h : n ≤ fuel) : n < 10 ^ digitCount fuel n := by
  induction fuel generalizing n with
  | zero =>
      rw [digitCount]
      omega
  | succ fuel ih =>
      rw [digitCount]
      split_ifs with hn
      · omega
      · have hlt := ih (n := n / 10) (by omega)
        rw [Nat.pow_succ]
        omega

theorem pow_leadingPower_le {num den : Nat} (hn : num ≠ 0) (hd : den ≠ 0) :
    (10 : ℚ) ^ leadingPower num den ≤ num / den := by
  have hdpos : (0 : ℚ) < den := by exact_mod_cast Nat.pos_of_ne_zero hd
  unfold leadingPower
  split_ifs with hle
  · have hq : num / den ≠ 0 := Nat.ne_of_gt (Nat.div_pos hle (Nat.pos_of_ne_zero hd))
    have hcount : digitCount (num / den) (num / den) ≠ 0 := by
      obtain ⟨k, hk⟩ := Nat.exists_eq_succ_of_ne_zero hq
      rw [hk, digitCount, if_neg (Nat.succ_ne_zero k)]
      omega
    have hpow := pow_digitCount_le hq hq
    rw [show ((digitCount (num / den) (num / den) : Nat) : Int) - 1 =
      ((digitCount (num / den) (num / den) - 1 : Nat) : Int) by omega, zpow_natCast]
    calc (10 : ℚ) ^ (digitCount (num / den) (num / den) - 1) ≤ ((num / den : Nat) : ℚ) := by
          exact_mod_cast hpow
      _ ≤ num / den := Nat.cast_div_le
  · have hlt : (den - 1) / num < 10 ^ digitCount den ((den - 1) / num) :=
      lt_pow_digitCount ((Nat.div_le_self _ _).trans (Nat.sub_le den 1))
    have hnpos : 0 < num := Nat.pos_of_ne_zero hn
    have hle : den ≤ num * 10 ^ digitCount den ((den - 1) / num) := by
      have := (Nat.div_lt_iff_lt_mul hnpos).mp hlt
      rw [Nat.mul_comm]
      omega
    rw [zpow_neg, zpow_natCast, inv_eq_one_div, div_le_div_iff₀ (by positivity) hdpos, one_mul]
    exact_mod_cast hle

/-! ## Grids

Of the points of a grid that round to the pattern, one is next to the exact value: rounding keeps
order, so whatever lies between a point that is read as the pattern and the value is read as it too.
That is why two neighbours are enough to try. -/

theorem inUnits_den_pos {den : Nat} (num : Nat) (hd : den ≠ 0) (p : Int) :
    0 < (inUnits num den p).2 := by
  unfold inUnits
  split
  · exact Nat.mul_pos (Nat.pos_of_ne_zero hd) (Nat.pow_pos (by norm_num))
  · exact Nat.pos_of_ne_zero hd

theorem inUnits_eq (num den : Nat) (p : Int) :
    ((inUnits num den p).1 / (inUnits num den p).2 : ℚ) = num / den / 10 ^ p := by
  unfold inUnits
  split
  · simp only [Nat.cast_mul, Nat.cast_pow, Nat.cast_ofNat, Int.ofNat_eq_natCast, zpow_natCast,
      div_div]
  · simp only [Nat.cast_mul, Nat.cast_pow, Nat.cast_ofNat, zpow_negSucc, div_inv_eq_mul,
      mul_div_right_comm]

/-- The neighbours of a number on a grid: it does not lie below the lower one, and lies below the
upper one. -/
theorem neighbours_bounds (num : Nat) {den : Nat} (hd : den ≠ 0) (p : Int) :
    (((inUnits num den p).1 / (inUnits num den p).2 : Nat) : ℚ) * 10 ^ p ≤ num / den ∧
      (num / den : ℚ) < (((inUnits num den p).1 / (inUnits num den p).2 + 1 : Nat) : ℚ) * 10 ^ p := by
  have hten := ten_zpow_pos p
  have hpos : (0 : ℚ) < (inUnits num den p).2 := by exact_mod_cast inUnits_den_pos num hd p
  rw [← le_div_iff₀ hten, ← div_lt_iff₀ hten, ← inUnits_eq]
  refine ⟨Nat.cast_div_le, ?_⟩
  rw [div_lt_iff₀ hpos, mul_comm]
  exact_mod_cast Nat.lt_mul_div_succ _ (inUnits_den_pos num hd p)

/-- A hit on a grid is one of the neighbours, and is read as the pattern. -/
theorem onGrid?_eq_some {tie : Tie} {bits num den : Nat} {p : Int} {d : Decimal}
    (h : onGrid? tie bits num den p = some d) :
    d.power = p ∧ d.significand ≤ (inUnits num den p).1 / (inUnits num den p).2 + 1 ∧
      d.nearest = bits := by
  unfold onGrid? at h
  simp only at h
  split at h
  · rename_i hbelow habove
    rw [beq_iff_eq] at hbelow habove
    cases h
    split_ifs
    · exact ⟨rfl, Nat.le_succ _, hbelow⟩
    · exact ⟨rfl, le_refl _, habove⟩
  · rename_i hbelow _
    cases h
    exact ⟨rfl, Nat.le_succ _, beq_iff_eq.mp hbelow⟩
  · rename_i _ habove
    cases h
    exact ⟨rfl, le_refl _, beq_iff_eq.mp habove⟩
  · cases h

/-- A grid of which any point is read as the pattern has a hit: rounding keeps order, so the
neighbour on the side of that point is read as the pattern, too. -/
theorem onGrid?_isSome {tie : Tie} {bits num den n : Nat} {p : Int} (hd : den ≠ 0)
    (hb : bits ≤ binary64.infinity) (hvalue : (num / den : ℚ) = binary64.value bits)
    (hn : (⟨n, p⟩ : Decimal).nearest = bits) : (onGrid? tie bits num den p).isSome = true := by
  obtain ⟨hbelow, habove⟩ := neighbours_bounds num hd p
  rw [hvalue] at hbelow habove
  have hmono : ∀ {m k : Nat}, m ≤ k → (⟨m, p⟩ : Decimal).nearest ≤ (⟨k, p⟩ : Decimal).nearest := by
    intro m k hmk
    exact nearest_mono (mul_le_mul_of_nonneg_right (by exact_mod_cast hmk) (ten_zpow_pos p).le)
  have hhit : (⟨(inUnits num den p).1 / (inUnits num den p).2, p⟩ : Decimal).nearest = bits ∨
      (⟨(inUnits num den p).1 / (inUnits num den p).2 + 1, p⟩ : Decimal).nearest = bits := by
    rcases Nat.lt_or_ge ((inUnits num den p).1 / (inUnits num den p).2) n with hlt | hge
    · exact Or.inr (Nat.le_antisymm (hn ▸ hmono hlt) (le_nearest hb habove.le))
    · exact Or.inl (Nat.le_antisymm (nearest_le hb hbelow) (hn ▸ hmono hge))
  unfold onGrid?
  simp only
  rcases hhit with h | h
  · simp only [h, beq_self_eq_true]
    split <;> first | rfl | (rename_i h _; cases h)
  · simp only [h, beq_self_eq_true]
    split <;> first | rfl | (rename_i _ h; cases h)

theorem search_first {tie : Tie} {bits num den k fuel : Nat} {p : Int} (hk : k < fuel)
    (h : (onGrid? tie bits num den (p - k)).isSome = true) :
    ∃ j : Nat, onGrid? tie bits num den (p - j) = some (search tie bits num den fuel p) ∧
      ∀ i : Nat, (onGrid? tie bits num den (p - i)).isSome = true → j ≤ i := by
  induction fuel generalizing p k with
  | zero => exact absurd hk (Nat.not_lt_zero k)
  | succ fuel ih =>
      have hfirst : p - ((0 : Nat) : Int) = p := by omega
      have hstep : ∀ i : Nat, p - ((i + 1 : Nat) : Int) = p - 1 - (i : Int) := by
        intro i
        push_cast
        omega
      rw [search]
      cases hgrid : onGrid? tie bits num den p with
      | some d => exact ⟨0, by rw [hfirst, hgrid], fun i _ => Nat.zero_le i⟩
      | none =>
          -- The first grid has no hit, so every grid with one is among the others.
          have hlater : ∀ i : Nat, (onGrid? tie bits num den (p - i)).isSome = true → i ≠ 0 := by
            rintro i hi rfl
            rw [hfirst, hgrid] at hi
            cases hi
          obtain ⟨k, rfl⟩ := Nat.exists_eq_succ_of_ne_zero (hlater k h)
          rw [Nat.succ_eq_add_one, hstep] at h
          obtain ⟨j, hj, hbefore⟩ := ih (Nat.lt_of_succ_lt_succ hk) h
          refine ⟨j + 1, by rw [hstep, hj], fun i hi => ?_⟩
          obtain ⟨i, rfl⟩ := Nat.exists_eq_succ_of_ne_zero (hlater i hi)
          rw [Nat.succ_eq_add_one, hstep] at hi
          exact Nat.succ_le_succ (hbefore i hi)

/-! ## The exact value

The exact value of a double has finitely many digits.  Their number is bounded by `exactDigits`,
which is where the search is sure to have ended. -/

/-- The power of ten of the last digit of the exact value of a pattern, or one below it. -/
def lastPower (bits : Nat) : Int := min 0 (binary64.exponent bits)

theorem exists_value_eq (bits : Nat) {p : Int} (hp : p ≤ lastPower bits) :
    ∃ n : Nat, binary64.value bits = n * 10 ^ p := by
  have hsplit : ∀ k : Nat, (10 : ℚ) ^ k = 2 ^ k * 5 ^ k := by
    intro k
    rw [← mul_pow]
    norm_num
  unfold lastPower at hp
  obtain ⟨a, ha⟩ : ∃ a : Nat, binary64.exponent bits - p = a :=
    ⟨(binary64.exponent bits - p).toNat, by omega⟩
  obtain ⟨b, hb⟩ : ∃ b : Nat, -p = b := ⟨(-p).toNat, by omega⟩
  refine ⟨binary64.mantissa bits * 2 ^ a * 5 ^ b, ?_⟩
  have hexponent : binary64.exponent bits = (a : Int) - b := by omega
  rw [Format.value, hexponent, show p = -(b : Int) by omega, zpow_sub₀ (by norm_num), zpow_neg,
    zpow_natCast, zpow_natCast, zpow_natCast, hsplit b]
  push_cast
  field_simp

/-- The first digit of a double stands at most 799 places above the last one. -/
theorem leadingPower_lt {bits : Nat} (h₀ : bits ≠ 0) (hb : bits < binary64.infinity) :
    leadingPower (binary64.quotient bits).1 (binary64.quotient bits).2 <
      lastPower bits + exactDigits := by
  have hle := pow_leadingPower_le (binary64.quotient_ne_zero h₀)
    (Nat.ne_of_gt (binary64.quotient_pos bits))
  rw [binary64.quotient_eq, Format.value] at hle
  generalize leadingPower (binary64.quotient bits).1 (binary64.quotient bits).2 = lead at hle ⊢
  have hrange : -1074 ≤ binary64.exponent bits ∧ binary64.exponent bits ≤ 971 := by
    rw [infinity_eq] at hb
    rw [exponent_eq]
    omega
  have hfit : (binary64.mantissa bits : ℚ) < 2 ^ 53 := by
    exact_mod_cast (binary64.mantissa_bounds bits).1
  have hlt : (10 : ℚ) ^ lead < 2 ^ (53 + binary64.exponent bits) := by
    rw [zpow_add₀ (by norm_num)]
    exact lt_of_le_of_lt hle (mul_lt_mul_of_pos_right hfit (Format.two_zpow_pos _))
  have hdigits : exactDigits = 800 := rfl
  have htwo : (1 : ℚ) < 2 := by norm_num
  unfold lastPower
  rcases le_or_gt 0 lead with hpos | hneg
  · -- Above one: ten is more than `2 ^ 3`.
    have h8 : (2 : ℚ) ^ (3 * lead) ≤ 10 ^ lead := by
      rw [zpow_mul]
      exact zpow_le_zpow_left₀ hpos (by norm_num) (by norm_num)
    have := (zpow_lt_zpow_iff_right₀ htwo).mp (h8.trans_lt hlt)
    omega
  · -- Below one: `10 ^ 3` is less than `2 ^ 10`.
    have h1024 : (2 : ℚ) ^ (10 * lead) ≤ (10 ^ lead) ^ 3 := by
      obtain ⟨k, rfl⟩ : ∃ k : Nat, lead = -(k : Int) := ⟨lead.natAbs, by omega⟩
      have hpow : ((10 : ℚ) ^ k) ^ 3 ≤ 2 ^ (10 * k) := by
        rw [← pow_mul, mul_comm k, pow_mul, pow_mul]
        exact pow_le_pow_left₀ (by norm_num) (by norm_num) k
      rw [show 10 * -(k : Int) = -((10 * k : Nat) : Int) by push_cast; ring, zpow_neg, zpow_neg,
        zpow_natCast, zpow_natCast, inv_pow]
      exact inv_anti₀ (by positivity) hpow
    have hcube : ((10 : ℚ) ^ lead) ^ 3 < 2 ^ (3 * (53 + binary64.exponent bits)) := by
      rw [mul_comm, zpow_mul]
      exact pow_lt_pow_left₀ hlt (ten_zpow_pos lead).le (by norm_num)
    have := (zpow_lt_zpow_iff_right₀ htwo).mp (h1024.trans_lt hcube)
    omega

/-! ## The search

The search is for the first hit.  That no earlier grid has one is not needed to be read back, but is
what the number of digits depends on. -/

/-- The power of ten of the first digit of the exact value. -/
def firstPower (bits : Nat) : Int :=
  leadingPower (binary64.quotient bits).1 (binary64.quotient bits).2

/-- The hit on the grid that is finer by `j` digits than that of the first digit, if there is one.
-/
def onFiner? (tie : Tie) (bits j : Nat) : Option Decimal :=
  onGrid? tie bits (binary64.quotient bits).1 (binary64.quotient bits).2 (firstPower bits - j)

/-- What the search ends on. -/
def found (tie : Tie) (bits : Nat) : Decimal :=
  search tie bits (binary64.quotient bits).1 (binary64.quotient bits).2 exactDigits (firstPower bits)

theorem shortest_eq (tie : Tie) {bits : Nat} (h₀ : bits ≠ 0) :
    shortest tie bits = dropZeros exactDigits (found tie bits) := if_neg h₀

theorem onFiner?_isSome (tie : Tie) {bits n j : Nat} (hb : bits ≤ binary64.infinity)
    (h : (⟨n, firstPower bits - j⟩ : Decimal).nearest = bits) :
    (onFiner? tie bits j).isSome = true :=
  onGrid?_isSome (Nat.ne_of_gt (binary64.quotient_pos bits)) hb (binary64.quotient_eq bits) h

theorem exists_found (tie : Tie) {bits : Nat} (h₀ : bits ≠ 0) (hb : bits < binary64.infinity) :
    ∃ j < exactDigits, onFiner? tie bits j = some (found tie bits) ∧
      ∀ i, (onFiner? tie bits i).isSome = true → j ≤ i := by
  have hlead : firstPower bits < lastPower bits + exactDigits := leadingPower_lt h₀ hb
  have hdigits : exactDigits = 800 := rfl
  obtain ⟨n, hn⟩ := exists_value_eq bits
    (p := firstPower bits - ((firstPower bits - lastPower bits).toNat : Int)) (by omega)
  have hfuel : (firstPower bits - lastPower bits).toNat < exactDigits := by omega
  have hhit := onFiner?_isSome tie hb.le (nearest_eq_of_value hb.le hn.symm)
  obtain ⟨j, hj, hbefore⟩ := search_first hfuel hhit
  exact ⟨j, lt_of_le_of_lt (hbefore _ hhit) hfuel, hj, hbefore⟩

/-- **The shortest decimal** of a finite pattern is read as that pattern. -/
theorem shortest_nearest (tie : Tie) {bits : Nat} (hb : bits < binary64.infinity) :
    (shortest tie bits).nearest = bits := by
  by_cases h₀ : bits = 0
  · rw [h₀]
    exact nearest_eq_of_value (Nat.zero_le _) (by rw [binary64.value_zero, value, shortest]; simp)
  · obtain ⟨j, -, hj, -⟩ := exists_found tie h₀ hb
    rw [shortest_eq tie h₀, nearest_congr (value_dropZeros _ _)]
    exact (onGrid?_eq_some hj).2.2

end Decimal

end FilterReference
