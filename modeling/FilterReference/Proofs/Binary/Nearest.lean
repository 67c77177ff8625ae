/-
# Doubles nearest to exact numbers

A finite double stands for a number with a sign (`number`).  A double is `Nearest` to an exact
number if it is that number rounded; only the sign of a zero is left open, since a sum and a product
decide it in their own ways.  Sums, differences and products of finite doubles are nearest to the
exact results (`nearest_add` and so on), and what is concluded from this is in the laws of
`Nearest`: rounding keeps order, does not pass a number of few bits, and has a relative error from
the least normal number on.
-/
import FilterReference.Proofs.Binary.Order

namespace FilterReference.Binary

open Float.Model.UnpackedFloat

/-! ## The number of a double

The order of doubles is an order of patterns.  Once it is the order of numbers, comparisons of
doubles can be decided by arithmetic. -/

/-- The number that a finite double stands for. -/
def number (x : Float) : ℚ := if negative x then -size x else size x

theorem number_of_positive {x : Float} (h : negative x = false) : number x = size x := by
  rw [number, h]
  rfl

theorem abs_number (x : Float) : |number x| = size x := by
  unfold number
  split
  · rw [abs_neg, abs_of_nonneg (size_nonneg x)]
  · exact abs_of_nonneg (size_nonneg x)

theorem number_of_zero {x : Float} (h : magnitude x = 0) : number x = 0 := by
  rw [← abs_eq_zero, abs_number, size_eq_zero h]

theorem magnitude_zero : magnitude 0 = 0 := rfl

theorem number_zero : number 0 = 0 := number_of_zero magnitude_zero

theorem number_one : number 1 = 1 := by decide +kernel

theorem number_ne_zero {x : Float} (h : magnitude x ≠ 0) : number x ≠ 0 := by
  rw [← abs_pos, abs_number]
  exact size_pos h

theorem size_le_size_iff {x y : Float} : size x ≤ size y ↔ magnitude x ≤ magnitude y :=
  binary64.value_le_value

theorem number_le_number_iff {x y : Float} : number x ≤ number y ↔ rank x ≤ rank y := by
  have hx := size_nonneg x
  have hy := size_nonneg y
  unfold number rank
  cases negative x <;> cases negative y <;> simp only [Bool.false_eq_true, if_true, if_false]
  · rw [size_le_size_iff]
    omega
  · constructor
    · intro h
      have hx₀ : ¬ magnitude x ≠ 0 := fun h₀ => by linarith [size_pos h₀]
      have hy₀ : ¬ magnitude y ≠ 0 := fun h₀ => by linarith [size_pos h₀]
      omega
    · intro h
      rw [size_eq_zero (by omega : magnitude x = 0), size_eq_zero (by omega : magnitude y = 0)]
      norm_num
  · exact iff_of_true (by linarith) (by omega)
  · rw [neg_le_neg_iff, size_le_size_iff]
    omega

/-- **The order of finite doubles** is that of their numbers. -/
theorem le_iff_number_le {x y : Float} (hx : isFinite x = true) (hy : isFinite y = true) :
    x ≤ y ↔ number x ≤ number y := by
  rw [le_iff_rank_le, number_le_number_iff]
  simp [isNaN_of_isFinite hx, isNaN_of_isFinite hy]

theorem lt_iff_number_lt {x y : Float} (hx : isFinite x = true) (hy : isFinite y = true) :
    x < y ↔ number x < number y := by
  rw [lt_iff_rank_lt, lt_iff_lt_of_le_iff_le number_le_number_iff]
  simp [isNaN_of_isFinite hx, isNaN_of_isFinite hy]

theorem lt_iff_size_lt {x y : Float} (hx : isFinite x = true) (hy : isFinite y = true)
    (hsx : negative x = false) (hsy : negative y = false) : x < y ↔ size x < size y := by
  rw [lt_iff_number_lt hx hy, number_of_positive hsx, number_of_positive hsy]

theorem exists_number_eq (x : Float) : ∃ n : Int, number x = n * 2 ^ (-1074 : Int) := by
  have hsize : size x = ((binary64.mantissa (magnitude x) *
      2 ^ (magnitude x / 2 ^ 52 - 1) : Nat) : Int) * 2 ^ (-1074 : Int) := by
    rw [size, Format.value, exponent_eq, zpow_add₀ (by norm_num), zpow_natCast]
    generalize (2 : ℚ) ^ (-1074 : Int) = unit
    push_cast
    ring
  unfold number
  split
  · exact ⟨-_, by rw [hsize, Int.cast_neg, neg_mul]⟩
  · exact ⟨_, hsize⟩

/-! ## The double nearest to a number

A double that is nearest to a number is determined by it, up to the sign of zero.  Hence order is
kept, and hence a number of few bits is a barrier: it is nearest to itself, so nothing is rounded
across it. -/

/-- The double is the number, rounded; if the number is zero, the double may be either zero. -/
structure Nearest (x : Float) (q : ℚ) : Prop where
  magnitude_eq : magnitude x = binary64.nearest q.num.natAbs q.den
  negative_eq : q ≠ 0 → negative x = decide (q < 0)

theorem natAbs_div_den (q : ℚ) : (q.num.natAbs / q.den : ℚ) = |q| := by
  conv_rhs => rw [← Rat.num_div_den q]
  rw [abs_div, Nat.abs_cast, Nat.cast_natAbs, Int.cast_abs]

theorem nearest_ofQuotient {s : Bool} {num den : Nat} {q : ℚ} (hd : den ≠ 0)
    (h : (num / den : ℚ) = |q|) (hs : q ≠ 0 → s = decide (q < 0)) :
    Nearest (ofQuotient s num den) q where
  magnitude_eq := by
    rw [magnitude_ofQuotient]
    exact binary64.nearest_congr hd q.den_ne_zero (by rw [h, natAbs_div_den])
  negative_eq h₀ := by rw [negative_ofQuotient, hs h₀]

theorem nearest_number {x : Float} (hx : isFinite x = true) : Nearest x (number x) where
  magnitude_eq := by
    refine (binary64.nearest_eq_of_value (Rat.den_ne_zero _) (of_decide_eq_true hx).le ?_).symm
    rw [natAbs_div_den, abs_number, size]
  negative_eq h₀ := by
    have hsize := size_nonneg x
    unfold number at h₀ ⊢
    cases negative x <;> simp only [Bool.false_eq_true, if_true, if_false] at h₀ ⊢
    · exact (decide_eq_false (not_lt.mpr hsize)).symm
    · have hpos : 0 < size x := lt_of_le_of_ne hsize fun h => h₀ (by simp [← h])
      exact (decide_eq_true (neg_lt_zero.mpr hpos)).symm

section Nearest

variable {x y : Float} {p q : ℚ}

theorem Nearest.isNaN (hx : Nearest x q) : isNaN x = false := by
  have hle := binary64.nearest_le_infinity q.num.natAbs q.den
  rw [Binary.isNaN, hx.magnitude_eq]
  exact decide_eq_false (not_lt.mpr hle)

/-- Of two numbers the one further from zero is not rounded to a double nearer to it. -/
theorem Nearest.magnitude_le (hx : Nearest x p) (hy : Nearest y q) (h : |p| ≤ |q|) :
    magnitude x ≤ magnitude y := by
  rw [hx.magnitude_eq, hy.magnitude_eq]
  refine binary64.nearest_mono p.den_ne_zero q.den_ne_zero ?_
  rwa [natAbs_div_den, natAbs_div_den]

theorem Nearest.size_le (hx : Nearest x p) (hy : Nearest y q) (h : |p| ≤ |q|) :
    size x ≤ size y := size_le_size_iff.mpr (hx.magnitude_le hy h)

theorem Nearest.isFinite_of_le (hx : Nearest x p) (hy : isFinite y = true) (h : |p| ≤ size y) :
    isFinite x = true := by
  rw [← abs_number] at h
  exact decide_eq_true ((hx.magnitude_le (nearest_number hy) h).trans_lt (of_decide_eq_true hy))

theorem Nearest.rank_eq (hx : Nearest x q) :
    rank x = if q < 0 then -(magnitude x : Int) else magnitude x := by
  by_cases h₀ : q = 0
  · have hzero : magnitude x = 0 := by
      rw [hx.magnitude_eq, h₀]
      rfl
    rw [rank, hzero]
    simp
  · rw [rank, hx.negative_eq h₀]
    simp

/-- **Rounding keeps order.** -/
theorem Nearest.rank_le (hx : Nearest x p) (hy : Nearest y q) (h : p ≤ q) : rank x ≤ rank y := by
  rw [hx.rank_eq, hy.rank_eq]
  split_ifs with hp hq hq
  · have := hy.magnitude_le hx (by rw [abs_of_neg hp, abs_of_neg hq]; linarith)
    omega
  · omega
  · linarith
  · have := hx.magnitude_le hy (by rwa [abs_of_nonneg (by linarith), abs_of_nonneg (by linarith)])
    omega

theorem Nearest.number_le (hx : Nearest x p) (hy : Nearest y q) (h : p ≤ q) :
    number x ≤ number y := number_le_number_iff.mpr (hx.rank_le hy h)

theorem Nearest.le (hx : Nearest x p) (hy : Nearest y q) (h : p ≤ q) : x ≤ y :=
  le_iff_rank_le.mpr ⟨hx.isNaN, hy.isNaN, hx.rank_le hy h⟩

theorem Nearest.zero : Nearest 0 0 where
  magnitude_eq := by decide
  negative_eq h := absurd rfl h

theorem Nearest.number_nonneg (hx : Nearest x q) (h : 0 ≤ q) : 0 ≤ number x := by
  have hle := Nearest.zero.number_le hx h
  rwa [number_zero] at hle

theorem Nearest.number_nonpos (hx : Nearest x q) (h : q ≤ 0) : number x ≤ 0 := by
  have hle := hx.number_le Nearest.zero h
  rwa [number_zero] at hle

theorem Nearest.size_eq (hx : Nearest x q) :
    size x = binary64.value (binary64.nearest q.num.natAbs q.den) := by
  rw [size, hx.magnitude_eq]

theorem Nearest.size_le_scaled (hx : Nearest x q) {n : Nat} {e : Int} (hn : n < 2 ^ 53)
    (he : -1074 ≤ e) (h : |q| ≤ n * 2 ^ e) : size x ≤ n * 2 ^ e := by
  rw [hx.size_eq]
  exact binary64.value_nearest_le_scaled q.den_ne_zero hn he (by rwa [natAbs_div_den])

theorem Nearest.size_le_natCast (hx : Nearest x q) {n : Nat} (hn : n < 2 ^ 53) (h : |q| ≤ n) :
    size x ≤ n := by
  have hle := hx.size_le_scaled (e := 0) hn (by norm_num) (by rwa [zpow_zero, mul_one])
  rwa [zpow_zero, mul_one] at hle

theorem Nearest.scaled_le_size (hx : Nearest x q) (hfinite : isFinite x = true) {n : Nat} {e : Int}
    (hn : n < 2 ^ 53) (he : -1074 ≤ e) (h : n * 2 ^ e ≤ |q|) : n * 2 ^ e ≤ size x := by
  have hlt : magnitude x < binary64.infinity := of_decide_eq_true hfinite
  rw [hx.magnitude_eq] at hlt
  rw [hx.size_eq]
  exact binary64.scaled_le_value_nearest q.den_ne_zero hn he hlt (by rwa [natAbs_div_den])

theorem Nearest.number_eq (hx : Nearest x q) (hfinite : isFinite x = true) {n : Nat} {e : Int}
    (hn : n < 2 ^ 53) (he : -1074 ≤ e) (h : |q| = n * 2 ^ e) : number x = q := by
  have hsize : size x = |q| := by
    rw [h]
    exact le_antisymm (hx.size_le_scaled hn he h.le) (hx.scaled_le_size hfinite hn he h.ge)
  by_cases h₀ : q = 0
  · rw [h₀, abs_zero, ← abs_number, abs_eq_zero] at hsize
    rw [hsize, h₀]
  · rw [number, hx.negative_eq h₀, hsize]
    by_cases hneg : q < 0
    · rw [decide_eq_true hneg, if_pos rfl, abs_of_neg hneg, neg_neg]
    · rw [decide_eq_false hneg, if_neg Bool.false_ne_true, abs_of_nonneg (not_lt.mp hneg)]

theorem Nearest.relative_error (hx : Nearest x q) (hfinite : isFinite x = true)
    (h : 2 ^ (-1022 : Int) ≤ |q|) : |(size x - |q|)| ≤ |q| / 2 ^ 53 := by
  have hlt : magnitude x < binary64.infinity := of_decide_eq_true hfinite
  rw [hx.magnitude_eq] at hlt
  rw [← natAbs_div_den q] at h ⊢
  rw [hx.size_eq]
  exact binary64.nearest_relative_error q.den_ne_zero h hlt

end Nearest

/-! ## Products, quotients and negation -/

theorem decide_mul_neg {p q : ℚ} (hp : p ≠ 0) (hq : q ≠ 0) :
    decide (p * q < 0) = (decide (p < 0) ^^ decide (q < 0)) := by
  rcases lt_or_gt_of_ne hp with hp' | hp' <;> rcases lt_or_gt_of_ne hq with hq' | hq'
  · have hpos := mul_pos_of_neg_of_neg hp' hq'
    simp [hp', hq', not_lt.mpr hpos.le]
  · have hneg := mul_neg_of_neg_of_pos hp' hq'
    simp [hp', not_lt.mpr hq'.le, hneg]
  · have hneg := mul_neg_of_pos_of_neg hp' hq'
    simp [not_lt.mpr hp'.le, hq', hneg]
  · have hpos := mul_pos hp' hq'
    simp [not_lt.mpr hp'.le, not_lt.mpr hq'.le, not_lt.mpr hpos.le]

/-- **A product is nearest to the exact product.** -/
theorem nearest_mul {x y : Float} (hx : isFinite x = true) (hy : isFinite y = true) :
    Nearest (x * y) (number x * number y) := by
  have hquotient : ((number x * number y).num.natAbs / (number x * number y).den : ℚ) =
      size x * size y := by
    rw [natAbs_div_den, abs_mul, abs_number, abs_number]
  rw [mul_eq hx hy (Rat.den_ne_zero _) hquotient]
  refine nearest_ofQuotient (Rat.den_ne_zero _) (natAbs_div_den _) fun h₀ => ?_
  obtain ⟨hx₀, hy₀⟩ := mul_ne_zero_iff.mp h₀
  rw [(nearest_number hx).negative_eq hx₀, (nearest_number hy).negative_eq hy₀,
    decide_mul_neg hx₀ hy₀]

/-- **A quotient is nearest to the exact quotient.** -/
theorem nearest_div {x y : Float} (hx : isFinite x = true) (hy : isFinite y = true)
    (hy₀ : number y ≠ 0) : Nearest (x / y) (number x / number y) := by
  have hquotient : ((number x / number y).num.natAbs / (number x / number y).den : ℚ) =
      size x / size y := by
    rw [natAbs_div_den, abs_div, abs_number, abs_number]
  rw [div_eq hx hy (fun h => hy₀ (number_of_zero h)) (Rat.den_ne_zero _) hquotient]
  refine nearest_ofQuotient (Rat.den_ne_zero _) (natAbs_div_den _) fun h₀ => ?_
  have hx₀ : number x ≠ 0 := fun h => h₀ (by rw [h, zero_div])
  have hinv : number y < 0 ↔ (number y)⁻¹ < 0 := inv_lt_zero.symm
  rw [(nearest_number hx).negative_eq hx₀, (nearest_number hy).negative_eq hy₀, div_eq_mul_inv,
    decide_mul_neg hx₀ (inv_ne_zero hy₀), decide_eq_decide.mpr hinv]

theorem ofModel_pack_unpack (x : Float) : Float.ofModel (.pack (unpack double (word x))) = x := by
  apply toBits_injective
  rw [← UInt64.toBitVec_inj]
  cases hx : isNaN x with
  | false =>
      have hm : pattern (word x) ≤ binary64.infinity := not_lt.mp (of_decide_eq_false hx)
      exact pack_unpack (word x) hm
  | true =>
      rw [unpack_eq_notANumber hx, toBits_of_isNaN hx]
      rfl

theorem neg_signOf (b : Bool) : -signOf b = signOf (!b) := by
  cases b <;> rfl

theorem unpack_ofParts_not {x : Float} (hx : isFinite x = true) :
    unpack double (word (ofParts (!negative x) (magnitude x))) =
      (unpack double (word x)).neg := by
  have hm : magnitude x ≤ binary64.infinity := (of_decide_eq_true hx).le
  have hmagnitude := magnitude_ofParts (!negative x) hm
  have hnegative := negative_ofParts (!negative x) hm
  by_cases h₀ : magnitude x = 0
  · rw [unpack_eq_zero h₀, unpack_eq_zero (hmagnitude.trans h₀), hnegative, ← neg_signOf]
    rfl
  · have hfinite : isFinite (ofParts (!negative x) (magnitude x)) = true := by
      rwa [isFinite, hmagnitude]
    rw [unpack_eq_finite hx h₀, unpack_eq_finite hfinite (by rwa [hmagnitude])]
    simp only [hmagnitude, hnegative, ← neg_signOf]
    rfl

theorem neg_eq {x : Float} (hx : isFinite x = true) :
    -x = ofParts (!negative x) (magnitude x) := by
  have hunfold : -x = Float.ofModel (.pack (unpack double (word x)).neg) := rfl
  rw [hunfold, ← unpack_ofParts_not hx, ofModel_pack_unpack]

theorem magnitude_neg {x : Float} (hx : isFinite x = true) : magnitude (-x) = magnitude x := by
  rw [neg_eq hx, magnitude_ofParts _ (of_decide_eq_true hx).le]

theorem isFinite_neg {x : Float} (hx : isFinite x = true) : isFinite (-x) = true := by
  rwa [isFinite, magnitude_neg hx]

theorem number_neg {x : Float} (hx : isFinite x = true) : number (-x) = -number x := by
  have hnegative : negative (-x) = !negative x := by
    rw [neg_eq hx, negative_ofParts _ (of_decide_eq_true hx).le]
  rw [number, number, hnegative, size, size, magnitude_neg hx]
  cases negative x <;> simp

/-! ## Sums

Both operands are shifted to the smaller of their exponents and added there as integers, without a
loss.  So the one rounding is that of an integer in a unit, and a difference is the sum with a
negative. -/

theorem number_eq_apply {x : Float} {t : Int} (ht : t ≤ binary64.exponent (magnitude x)) :
    number x = ((signOf (negative x)).apply ((binary64.mantissa (magnitude x) <<<
      (binary64.exponent (magnitude x) - t).toNat : Nat) : Int) : Int) * 2 ^ t := by
  have hsize : size x = ((binary64.mantissa (magnitude x) <<<
      (binary64.exponent (magnitude x) - t).toNat : Nat) : ℚ) * 2 ^ t := by
    have hsplit : binary64.exponent (magnitude x) =
        ((binary64.exponent (magnitude x) - t).toNat : Int) + t := by omega
    rw [size, Format.value, Nat.shiftLeft_eq]
    conv_lhs => rw [hsplit, zpow_add₀ (by norm_num), zpow_natCast]
    push_cast
    ring
  unfold number
  cases negative x
  · exact hsize
  · rw [if_pos rfl, hsize, ← neg_mul]
    exact congrArg (· * _) (Int.cast_neg _).symm

theorem nearest_normalize (m : Int) (t : Int) :
    Nearest (Float.ofModel (.pack (normalize double m t .positive))) (m * 2 ^ t) := by
  rcases eq_or_ne m 0 with rfl | hm
  · have hzero : Float.ofModel (.pack (normalize double 0 t .positive)) = ofQuotient false 0 1 :=
      ofModel_zero false 1
    rw [hzero]
    exact nearest_ofQuotient Nat.one_ne_zero (by simp) fun h => absurd (by simp) h
  · have hp := Format.two_zpow_pos t
    have habs : |(m * 2 ^ t : ℚ)| = m.natAbs * 2 ^ t := by
      rw [abs_mul, abs_of_pos hp, Nat.cast_natAbs, Int.cast_abs]
    rw [normalize_eq .positive hm (Rat.den_ne_zero _) ((natAbs_div_den _).trans habs)]
    refine nearest_ofQuotient (Rat.den_ne_zero _) (natAbs_div_den _) fun _ => ?_
    rw [decide_eq_decide, ← Int.cast_lt (R := ℚ), Int.cast_zero, mul_neg_iff]
    exact ⟨fun h => Or.inr ⟨h, hp⟩, fun h => (h.resolve_left fun h => absurd h.2 (not_lt.mpr hp.le)).1⟩

theorem nearest_zero (b : Bool) : Nearest (Float.ofModel (.pack (zero (signOf b)))) 0 := by
  rw [ofModel_zero b 1]
  exact nearest_ofQuotient Nat.one_ne_zero (by simp) fun h => absurd rfl h

/-- **A sum is nearest to the exact sum.** -/
theorem nearest_add {x y : Float} (hx : isFinite x = true) (hy : isFinite y = true) :
    Nearest (x + y) (number x + number y) := by
  have hunfold : x + y =
      Float.ofModel (.pack (add double (unpack double (word x)) (unpack double (word y)))) := rfl
  rw [hunfold]
  by_cases hx₀ : magnitude x = 0
  · rw [number_of_zero hx₀, zero_add, unpack_eq_zero hx₀]
    by_cases hy₀ : magnitude y = 0
    · rw [number_of_zero hy₀, unpack_eq_zero hy₀]
      cases negative x <;> cases negative y
      exacts [nearest_zero false, nearest_zero false, nearest_zero false, nearest_zero true]
    · have hsum : add double (zero (signOf (negative x))) (unpack double (word y)) =
          unpack double (word y) := by
        rw [unpack_eq_finite hy hy₀]
        rfl
      rw [hsum, ofModel_pack_unpack y]
      exact nearest_number hy
  · by_cases hy₀ : magnitude y = 0
    · have hsum : add double (unpack double (word x)) (zero (signOf (negative y))) =
          unpack double (word x) := by
        rw [unpack_eq_finite hx hx₀]
        rfl
      rw [number_of_zero hy₀, add_zero, unpack_eq_zero hy₀, hsum,
        ofModel_pack_unpack x]
      exact nearest_number hx
    · rw [unpack_eq_finite hx hx₀, unpack_eq_finite hy hy₀, number_eq_apply (min_le_left _ _),
        number_eq_apply (min_le_right _ _), ← add_mul, ← Int.cast_add]
      exact nearest_normalize _ _

theorem sub_eq_add (a b : Float.Model.UnpackedFloat) : sub double a b = add double a b.neg := by
  have happly : ∀ (s : Sign) (m : Int), (-s).apply m = -s.apply m := fun s m => by
    cases s
    · exact (Int.neg_neg m).symm
    · rfl
  cases a <;> cases b <;> simp only [sub, add, neg, happly, Int.sub_eq_add_neg]

/-- **A difference is nearest to the exact difference.** -/
theorem nearest_sub {x y : Float} (hx : isFinite x = true) (hy : isFinite y = true) :
    Nearest (x - y) (number x - number y) := by
  have hunfold : x - y =
      Float.ofModel (.pack (sub double (unpack double (word x)) (unpack double (word y)))) := rfl
  have hsum := nearest_add hx (isFinite_neg hy)
  rw [number_neg hy, ← sub_eq_add_neg, neg_eq hy] at hsum
  rw [hunfold, sub_eq_add, ← unpack_ofParts_not hy]
  exact hsum

end FilterReference.Binary
