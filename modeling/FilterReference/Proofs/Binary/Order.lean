/-
# The order of doubles

Comparison looks at classes and signs first, at exponents next and at mantissas last.  On numbers
this is the order of their ranks, a rank being the magnitude pattern under the sign, so that both
zeros are in one place; what is not a number compares with nothing.  `lt_iff_rank_lt`,
`le_iff_rank_le` and `beq_iff_rank_eq` say so for the three comparisons of doubles.
-/
import FilterReference.Proofs.Binary.Arithmetic

namespace FilterReference.Binary

open Float.Model.UnpackedFloat

/-- The place of a double that is a number among all of them. -/
def rank (x : Float) : Int := if negative x then -(magnitude x : Int) else magnitude x

/-! ## Comparison

Exponents are compared first and mantissas then, which is a comparison of the patterns that they are
the fields of.  Two negative operands are compared the other way round. -/

theorem compare_fields_eq_lt_iff (a b : Nat) :
    (compare (binary64.exponent a) (binary64.exponent b)).then
      (compare (binary64.mantissa a) (binary64.mantissa b)) = .lt ↔ a < b := by
  have hmantissa : ∀ n, binary64.mantissa n = if n < 2 ^ 52 then n else 2 ^ 52 + n % 2 ^ 52 :=
    fun _ => rfl
  rw [Ordering.then_eq_lt, compare_lt_iff_lt, compare_lt_iff_lt, compare_eq_iff_eq, hmantissa,
    hmantissa, exponent_eq, exponent_eq]
  split_ifs <;> omega

theorem compare_fields (a b : Nat) :
    (compare (binary64.exponent a) (binary64.exponent b)).then
      (compare (binary64.mantissa a) (binary64.mantissa b)) = compare (a : Int) b := by
  rcases lt_trichotomy a b with h | rfl | h
  · rw [(compare_fields_eq_lt_iff a b).mpr h, compare_lt_iff_lt.mpr (by exact_mod_cast h)]
  · simp
  · have hswap := (compare_fields_eq_lt_iff b a).mpr h
    rw [compare_gt_iff_gt.mpr (by exact_mod_cast h : (a : Int) > b), ← Ordering.swap_eq_lt,
      Ordering.swap_then, ← Std.OrientedOrd.eq_swap, ← Std.OrientedOrd.eq_swap, hswap]

theorem zero_or_finite_or_infinite {x : Float} (hx : isNaN x = false) :
    magnitude x = 0 ∨ (isFinite x = true ∧ magnitude x ≠ 0) ∨ magnitude x = binary64.infinity := by
  simp only [isNaN, isFinite, decide_eq_false_iff_not, decide_eq_true_eq] at hx ⊢
  omega

theorem compare_neg_neg (a b : Int) : compare (-a) (-b) = compare b a := by
  rcases lt_trichotomy a b with h | rfl | h
  · rw [compare_gt_iff_gt.mpr (by omega : -a > -b), compare_gt_iff_gt.mpr h]
  · simp
  · rw [compare_lt_iff_lt.mpr (by omega : -a < -b), compare_lt_iff_lt.mpr h]

theorem compare_eq {x y : Float} (hx : isNaN x = false) (hy : isNaN y = false) :
    (unpack double (word x)).compare (unpack double (word y)) =
      some (compare (rank x) (rank y)) := by
  have hinfinity : 0 < binary64.infinity := by decide
  have hlt : ∀ {a b : Int}, a < b → some Ordering.lt = some (compare a b) := by
    intro a b h
    rw [compare_lt_iff_lt.mpr h]
  have hgt : ∀ {a b : Int}, b < a → some Ordering.gt = some (compare a b) := by
    intro a b h
    rw [compare_gt_iff_gt.mpr h]
  unfold rank
  rcases zero_or_finite_or_infinite hx with hx | ⟨hx, hx₀⟩ | hx <;>
    rcases zero_or_finite_or_infinite hy with hy | ⟨hy, hy₀⟩ | hy
  · rw [unpack_eq_zero hx, unpack_eq_zero hy, hx, hy]
    cases negative x <;> cases negative y <;> rfl
  · rw [unpack_eq_zero hx, unpack_eq_finite hy hy₀, hx]
    cases negative x <;> cases negative y <;> simp only [Bool.false_eq_true, if_true, if_false]
    exacts [hlt (by omega), hgt (by omega), hlt (by omega), hgt (by omega)]
  · rw [unpack_eq_zero hx, unpack_eq_infinity hy, hx, hy]
    cases negative x <;> cases negative y <;> rfl
  · rw [unpack_eq_finite hx hx₀, unpack_eq_zero hy, hy]
    cases negative x <;> cases negative y <;> simp only [Bool.false_eq_true, if_true, if_false]
    exacts [hgt (by omega), hgt (by omega), hlt (by omega), hlt (by omega)]
  · rw [unpack_eq_finite hx hx₀, unpack_eq_finite hy hy₀]
    cases negative x <;> cases negative y <;> simp only [Bool.false_eq_true, if_true, if_false]
    · exact congrArg some (compare_fields _ _)
    · exact hgt (by omega)
    · exact hlt (by omega)
    · refine (congrArg (some ·.swap) (compare_fields _ _)).trans (congrArg some ?_)
      rw [← Std.OrientedOrd.eq_swap, compare_neg_neg]
  · have hfinite := of_decide_eq_true hx
    rw [unpack_eq_finite hx hx₀, unpack_eq_infinity hy, hy]
    cases negative x <;> cases negative y <;> simp only [Bool.false_eq_true, if_true, if_false]
    exacts [hlt (by omega), hgt (by omega), hlt (by omega), hgt (by omega)]
  · rw [unpack_eq_infinity hx, unpack_eq_zero hy, hx, hy]
    cases negative x <;> cases negative y <;> rfl
  · have hfinite := of_decide_eq_true hy
    rw [unpack_eq_infinity hx, unpack_eq_finite hy hy₀, hx]
    cases negative x <;> cases negative y <;> simp only [Bool.false_eq_true, if_true, if_false]
    exacts [hgt (by omega), hgt (by omega), hlt (by omega), hlt (by omega)]
  · rw [unpack_eq_infinity hx, unpack_eq_infinity hy, hx, hy]
    cases negative x <;> cases negative y <;> rfl

theorem compare_eq_none {x y : Float} (h : isNaN x = true ∨ isNaN y = true) :
    (unpack double (word x)).compare (unpack double (word y)) = none := by
  rcases h with h | h
  · rw [unpack_eq_notANumber h]
    rfl
  · rw [unpack_eq_notANumber h]
    cases unpack double (word x) <;> rfl

theorem compare_eq_some_iff {x y : Float} {o : Ordering} :
    (unpack double (word x)).compare (unpack double (word y)) = some o ↔
      isNaN x = false ∧ isNaN y = false ∧ compare (rank x) (rank y) = o := by
  by_cases h : isNaN x = true ∨ isNaN y = true
  · rw [compare_eq_none h]
    rcases h with h | h <;> simp [h]
  · simp only [not_or, Bool.not_eq_true] at h
    rw [compare_eq h.1 h.2]
    simp [h.1, h.2]

theorem lt_iff_rank_lt {x y : Float} :
    x < y ↔ isNaN x = false ∧ isNaN y = false ∧ rank x < rank y := by
  rw [← compare_lt_iff_lt, ← compare_eq_some_iff]
  change decide ((unpack double (word x)).lt (unpack double (word y)) = true) = true ↔ _
  rw [decide_eq_true_eq]
  exact beq_iff_eq

theorem beq_iff_rank_eq {x y : Float} :
    (x == y) = true ↔ isNaN x = false ∧ isNaN y = false ∧ rank x = rank y := by
  have heq : compare (rank x) (rank y) = .eq ↔ rank x = rank y := compare_eq_iff_eq
  rw [← heq, ← compare_eq_some_iff]
  change ((unpack double (word x)).compare (unpack double (word y)) == some .eq) = true ↔ _
  exact beq_iff_eq

theorem le_iff_rank_le {x y : Float} :
    x ≤ y ↔ isNaN x = false ∧ isNaN y = false ∧ rank x ≤ rank y := by
  change decide ((unpack double (word x)).le (unpack double (word y)) = true) = true ↔ _
  rw [decide_eq_true_eq]
  change Option.any Ordering.isLE _ = true ↔ _
  by_cases h : isNaN x = true ∨ isNaN y = true
  · rw [compare_eq_none h]
    rcases h with h | h <;> simp [h]
  · simp only [not_or, Bool.not_eq_true] at h
    rw [compare_eq h.1 h.2, Option.any_some]
    simp [h.1, h.2, ← Ordering.ne_gt_iff_isLE, ← compare_le_iff_le]

theorem beq_zero_iff {x : Float} : (x == 0) = true ↔ magnitude x = 0 := by
  have hzero : rank 0 = 0 := rfl
  have hnumber : isNaN 0 = false := rfl
  rw [beq_iff_rank_eq, hzero, rank]
  constructor
  · rintro ⟨-, -, h⟩
    split_ifs at h <;> omega
  · intro h
    have hx : isNaN x = false := by
      rw [isNaN, h]
      rfl
    refine ⟨hx, hnumber, ?_⟩
    rw [h]
    simp

theorem beq_zero_of_size_pos {x : Float} (h : 0 < size x) : (x == 0) = false := by
  rw [← Bool.not_eq_true, beq_zero_iff]
  intro hzero
  rw [size_eq_zero hzero] at h
  exact lt_irrefl 0 h

/-! ## Distance from zero and infinity

Deviations are absolute values, with infinity in the place of those that are no numbers.  Among
these, infinity is the largest, and nothing else is as large. -/

theorem isNaN_ofParts (negative : Bool) {m : Nat} (h : binary64.infinity < m) (hm : m < 2 ^ 63) :
    isNaN (ofParts negative m) = true := by
  have hword : (UInt64.ofNat (if negative then 2 ^ 63 + m else m)).toNat % 2 ^ 63 = m := by
    rw [UInt64.toNat_ofNat']
    split <;> omega
  have hpack : (ofParts negative m).toBits = .ofBitVec (pack double .notANumber) := by
    rw [← unpack_of_notANumber (UInt64.ofNat (if negative then 2 ^ 63 + m else m)).toBitVec]
    · rfl
    · change _ < (UInt64.ofNat (if negative then 2 ^ 63 + m else m)).toNat % 2 ^ 63
      rwa [hword]
  rw [isNaN, magnitude, hpack]
  decide

theorem isNaN_abs (x : Float) : isNaN (abs x) = isNaN x := by
  have hm : magnitude x < 2 ^ 63 := Nat.mod_lt _ (by decide)
  cases hx : isNaN x with
  | true => exact isNaN_ofParts false (of_decide_eq_true hx) hm
  | false =>
      rw [isNaN, decide_eq_false_iff_not, Nat.not_lt] at hx
      rw [abs, isNaN, magnitude_ofParts false hx]
      exact decide_eq_false (Nat.not_lt.mpr hx)

theorem rank_abs {x : Float} (hx : isNaN x = false) : rank (abs x) = magnitude x := by
  rw [isNaN, decide_eq_false_iff_not, Nat.not_lt] at hx
  rw [abs, rank, magnitude_ofParts false hx, negative_ofParts false hx]
  rfl

theorem isNaN_infinity : isNaN infinity = false := rfl

theorem rank_infinity : rank infinity = binary64.infinity := rfl

theorem rank_le_infinity {x : Float} (hx : isNaN x = false) : rank x ≤ rank infinity := by
  rw [isNaN, decide_eq_false_iff_not, Nat.not_lt] at hx
  rw [rank_infinity, rank]
  split <;> omega

theorem eq_infinity_of_rank_le {x : Float} (hx : isNaN x = false) (h : rank infinity ≤ rank x) :
    x = infinity := by
  have hinfinity : 0 < binary64.infinity := by decide
  have hm := hx
  rw [isNaN, decide_eq_false_iff_not, Nat.not_lt] at hm
  rw [rank_infinity, rank] at h
  rw [← ofParts_magnitude hx]
  cases hs : negative x with
  | true =>
      rw [hs, if_pos rfl] at h
      omega
  | false =>
      rw [hs, if_neg Bool.false_ne_true] at h
      rw [(by omega : magnitude x = binary64.infinity)]
      rfl

theorem notANumber_or_infinite_or_finite (x : Float) :
    x = notANumber ∨ (∃ negative, x = ofParts negative binary64.infinity) ∨ isFinite x = true := by
  by_cases hnan : isNaN x = true
  · exact Or.inl (eq_of_isNaN hnan (isNaN_ofParts false (by decide) (by decide)))
  · rw [Bool.not_eq_true] at hnan
    by_cases hfinite : isFinite x = true
    · exact Or.inr (Or.inr hfinite)
    · have hinfinity : magnitude x = binary64.infinity := by
        rw [isNaN, decide_eq_false_iff_not] at hnan
        rw [isFinite, decide_eq_true_eq] at hfinite
        omega
      refine Or.inr (Or.inl ⟨negative x, ?_⟩)
      rw [← hinfinity, ofParts_magnitude hnan]

end FilterReference.Binary
