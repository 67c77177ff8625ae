/-
# Doubles up to the sign of a zero

Two ways to the same sum may end in zeros of different sign, and in no other difference: where the
sum begins, at `0` or at `-0`, and how many zeros are added to it cannot be seen otherwise.  `Alike`
is this relation.  It holds for doubles that compare as equal and, beyond that, of what is not a
number with itself (`alike_iff_beq`).

The arithmetic does not tell alike operands apart, divisors excepted, and a zero that is added or
taken away leaves a sum as it was (`Tolerant`).  Both are read off the unpacked operands, where the
relation is `Like`.
-/
import FilterReference.Proofs.Binary.Nearest

namespace FilterReference.Binary

open Float.Model (UnpackedFloat)
open Float.Model.UnpackedFloat

/-- One double, or two zeros, whose signs may differ. -/
def Alike (x y : Float) : Prop := x = y ∨ magnitude x = 0 ∧ magnitude y = 0

instance (x y : Float) : Decidable (Alike x y) :=
  inferInstanceAs (Decidable (x = y ∨ magnitude x = 0 ∧ magnitude y = 0))

variable {x x' y y' z : Float}

namespace Alike

@[refl] theorem refl (x : Float) : Alike x x := Or.inl rfl

@[symm] theorem symm (h : Alike x y) : Alike y x := h.imp Eq.symm And.symm

@[trans] theorem trans (h : Alike x y) (h' : Alike y z) : Alike x z := by
  rcases h with rfl | ⟨hx, hy⟩
  · exact h'
  · rcases h' with rfl | ⟨-, hz⟩
    · exact Or.inr ⟨hx, hy⟩
    · exact Or.inr ⟨hx, hz⟩

theorem of_zeros (hx : magnitude x = 0) (hy : magnitude y = 0) : Alike x y := Or.inr ⟨hx, hy⟩

theorem magnitude_eq_zero (h : Alike x y) (hy : magnitude y = 0) : magnitude x = 0 := by
  rcases h with rfl | ⟨hx, -⟩
  · exact hy
  · exact hx

end Alike

/-- Alike are the doubles that compare as equal, and what is not a number with itself. -/
theorem alike_iff_beq : Alike x y ↔ (x == y) = true ∨ isNaN x = true ∧ isNaN y = true := by
  rw [beq_iff_rank_eq]
  constructor
  · rintro (rfl | ⟨hx, hy⟩)
    · cases hx : isNaN x with
      | false => exact Or.inl ⟨rfl, rfl, rfl⟩
      | true => exact Or.inr ⟨rfl, rfl⟩
    · left
      simp [isNaN, rank, hx, hy]
  · rintro (⟨hx, hy, hrank⟩ | ⟨hx, hy⟩)
    · by_cases hzero : magnitude x = 0 ∧ magnitude y = 0
      · exact Or.inr hzero
      · left
        have hparts : negative x = negative y ∧ magnitude x = magnitude y := by
          revert hrank
          unfold rank
          cases negative x <;> cases negative y <;>
            simp only [Bool.false_eq_true, if_true, if_false] <;> intro hrank
          · exact ⟨trivial, by omega⟩
          · exact absurd (by omega) hzero
          · exact absurd (by omega) hzero
          · exact ⟨trivial, by omega⟩
        rw [← ofParts_magnitude hx, hparts.1, hparts.2, ofParts_magnitude hy]
    · exact Or.inl (eq_of_isNaN hx hy)

/-! ## Unpacked operands

The arithmetic is defined on operands that were taken apart, where a zero is a case by itself.  So
each operation needs one look at the cases, and none at how the others are rounded. -/

/-- `Alike`, as the arithmetic sees it. -/
def Like (u v : UnpackedFloat) : Prop := u = v ∨ ∃ s t, u = .zero s ∧ v = .zero t

variable {u u' v v' : UnpackedFloat}

namespace Like

theorem refl (u : UnpackedFloat) : Like u u := Or.inl rfl

theorem zeros (s t : Sign) : Like (.zero s) (.zero t) := Or.inr ⟨s, t, rfl, rfl⟩

theorem add (h : Like u u') (h' : Like v v') : Like (add double u v) (add double u' v') := by
  rcases h with rfl | ⟨s, t, rfl, rfl⟩ <;> rcases h' with rfl | ⟨s', t', rfl, rfl⟩
  · exact refl _
  · cases u with
    | zero r => cases r <;> cases s' <;> cases t' <;> exact zeros _ _
    | _ => exact refl _
  · cases v with
    | zero r => cases r <;> cases s <;> cases t <;> exact zeros _ _
    | _ => exact refl _
  · cases s <;> cases t <;> cases s' <;> cases t' <;> exact zeros _ _

theorem neg (h : Like u v) : Like u.neg v.neg := by
  rcases h with rfl | ⟨s, t, rfl, rfl⟩
  · exact refl _
  · exact zeros _ _

theorem sub (h : Like u u') (h' : Like v v') : Like (sub double u v) (sub double u' v') := by
  rw [sub_eq_add, sub_eq_add]
  exact h.add h'.neg

theorem mul (w : UnpackedFloat) (h : Like u v) : Like (mul double w u) (mul double w v) := by
  rcases h with rfl | ⟨s, t, rfl, rfl⟩
  · exact refl _
  · cases w with
    | zero => exact zeros _ _
    | finite => exact zeros _ _
    | _ => exact refl _

theorem div (w : UnpackedFloat) (h : Like u v) : Like (div double u w) (div double v w) := by
  rcases h with rfl | ⟨s, t, rfl, rfl⟩
  · exact refl _
  · cases w with
    | infinity => exact zeros _ _
    | finite => exact zeros _ _
    | _ => exact refl _

theorem add_zero (u : UnpackedFloat) (s : Sign) : Like (UnpackedFloat.add double u (.zero s)) u := by
  cases u with
  | zero t => cases s <;> cases t <;> exact zeros _ _
  | _ => exact refl _

theorem zero_add (s : Sign) (u : UnpackedFloat) : Like (UnpackedFloat.add double (.zero s) u) u := by
  cases u with
  | zero t => cases s <;> cases t <;> exact zeros _ _
  | _ => exact refl _

theorem sub_zero (u : UnpackedFloat) (s : Sign) : Like (UnpackedFloat.sub double u (.zero s)) u := by
  rw [sub_eq_add]
  exact add_zero u (-s)

theorem alike (h : Like u v) : Alike (Float.ofModel (.pack u)) (Float.ofModel (.pack v)) := by
  have hzero : ∀ s, magnitude (Float.ofModel (.pack (.zero s))) = 0 := by
    intro s
    cases s <;> rfl
  rcases h with rfl | ⟨s, t, rfl, rfl⟩
  · exact .refl _
  · exact .of_zeros (hzero s) (hzero t)

end Like

/-! ## Alike operands

The same for doubles.  The second operand of a product and the first of a quotient may be replaced
by an alike one; a divisor may not, since a quotient by zero shows its sign. -/

namespace Alike

theorem like (h : Alike x y) : Like (unpack double (word x)) (unpack double (word y)) := by
  rcases h with rfl | ⟨hx, hy⟩
  · exact .refl _
  · rw [unpack_eq_zero hx, unpack_eq_zero hy]
    exact .zeros _ _

theorem add (hx : Alike x x') (hy : Alike y y') : Alike (x + y) (x' + y') :=
  (hx.like.add hy.like).alike

theorem sub (hx : Alike x x') (hy : Alike y y') : Alike (x - y) (x' - y') :=
  (hx.like.sub hy.like).alike

theorem mul (c : Float) (h : Alike x y) : Alike (c * x) (c * y) := (h.like.mul _).alike

theorem div (c : Float) (h : Alike x y) : Alike (x / c) (y / c) := (h.like.div _).alike

end Alike

theorem Nearest.alike {q : ℚ} (hx : Nearest x q) (hy : Nearest y q) : Alike x y := by
  have hmagnitude : magnitude x = magnitude y := hx.magnitude_eq.trans hy.magnitude_eq.symm
  by_cases hzero : magnitude y = 0
  · exact Or.inr ⟨hmagnitude.trans hzero, hzero⟩
  · left
    have hq : q ≠ 0 := by
      rintro rfl
      exact hzero hy.magnitude_eq
    have hnegative : negative x = negative y := (hx.negative_eq hq).trans (hy.negative_eq hq).symm
    rw [← ofParts_magnitude hx.isNaN, hnegative, hmagnitude, ofParts_magnitude hy.isNaN]

theorem alike_one_mul (hx : isFinite x = true) : Alike (1 * x) x := by
  have hone : isFinite 1 = true := rfl
  have h := nearest_mul hone hx
  rw [number_one, one_mul] at h
  exact h.alike (nearest_number hx)

/-! ## Zeros in a sum

A sum over a history begins somewhere and meets products with zero.  These are the two things that
`Tolerant` says an operation does not see, and addition and subtraction are the operations of a
response. -/

theorem alike_zero_add (hz : magnitude z = 0) (x : Float) : Alike (z + x) x := by
  have h := (Like.zero_add (signOf (negative z)) (unpack double (word x))).alike
  rwa [← unpack_eq_zero hz, ofModel_pack_unpack] at h

/-- An operation that sums up: it does not tell alike operands apart, and a zero changes nothing. -/
structure Tolerant (op : Float → Float → Float) : Prop where
  congr : ∀ {x x' y y' : Float}, Alike x x' → Alike y y' → Alike (op x y) (op x' y')
  absorb : ∀ {x z : Float}, magnitude z = 0 → Alike (op x z) x

theorem tolerant_add : Tolerant (· + ·) where
  congr := Alike.add
  absorb {x z} hz := by
    have h := (Like.add_zero (unpack double (word x)) (signOf (negative z))).alike
    rw [← unpack_eq_zero hz, ofModel_pack_unpack] at h
    exact h

theorem tolerant_sub : Tolerant (· - ·) where
  congr := Alike.sub
  absorb {x z} hz := by
    have h := (Like.sub_zero (unpack double (word x)) (signOf (negative z))).alike
    rw [← unpack_eq_zero hz, ofModel_pack_unpack] at h
    exact h

theorem isFinite_of_zero (h : magnitude x = 0) : isFinite x = true := by
  rw [isFinite, h]
  rfl

theorem Nearest.magnitude_eq_zero (h : Nearest x 0) : magnitude x = 0 := h.magnitude_eq

theorem magnitude_mul_zero {c : Float} (hc : isFinite c = true) (hz : magnitude z = 0) :
    magnitude (c * z) = 0 := by
  have h := nearest_mul hc (isFinite_of_zero hz)
  rw [number_of_zero hz, mul_zero] at h
  exact h.magnitude_eq_zero

theorem magnitude_zero_mul {c : Float} (hz : magnitude z = 0) (hc : isFinite c = true) :
    magnitude (z * c) = 0 := by
  have h := nearest_mul (isFinite_of_zero hz) hc
  rw [number_of_zero hz, zero_mul] at h
  exact h.magnitude_eq_zero

theorem magnitude_zero_div {c : Float} (hc : isFinite c = true) (hc₀ : magnitude c ≠ 0)
    (hz : magnitude z = 0) : magnitude (z / c) = 0 := by
  have h := nearest_div (isFinite_of_zero hz) hc (number_ne_zero hc₀)
  rw [number_of_zero hz, zero_div] at h
  exact h.magnitude_eq_zero

end FilterReference.Binary
