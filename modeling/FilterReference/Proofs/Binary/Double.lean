/-
# Doubles and their patterns

A double that is a number is nothing but its sign and its magnitude pattern: `ofParts` puts them
together and `negative` and `magnitude` take them apart again.  What the arithmetic of doubles works
on is sign, mantissa and exponent; `unpack_of_finite` and `pack_finite` say that these are the
mantissa and the exponent of the magnitude pattern.
-/
import FilterReference.Binary.Double
import FilterReference.Proofs.Binary.Rounding
import Mathlib

namespace FilterReference.Binary

open Float.Model.UnpackedFloat

/-- The format of doubles, as the arithmetic names it. -/
abbrev double : Float.Model.Format := .binary64

def signOf (negative : Bool) : Sign := if negative then .negative else .positive

theorem toNat_packComponents (s : Sign) (e : BitVec 11) (m : BitVec 52) :
    (packComponents double s e m).toNat = s.toBitVec.toNat * 2 ^ 63 + e.toNat * 2 ^ 52 + m.toNat := by
  have he := e.isLt
  have hm := m.isLt
  change ((s.toBitVec ++ e) ++ m).toNat = _
  rw [BitVec.toNat_append, BitVec.toNat_append, ← Nat.shiftLeft_add_eq_or_of_lt hm,
    ← Nat.shiftLeft_add_eq_or_of_lt he, Nat.shiftLeft_eq, Nat.shiftLeft_eq]
  omega

theorem toNat_unpackMantissa (b : BitVec double.numBits) :
    (unpackMantissa b).toNat = b.toNat % 2 ^ 52 := by
  simp [unpackMantissa, BitVec.extractLsb, BitVec.extractLsb']

theorem toNat_unpackExponent (b : BitVec double.numBits) :
    (unpackExponent b).toNat = b.toNat / 2 ^ 52 % 2 ^ 11 := by
  simp [unpackExponent, BitVec.extractLsb, BitVec.extractLsb', Nat.shiftRight_eq_div_pow]

theorem toNat_unpackSign (b : BitVec double.numBits) :
    (unpackSign b).toNat = b.toNat / 2 ^ 63 := by
  have hb : b.toNat < 2 ^ 64 := b.isLt
  simp only [unpackSign, BitVec.extractLsb, BitVec.extractLsb', BitVec.toNat_cast,
    BitVec.toNat_ofNat, Nat.shiftRight_eq_div_pow]
  exact Nat.mod_eq_of_lt (by omega)

theorem toNat_ofBitVec (b : BitVec 1) : (Sign.ofBitVec b).toBitVec.toNat = b.toNat := by
  have hb := b.isLt
  unfold Sign.ofBitVec
  split
  · simp [*, Sign.toBitVec]
  · have hne : b.toNat ≠ 0 := fun h => ‹¬ b = 0#1› (BitVec.eq_of_toNat_eq h)
    have hone : b.toNat = 1 := by omega
    simp [Sign.toBitVec, hone]

/-! ## Sign, mantissa and exponent

Unpacking tells four kinds of words apart by their exponent and mantissa fields.  In terms of the
magnitude pattern they are what lies below infinity, at it and beyond it, and zero. -/

/-- The pattern of a word without its sign. -/
def pattern (b : BitVec double.numBits) : Nat := b.toNat % 2 ^ 63

theorem infinity_eq : binary64.infinity = 2047 * 2 ^ 52 := by decide

theorem exponent_eq (bits : Nat) :
    binary64.exponent bits = -1074 + ((bits / 2 ^ 52 - 1 : Nat) : Int) := rfl

theorem pattern_fields (b : BitVec double.numBits) :
    pattern b = (unpackExponent b).toNat * 2 ^ 52 + (unpackMantissa b).toNat := by
  rw [toNat_unpackExponent, toNat_unpackMantissa, pattern]
  omega

theorem unpackExponent_eq_iff (b : BitVec double.numBits) {e : BitVec double.exponentBits} :
    unpackExponent b = e ↔ pattern b / 2 ^ 52 = e.toNat := by
  have hm : (unpackMantissa b).toNat < 2 ^ 52 := (unpackMantissa b).isLt
  rw [pattern_fields, ← BitVec.toNat_inj]
  omega

theorem unpackMantissa_eq_zero_iff (b : BitVec double.numBits) :
    unpackMantissa b = 0#_ ↔ pattern b % 2 ^ 52 = 0 := by
  have hm : (unpackMantissa b).toNat < 2 ^ 52 := (unpackMantissa b).isLt
  rw [pattern_fields, ← BitVec.toNat_inj]
  change (unpackMantissa b).toNat = 0 ↔ _
  omega

theorem toNat_append_one (m : BitVec 52) : (1#1 ++ m).toNat = 2 ^ 52 + m.toNat := by
  rw [BitVec.toNat_append, ← Nat.shiftLeft_add_eq_or_of_lt m.isLt]
  rfl

theorem unpack_of_finite (b : BitVec double.numBits) (h₀ : pattern b ≠ 0)
    (h : pattern b < binary64.infinity) :
    unpack double b = .finite (Sign.ofBitVec (unpackSign b)) (binary64.mantissa (pattern b))
      (binary64.exponent (pattern b)) (Nat.pos_of_ne_zero (binary64.mantissa_ne_zero h₀)) := by
  rw [infinity_eq] at h
  have hfields := pattern_fields b
  have hm : (unpackMantissa b).toNat < 2 ^ 52 := (unpackMantissa b).isLt
  have hdiv : pattern b / 2 ^ 52 = (unpackExponent b).toNat := by omega
  have hmod : pattern b % 2 ^ 52 = (unpackMantissa b).toNat := by omega
  have hexp : binary64.exponent (pattern b) =
      -1074 + (((unpackExponent b).toNat - 1 : Nat) : Int) := by
    rw [← hdiv]; rfl
  have htop : ¬ unpackExponent b = -1#_ := by
    rw [unpackExponent_eq_iff]
    change ¬ pattern b / 2 ^ 52 = 2047
    omega
  simp only [unpack, if_neg htop]
  split
  · rename_i hz
    have hz' : (unpackExponent b).toNat = 0 := by rw [hz]; rfl
    have hmant : binary64.mantissa (pattern b) = (unpackMantissa b).toNat := by
      have hlow : pattern b < 2 ^ binary64.fractionBits := by change pattern b < 2 ^ 52; omega
      rw [Format.mantissa, if_pos hlow]
      omega
    split
    · rename_i hz₂
      have : pattern b % 2 ^ 52 = 0 := (unpackMantissa_eq_zero_iff b).mp hz₂
      omega
    · rw [hz'] at hexp
      simp only [hmant, hexp, hz', finite.injEq]
      exact ⟨trivial, trivial, by decide⟩
  · rename_i hz
    have hz' : (unpackExponent b).toNat ≠ 0 := fun h0 => hz (BitVec.eq_of_toNat_eq h0)
    have hmant : binary64.mantissa (pattern b) = 2 ^ 52 + (unpackMantissa b).toNat := by
      have hhigh : ¬ pattern b < 2 ^ binary64.fractionBits := by
        change ¬ pattern b < 2 ^ 52; omega
      rw [Format.mantissa, if_neg hhigh]
      change 2 ^ 52 + pattern b % 2 ^ 52 = _
      rw [hmod]
    simp only [hmant, hexp, finite.injEq]
    refine ⟨trivial, toNat_append_one _, ?_⟩
    change ((unpackExponent b).toNat : Int) - 1075 = _
    omega

theorem unpack_of_zero (b : BitVec double.numBits) (h : pattern b = 0) :
    unpack double b = .zero (Sign.ofBitVec (unpackSign b)) := by
  have hexp : unpackExponent b = 0#_ := by
    rw [unpackExponent_eq_iff, h]; rfl
  have hmant : unpackMantissa b = 0#_ := by
    rw [unpackMantissa_eq_zero_iff, h]; rfl
  simp only [unpack, hexp, hmant]
  rfl

theorem unpack_of_infinity (b : BitVec double.numBits) (h : pattern b = binary64.infinity) :
    unpack double b = .infinity (Sign.ofBitVec (unpackSign b)) := by
  rw [infinity_eq] at h
  have hexp : unpackExponent b = -1#_ := by
    rw [unpackExponent_eq_iff, h]; rfl
  have hmant : unpackMantissa b = 0#_ := by
    rw [unpackMantissa_eq_zero_iff, h]; rfl
  simp only [unpack, hexp, hmant]
  rfl

theorem unpack_of_notANumber (b : BitVec double.numBits) (h : binary64.infinity < pattern b) :
    unpack double b = .notANumber := by
  rw [infinity_eq] at h
  have hb : pattern b < 2 ^ 63 := Nat.mod_lt _ (by decide)
  have hexp : unpackExponent b = -1#_ := by
    rw [unpackExponent_eq_iff]
    change pattern b / 2 ^ 52 = 2047
    omega
  have hmant : ¬ unpackMantissa b = 0#_ := by
    rw [unpackMantissa_eq_zero_iff]
    omega
  simp only [unpack, if_pos hexp, if_neg hmant]

/-- A mantissa in the unit of its number is packed into the pattern it belongs to, or into that of
infinity. -/
theorem toNat_pack_finite (s : Sign) {m : Nat} {e : Int} (hm : 0 < m) (hfit : m < 2 ^ 53)
    (he : -1074 ≤ e) (hn : e = -1074 ∨ 2 ^ 52 ≤ m) :
    (pack double (.finite s m e hm)).toNat =
      s.toBitVec.toNat * 2 ^ 63 + min ((e + 1074).toNat * 2 ^ 52 + m) binary64.infinity := by
  rw [infinity_eq]
  have hbias : (e + double.exponentBias + double.mantissaBitsWithoutImplicit).toNat =
      (e + 1074).toNat + 1 := by
    change (e + 1023 + 52).toNat = _
    omega
  simp only [pack, hbias]
  change (if 2048 ≤ (e + 1074).toNat + 1 + 1 then _ else
    if m.log2 + 1 = 53 then _ else _ : BitVec double.numBits).toNat = _
  split
  · have hbig : 2 ^ 52 ≤ m := hn.resolve_left (by omega)
    rw [packedInfinity, toNat_packComponents]
    change _ + 2047 * 2 ^ 52 + 0 = _
    omega
  · split
    · rename_i hlog
      have hbig : 2 ^ 52 ≤ m := (Nat.le_log2 (by omega)).mp (by omega)
      rw [toNat_packComponents, BitVec.toNat_ofNat, BitVec.toNat_ofNat]
      change _ + ((e + 1074).toNat + 1) % 2048 * 2 ^ 52 + m % 2 ^ 52 = _
      omega
    · rename_i hlog
      have hsmall : m < 2 ^ 52 := by
        by_contra hbig
        have h₁ : 52 ≤ m.log2 := (Nat.le_log2 (by omega)).mpr (by omega)
        have h₂ : m.log2 < 53 := (Nat.log2_lt (by omega)).mpr hfit
        omega
      rw [toNat_packComponents, BitVec.toNat_ofNat]
      change _ + 0 * 2 ^ 52 + m % 2 ^ 52 = _
      omega

theorem pack_unpack (b : BitVec double.numBits) (h : pattern b ≤ binary64.infinity) :
    pack double (unpack double b) = b := by
  have hsplit : b.toNat = (Sign.ofBitVec (unpackSign b)).toBitVec.toNat * 2 ^ 63 + pattern b := by
    rw [toNat_ofBitVec, toNat_unpackSign, pattern]
    omega
  apply BitVec.eq_of_toNat_eq
  rw [hsplit]
  rcases h.lt_or_eq with hlt | heq
  · rcases Nat.eq_zero_or_pos (pattern b) with h₀ | hpos
    · rw [unpack_of_zero b h₀, pack, packedZero, toNat_packComponents, h₀]
      change _ + 0 * 2 ^ 52 + 0 = _
      omega
    · have h₀ : pattern b ≠ 0 := Nat.ne_of_gt hpos
      obtain ⟨hfit, hn⟩ := binary64.mantissa_bounds (pattern b)
      have hexp := exponent_eq (pattern b)
      have hpat : (pattern b / 2 ^ 52 - 1) * 2 ^ 52 + binary64.mantissa (pattern b) = pattern b :=
        binary64.pattern_eq (pattern b)
      rw [unpack_of_finite b h₀ hlt, toNat_pack_finite _ _ hfit (by omega)
        (hn.imp (fun h => by rw [hexp]; change pattern b / 2 ^ 52 - 1 = 0 at h; omega) id), hexp]
      rw [show (-1074 + ((pattern b / 2 ^ 52 - 1 : Nat) : Int) + 1074).toNat =
        pattern b / 2 ^ 52 - 1 by omega, hpat, Nat.min_eq_left h]
  · rw [unpack_of_infinity b heq, pack, packedInfinity, toNat_packComponents, heq, infinity_eq]
    change _ + 2047 * 2 ^ 52 + 0 = _
    omega

/-! ## Signs and magnitudes of doubles

There is one word for what is not a number, so doubles that are none are equal, and every other
double is made of its sign and its magnitude. -/

theorem toBits_injective {x y : Float} (h : x.toBits = y.toBits) : x = y := by
  obtain ⟨⟨a, ha⟩⟩ := x
  obtain ⟨⟨b, hb⟩⟩ := y
  obtain rfl : a = b := h
  rfl

theorem toNat_toBits (x : Float) :
    x.toBits.toNat = (if negative x then 2 ^ 63 else 0) + magnitude x := by
  have hx : x.toBits.toNat < 2 ^ 64 := x.toBits.toNat_lt
  unfold negative magnitude
  simp only [decide_eq_true_eq]
  split <;> omega

theorem toBits_ofBits (u : UInt64) (h : u.toNat % 2 ^ 63 ≤ binary64.infinity) :
    (Float.ofBits u).toBits = u := by
  change UInt64.ofBitVec (pack double (unpack double u.toBitVec)) = u
  rw [pack_unpack u.toBitVec h]

theorem toNat_ofParts (negative : Bool) {m : Nat} (h : m ≤ binary64.infinity) :
    (ofParts negative m).toBits.toNat = (if negative then 2 ^ 63 else 0) + m := by
  rw [infinity_eq] at h
  have hword : (UInt64.ofNat (if negative then 2 ^ 63 + m else m)).toNat =
      (if negative then 2 ^ 63 else 0) + m := by
    rw [UInt64.toNat_ofNat']
    split <;> omega
  rw [ofParts, toBits_ofBits, hword]
  rw [hword, infinity_eq]
  split <;> omega

@[simp] theorem magnitude_ofParts (negative : Bool) {m : Nat} (h : m ≤ binary64.infinity) :
    magnitude (ofParts negative m) = m := by
  rw [magnitude, toNat_ofParts negative h]
  rw [infinity_eq] at h
  split <;> omega

@[simp] theorem negative_ofParts (negative : Bool) {m : Nat} (h : m ≤ binary64.infinity) :
    Binary.negative (ofParts negative m) = negative := by
  rw [Binary.negative, toNat_ofParts negative h]
  rw [infinity_eq] at h
  cases negative
  · simpa using (by omega : m < 2 ^ 63)
  · simp

theorem ofParts_magnitude {x : Float} (h : isNaN x = false) :
    ofParts (negative x) (magnitude x) = x := by
  have hm : magnitude x ≤ binary64.infinity := by simpa [isNaN] using h
  apply toBits_injective
  rw [← UInt64.toNat_inj, toNat_ofParts _ hm, toNat_toBits]

/-- Only one word is not a number. -/
theorem toBits_of_isNaN {x : Float} (h : isNaN x = true) :
    x.toBits.toBitVec = packedNaN double := by
  have hlow : binary64.infinity < x.toBits.toNat % 2 ^ 63 := of_decide_eq_true h
  rw [infinity_eq] at hlow
  obtain ⟨⟨a, ha⟩⟩ := x
  change 2047 * 2 ^ 52 < a.toNat % 2 ^ 63 at hlow
  refine ha.eq_packedNaN ((unpackExponent_eq_iff _).mpr ?_) fun hzero => ?_
  · change a.toNat % 2 ^ 63 / 2 ^ 52 = 2047
    omega
  · have hmod : a.toNat % 2 ^ 63 % 2 ^ 52 = 0 := (unpackMantissa_eq_zero_iff _).mp hzero
    omega

theorem eq_of_isNaN {x y : Float} (hx : isNaN x = true) (hy : isNaN y = true) : x = y := by
  apply toBits_injective
  rw [← UInt64.toBitVec_inj, toBits_of_isNaN hx, toBits_of_isNaN hy]

theorem isNaN_of_isFinite {x : Float} (h : isFinite x = true) : isNaN x = false := by
  rw [isFinite, decide_eq_true_eq] at h
  rw [isNaN, decide_eq_false_iff_not]
  omega

theorem magnitude_ofQuotient (negative : Bool) (num den : Nat) :
    magnitude (ofQuotient negative num den) = binary64.nearest num den :=
  magnitude_ofParts _ (binary64.nearest_le_infinity _ _)

theorem negative_ofQuotient (negative : Bool) (num den : Nat) :
    Binary.negative (ofQuotient negative num den) = negative :=
  negative_ofParts _ (binary64.nearest_le_infinity _ _)

end FilterReference.Binary
