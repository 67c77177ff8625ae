/-
# Decimal literals

A run of digits has a value (`digitsValue`), and the digits that are written of a number have that
number as their value.  A literal is read as the double nearest to its number
(`Literal.magnitude_eq`): what is decided from the place of the first digit alone agrees with
rounding the number itself.
-/
import FilterReference.Decimal.Literal
import FilterReference.Proofs.Decimal.Shortest

namespace FilterReference

open Binary

/-! ## Runs of digits

A run is read digit by digit with what came before as an accumulator.  Everything about its value
comes from the lemmas that separate the accumulator from the rest. -/

def AllDigits (ds : List Char) : Prop := ∀ c ∈ ds, c.isDigit = true

def NoDigitFirst (cs : List Char) : Prop := ∀ c ∈ cs.head?, c.isDigit = false

theorem allDigits_append {ds es : List Char} (hd : AllDigits ds) (he : AllDigits es) :
    AllDigits (ds ++ es) := by
  intro c hc
  rcases List.mem_append.mp hc with h | h
  · exact hd c h
  · exact he c h

theorem allDigits_replicate (n : Nat) : AllDigits (List.replicate n '0') := by
  intro c hc
  rw [List.eq_of_mem_replicate hc]
  rfl

theorem allDigits_toDigits (n : Nat) : AllDigits (Nat.toDigits 10 n) :=
  fun _ hc => Nat.isDigit_of_mem_toDigits (by decide) (by decide) hc

theorem spanDigits_append {ds rest : List Char} (hd : AllDigits ds) (hr : NoDigitFirst rest) :
    spanDigits (ds ++ rest) = (ds, rest) := by
  induction ds with
  | nil =>
      cases rest with
      | nil => rfl
      | cons c rest =>
          rw [List.nil_append, spanDigits, hr c rfl]
          rfl
  | cons d ds ih =>
      rw [List.cons_append, spanDigits, hd d List.mem_cons_self,
        ih fun c hc => hd c (List.mem_cons_of_mem d hc)]
      rfl

theorem digitsValue_nil (acc : Nat) : digitsValue acc [] = acc := rfl

-- The bare `rfl` is tried as a definitional equation as well, which unfolds the subtraction.
theorem digitsValue_cons (acc : Nat) (d : Char) (ds : List Char) :
    digitsValue acc (d :: ds) = digitsValue (acc * 10 + (d.toNat - 48)) ds := id rfl

theorem digitsValue_append (acc : Nat) (ds es : List Char) :
    digitsValue acc (ds ++ es) = digitsValue (digitsValue acc ds) es := by
  induction ds generalizing acc with
  | nil => rfl
  | cons d ds ih => rw [List.cons_append, digitsValue_cons, ih, digitsValue_cons]

theorem digitsValue_acc (acc : Nat) (ds : List Char) :
    digitsValue acc ds = acc * 10 ^ ds.length + digitsValue 0 ds := by
  induction ds generalizing acc with
  | nil =>
      rw [digitsValue_nil, digitsValue_nil, List.length_nil, Nat.pow_zero, Nat.mul_one,
        Nat.add_zero]
  | cons d ds ih =>
      rw [digitsValue_cons, digitsValue_cons, ih, ih (0 * 10 + _), List.length_cons, Nat.pow_succ]
      ring

theorem digitsValue_zeros (acc n : Nat) :
    digitsValue acc (List.replicate n '0') = acc * 10 ^ n := by
  induction n generalizing acc with
  | zero => rw [Nat.pow_zero, Nat.mul_one, List.replicate_zero, digitsValue_nil]
  | succ n ih =>
      have hzero : '0'.toNat - 48 = 0 := rfl
      rw [List.replicate_succ, digitsValue_cons, ih, hzero, Nat.pow_succ]
      ring

theorem digitsValue_dropWhile (ds : List Char) :
    digitsValue 0 (ds.dropWhile (· = '0')) = digitsValue 0 ds := by
  induction ds with
  | nil => rfl
  | cons d ds ih =>
      by_cases hd : d = '0'
      · have hzero : 0 * 10 + ('0'.toNat - 48) = 0 := rfl
        rw [List.dropWhile_cons_of_pos (by simpa using hd), ih, hd, digitsValue_cons, hzero]
      · rw [List.dropWhile_cons_of_neg (by simpa using hd)]

theorem digit_bounds {c : Char} (h : c.isDigit = true) : 48 ≤ c.toNat ∧ c.toNat ≤ 57 := by
  simp only [Char.isDigit, Bool.and_eq_true, decide_eq_true_eq] at h
  exact ⟨h.1, h.2⟩

theorem digitsValue_lt {ds : List Char} (h : AllDigits ds) : digitsValue 0 ds < 10 ^ ds.length := by
  induction ds with
  | nil => decide
  | cons d ds ih =>
      have hd := digit_bounds (h d List.mem_cons_self)
      have hds := ih fun c hc => h c (List.mem_cons_of_mem d hc)
      rw [digitsValue_cons, digitsValue_acc, List.length_cons, Nat.pow_succ]
      have hle : (0 * 10 + (d.toNat - 48)) * 10 ^ ds.length ≤ 9 * 10 ^ ds.length :=
        Nat.mul_le_mul_right _ (by omega)
      omega

/-- A run that begins with another digit than zero has at least the value of its first place. -/
theorem le_digitsValue {d : Char} (ds : List Char) (h : d.isDigit = true) (hd : d ≠ '0') :
    10 ^ ds.length ≤ digitsValue 0 (d :: ds) := by
  have hb := digit_bounds h
  have hne : d.toNat ≠ 48 := fun heq => hd (Char.toNat_inj.mp heq)
  rw [digitsValue_cons, digitsValue_acc]
  have hle : 1 * 10 ^ ds.length ≤ (0 * 10 + (d.toNat - 48)) * 10 ^ ds.length :=
    Nat.mul_le_mul_right _ (by omega)
  omega

theorem digitsValue_toDigits (n : Nat) : digitsValue 0 (Nat.toDigits 10 n) = n := by
  induction n using Nat.strong_induction_on with
  | _ n ih =>
      rw [Nat.toDigits_eq_if (by decide)]
      have hchar : ∀ d < 10, digitsValue 0 [Nat.digitChar d] = d := by decide
      split_ifs with hlt
      · exact hchar n hlt
      · have hd := hchar (n % 10) (Nat.mod_lt n (by decide))
        rw [digitsValue_append, digitsValue_acc, ih (n / 10) (by omega), hd, List.length_singleton]
        omega

theorem toDigits_head {n : Nat} (h : n ≠ 0) :
    ∃ d ds, Nat.toDigits 10 n = d :: ds ∧ d ≠ '0' := by
  induction n using Nat.strong_induction_on with
  | _ n ih =>
      rw [Nat.toDigits_eq_if (by decide)]
      split_ifs with hlt
      · have hchar : ∀ d < 10, d ≠ 0 → Nat.digitChar d ≠ '0' := by decide
        exact ⟨_, [], rfl, hchar n hlt h⟩
      · obtain ⟨d, ds, heq, hd⟩ := ih (n / 10) (by omega) (by omega)
        exact ⟨d, ds ++ [Nat.digitChar (n % 10)], by rw [heq, List.cons_append], hd⟩

theorem toDigits_last {n : Nat} (h : n % 10 ≠ 0) : (Nat.toDigits 10 n).getLast? ≠ some '0' := by
  have hchar : ∀ d < 10, d ≠ 0 → Nat.digitChar d ≠ '0' := by decide
  have hlast := hchar (n % 10) (Nat.mod_lt n (by decide)) h
  rw [Nat.toDigits_eq_if (by decide)]
  split_ifs with hlt
  · rw [Nat.mod_eq_of_lt hlt] at hlast
    exact fun heq => hlast (Option.some.inj heq)
  · rw [List.getLast?_concat]
    exact fun heq => hlast (Option.some.inj heq)

/-! ## Reading a number

A literal may have an exponent that no power of ten can be computed for.  By the place of its first
digit it is either far too large or far too small, or the power is harmless. -/

namespace Decimal

theorem nearest_le_infinity (d : Decimal) : d.nearest ≤ binary64.infinity :=
  binary64.nearest_le_infinity _ _

theorem nearest_huge : (⟨1, 310⟩ : Decimal).nearest = binary64.infinity := by decide +kernel

theorem nearest_tiny : (⟨1, -330⟩ : Decimal).nearest = 0 := by decide +kernel

/-- Deciding by the place of the first digit agrees with rounding the number. -/
theorem toBits_eq_nearest {significand digits : Nat} {power : Int}
    (h : significand = 0 ∨ 10 ^ digits ≤ 10 * significand ∧ significand < 10 ^ digits) :
    toBits significand digits power = (⟨significand, power⟩ : Decimal).nearest := by
  unfold toBits
  split_ifs with hzero hhuge htiny
  · rw [hzero]
    exact (nearest_eq_of_value (Nat.zero_le _) (by rw [binary64.value_zero, value]; simp)).symm
  · have hle : (⟨1, 310⟩ : Decimal).value ≤ (⟨significand, power⟩ : Decimal).value := by
      obtain ⟨hlow, -⟩ := h.resolve_left hzero
      have hlow' : (10 : ℚ) ^ digits ≤ 10 * significand := by exact_mod_cast hlow
      have hfirst : (10 : ℚ) ^ (310 : Int) * 10 ≤ 10 ^ digits * 10 ^ power := by
        rw [← zpow_natCast, ← zpow_add₀ (by norm_num), ← zpow_add_one₀ (by norm_num)]
        exact zpow_le_zpow_right₀ (by norm_num) (by omega)
      have hscaled : (10 : ℚ) ^ digits * 10 ^ power ≤ 10 * significand * 10 ^ power :=
        mul_le_mul_of_nonneg_right hlow' (ten_zpow_pos power).le
      simp only [value, Nat.cast_one, one_mul]
      linarith
    exact Nat.le_antisymm (nearest_huge ▸ nearest_mono hle) (nearest_le_infinity _)
  · have hle : (⟨significand, power⟩ : Decimal).value ≤ (⟨1, -330⟩ : Decimal).value := by
      obtain ⟨-, hhigh⟩ := h.resolve_left hzero
      have hhigh' : (significand : ℚ) ≤ 10 ^ digits := by exact_mod_cast hhigh.le
      simp only [value, Nat.cast_one, one_mul]
      calc (significand : ℚ) * 10 ^ power ≤ 10 ^ digits * 10 ^ power :=
            mul_le_mul_of_nonneg_right hhigh' (ten_zpow_pos power).le
        _ = 10 ^ ((digits : Int) + power) := by
            rw [← zpow_natCast, ← zpow_add₀ (by norm_num)]
        _ ≤ 10 ^ (-330 : Int) := zpow_le_zpow_right₀ (by norm_num) (by omega)
    exact (Nat.le_zero.mp (nearest_tiny ▸ nearest_mono hle)).symm
  · rfl

end Decimal

namespace Literal

/-- The number of a literal without its sign. -/
def decimal (l : Literal) : Decimal :=
  ⟨digitsValue 0 (l.whole ++ l.fraction), l.exponent - l.fraction.length⟩

/-- **A literal is read as the double nearest to its number.** -/
theorem magnitude_eq (l : Literal) (h : AllDigits (l.whole ++ l.fraction)) :
    l.magnitude = l.decimal.nearest := by
  have hvalue : digitsValue 0 l.significantDigits = digitsValue 0 (l.whole ++ l.fraction) :=
    digitsValue_dropWhile _
  rw [magnitude, decimal, ← hvalue]
  have hall : AllDigits l.significantDigits :=
    fun c hc => h c ((List.dropWhile_sublist _).subset hc)
  have hlt := digitsValue_lt hall
  apply Decimal.toBits_eq_nearest
  cases hdigits : l.significantDigits with
  | nil => exact Or.inl rfl
  | cons d ds =>
      have hd : d ≠ '0' := by
        have hfirst := List.head?_dropWhile_not (· = '0') (l.whole ++ l.fraction)
        rw [show (l.whole ++ l.fraction).dropWhile (· = '0') = d :: ds from hdigits] at hfirst
        exact of_decide_eq_false hfirst
      rw [hdigits] at hall hlt
      have hle := le_digitsValue ds (hall d List.mem_cons_self) hd
      rw [List.length_cons, Nat.pow_succ] at hlt ⊢
      exact Or.inr ⟨by omega, by omega⟩

end Literal

end FilterReference
