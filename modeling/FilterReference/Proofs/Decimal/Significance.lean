/-
# What a written double denotes

A decimal text denotes a sign and a number (`literal?`, `Literal.number`), however its digits are
laid out, and it has so many significant digits (`Literal.significantLength`).  The notation of JSON
text and the scientific one denote the same sign and number, that of the shortest decimal, and no
text that is read as the double has fewer significant digits (`numbers_exact`).

The number alone decides how many significant digits there are: the first of them is not a zero and
neither is the last, so a number in units of a power of ten is not below the one they make
(`significantLength_le`).
-/
import FilterReference.Proofs.Decimal.Fewest
import FilterReference.Proofs.Decimal.Notation
import Mathlib.Data.List.DropRight

namespace FilterReference

open Binary Json

/-! ## Significant digits

The digits without the zeros at both ends depend on how a number is laid out, but their number does
not: a number that ends in no zero is the least of its multiples by powers of ten. -/

/-- The digits from the first that is not a zero to the last that is not. -/
def trimZeros (ds : List Char) : List Char := (ds.dropWhile (· = '0')).rdropWhile (· = '0')

namespace Literal

/-- The number that a literal denotes, without its sign. -/
def number (l : Literal) : ℚ := l.decimal.value

def significantLength (l : Literal) : Nat := (trimZeros (l.whole ++ l.fraction)).length

end Literal

theorem exists_digitsValue_eq (ds : List Char) :
    ∃ k, digitsValue 0 ds = digitsValue 0 (trimZeros ds) * 10 ^ k := by
  rw [← digitsValue_dropWhile ds, trimZeros]
  induction ds.dropWhile (· = '0') using List.reverseRecOn with
  | nil => exact ⟨0, by simp [digitsValue_nil]⟩
  | append_singleton es e ih =>
      by_cases he : e = '0'
      · obtain ⟨k, hk⟩ := ih
        have hzero := digitsValue_zeros (digitsValue 0 es) 1
        refine ⟨k + 1, ?_⟩
        rw [List.rdropWhile_concat_pos _ _ _ (by simpa using he), he, digitsValue_append]
        rw [List.replicate_one] at hzero
        rw [hzero, hk, Nat.pow_one, Nat.pow_succ, Nat.mul_assoc]
      · refine ⟨0, ?_⟩
        rw [List.rdropWhile_concat_neg _ _ _ (by simpa using he), Nat.pow_zero, Nat.mul_one]

theorem allDigits_trimZeros {ds : List Char} (h : AllDigits ds) : AllDigits (trimZeros ds) :=
  fun c hc => h c ((List.dropWhile_sublist _).subset ((List.rdropWhile_prefix _ _).subset hc))

theorem trimZeros_head {ds es : List Char} {d : Char} (h : trimZeros ds = d :: es) : d ≠ '0' := by
  obtain ⟨rest, hprefix⟩ := List.rdropWhile_prefix (· = '0') (ds.dropWhile (· = '0'))
  change trimZeros ds ++ rest = _ at hprefix
  have hfirst := List.head?_dropWhile_not (· = '0') ds
  rw [← hprefix, h] at hfirst
  exact of_decide_eq_false hfirst

theorem trimZeros_last {ds es : List Char} {d : Char} (h : trimZeros ds = es ++ [d]) : d ≠ '0' := by
  have hne : (ds.dropWhile (· = '0')).rdropWhile (· = '0') ≠ [] := by
    rw [show (ds.dropWhile (· = '0')).rdropWhile (· = '0') = es ++ [d] from h]
    simp
  have hlast := List.rdropWhile_last_not (· = '0') _ hne
  simp only [show (ds.dropWhile (· = '0')).rdropWhile (· = '0') = es ++ [d] from h,
    List.getLast_append_singleton, decide_eq_true_eq] at hlast
  exact hlast

theorem digitsValue_trimZeros_mod_ten {ds : List Char} (hall : AllDigits ds)
    (hne : trimZeros ds ≠ []) : digitsValue 0 (trimZeros ds) % 10 ≠ 0 := by
  obtain ⟨es, d, hes⟩ := List.eq_nil_or_concat (trimZeros ds) |>.resolve_left hne
  rw [List.concat_eq_append] at hes
  have hd := digit_bounds (allDigits_trimZeros hall d (by rw [hes]; simp))
  have hne : d.toNat ≠ 48 := fun heq => trimZeros_last hes (Char.toNat_inj.mp heq)
  rw [hes, digitsValue_append, digitsValue_cons, digitsValue_nil]
  omega

theorem le_digitsValue_trimZeros {ds : List Char} (hall : AllDigits ds) (hne : trimZeros ds ≠ []) :
    10 ^ ((trimZeros ds).length - 1) ≤ digitsValue 0 (trimZeros ds) := by
  obtain ⟨d, es, hes⟩ := List.exists_cons_of_ne_nil hne
  have hd := allDigits_trimZeros hall d (by rw [hes]; exact List.mem_cons_self)
  rw [hes, List.length_cons, Nat.add_sub_cancel]
  exact le_digitsValue es hd (trimZeros_head hes)

/-- In whatever unit a number is an integer, that integer is not below the one without a zero at its
end. -/
theorem le_of_mod_ten {n m : Nat} {p q : Int} (hn : n % 10 ≠ 0)
    (h : (n : ℚ) * 10 ^ p = m * 10 ^ q) : n ≤ m := by
  have hten : (10 : ℚ) ≠ 0 := by norm_num
  rcases Int.lt_or_le p q with hlt | hle
  · -- In the smaller unit the other one ends in a zero.
    exfalso
    obtain ⟨k, hk⟩ : ∃ k : Nat, q = p + (k + 1 : Nat) := ⟨(q - p - 1).toNat, by omega⟩
    rw [hk, zpow_add₀ hten, zpow_natCast, ← mul_assoc, mul_right_comm,
      mul_left_inj' (zpow_ne_zero p hten)] at h
    have heq : n = m * 10 ^ k * 10 := by
      rw [Nat.mul_assoc, ← Nat.pow_succ]
      exact_mod_cast h
    omega
  · obtain ⟨k, hk⟩ : ∃ k : Nat, p = q + (k : Nat) := ⟨(p - q).toNat, by omega⟩
    rw [hk, zpow_add₀ hten, zpow_natCast, ← mul_assoc, mul_right_comm,
      mul_left_inj' (zpow_ne_zero q hten)] at h
    have heq : n * 10 ^ k = m := by exact_mod_cast h
    rw [← heq]
    exact Nat.le_mul_of_pos_right n (Nat.pow_pos (by decide))

namespace Literal

/-- All digits of a literal are digits. -/
def Digital (l : Literal) : Prop := AllDigits (l.whole ++ l.fraction)

theorem exists_trimmed (l : Literal) :
    ∃ p : Int, l.number = digitsValue 0 (trimZeros (l.whole ++ l.fraction)) * 10 ^ p := by
  obtain ⟨k, hk⟩ := exists_digitsValue_eq (l.whole ++ l.fraction)
  refine ⟨k + (l.exponent - l.fraction.length), ?_⟩
  rw [number, decimal, Decimal.value, hk, zpow_add₀ (by norm_num), zpow_natCast]
  push_cast
  ring

/-- A literal has no more significant digits than an integer that denotes its number in some unit.
-/
theorem significantLength_le {l : Literal} (hl : l.Digital) {m k : Nat} {q : Int}
    (h : l.number = m * 10 ^ q) (hm : m < 10 ^ k) : l.significantLength ≤ k := by
  unfold significantLength
  by_cases hne : trimZeros (l.whole ++ l.fraction) = []
  · rw [hne]
    exact Nat.zero_le k
  · obtain ⟨p, hp⟩ := l.exists_trimmed
    rw [h] at hp
    have hle := le_of_mod_ten (digitsValue_trimZeros_mod_ten hl hne) hp.symm
    have hlt := ((le_digitsValue_trimZeros hl hne).trans hle).trans_lt hm
    have := (Nat.pow_lt_pow_iff_right (by decide)).mp hlt
    omega

theorem magnitude_toFloat {l : Literal} (hl : l.Digital) :
    Binary.magnitude l.toFloat = l.decimal.nearest := by
  rw [toFloat, magnitude_eq l hl, magnitude_ofParts _ (Decimal.nearest_le_infinity _)]

/-- A literal with the number of the shortest decimal has no more significant digits than any other
that is read as the double. -/
theorem significantLength_le_of_shortest {l k : Literal} (hl : l.Digital) (hk : k.Digital)
    {tie : Tie} {x : Float} (hx : isFinite x = true)
    (hvalue : l.number = (Decimal.shortest tie (Binary.magnitude x)).value) (hread : k.toFloat = x) :
    l.significantLength ≤ k.significantLength := by
  have hb : Binary.magnitude x < binary64.infinity := of_decide_eq_true hx
  obtain ⟨p, hp⟩ := k.exists_trimmed
  obtain ⟨d, hd⟩ : ∃ d : Decimal, d = ⟨digitsValue 0 (trimZeros (k.whole ++ k.fraction)), p⟩ :=
    ⟨_, rfl⟩
  have hnumber : d.value = k.decimal.value := by
    rw [hd]
    exact hp.symm
  have hnearest : d.nearest = Binary.magnitude x := by
    rw [Decimal.nearest_congr hnumber, ← hread, magnitude_toFloat hk]
  have hdigits := Decimal.shortest_digits_le tie hb hnearest
  have hlt : d.significand < 10 ^ k.significantLength := by
    rw [hd]
    exact digitsValue_lt (allDigits_trimZeros hk)
  refine significantLength_le hl hvalue ?_
  rcases Nat.eq_zero_or_pos k.significantLength with hzero | hpos
  · -- Without a significant digit the number is zero, and so is the shortest decimal.
    have hsignificand : d.significand = 0 := by
      rw [hzero, Nat.pow_zero] at hlt
      omega
    have hmagnitude : Binary.magnitude x = 0 := by
      by_contra hne
      exact Decimal.significand_ne_zero (by rwa [hnearest]) hsignificand
    rw [hmagnitude, hzero]
    exact Nat.one_pos
  · rw [← Decimal.digits_length_le_iff hpos]
    exact hdigits.trans ((Decimal.digits_length_le_iff hpos).mpr hlt)

end Literal

theorem spanDigits_fst (cs : List Char) : AllDigits (spanDigits cs).1 := by
  induction cs with
  | nil => exact fun c hc => absurd hc List.not_mem_nil
  | cons c cs ih =>
      rw [spanDigits]
      split_ifs with hc
      · exact List.forall_mem_cons.mpr ⟨hc, ih⟩
      · exact fun c hc => absurd hc List.not_mem_nil

theorem digital_of_literal? {cs : List Char} {l : Literal} (h : literal? cs = some l) :
    l.Digital := by
  have hfraction : ∀ cs, AllDigits (spanFraction cs).1 := by
    intro cs
    unfold spanFraction
    split
    · exact spanDigits_fst _
    · exact fun c hc => absurd hc List.not_mem_nil
  unfold literal? readUnsigned? at h
  dsimp only at h
  split_ifs at h
  split at h
  · cases h
    exact allDigits_append (spanDigits_fst _) (hfraction _)
  · obtain ⟨e, -, rfl⟩ := Option.map_eq_some_iff.mp h
    exact allDigits_append (spanDigits_fst _) (hfraction _)
  · obtain ⟨e, -, rfl⟩ := Option.map_eq_some_iff.mp h
    exact allDigits_append (spanDigits_fst _) (hfraction _)
  · cases h

/-! ## Notations of doubles

The two notations differ in where the point stands and in how the exponent is written.  A literal
has the same sign and number in both. -/

theorem exponentText_bareExponent (c : Char) (cs : List Char) (e : Int) :
    Layout.exponentText (Layout.bareExponent e) (c :: cs) =
      [c] ++ (fractionText (exponentParts e (c :: cs)).fraction ++ 'e' :: integerChars e) := by
  cases cs <;> rfl

theorem literal?_numbers {x : Float} (hx : isFinite x = true) :
    ∃ l, literal? (numbers.chars x) = some l ∧ l.negative = negative x ∧
      l.number = (Decimal.shortest .upper (magnitude x)).value := by
  have hwritten := written_shortest .upper (of_decide_eq_true hx : magnitude x < binary64.infinity)
  refine ⟨(floatNumeral x).literal, ?_, rfl, value_partsOf _⟩
  rw [chars_float hx]
  exact literal?_text (wellFormed_partsOf hwritten) _

theorem literal?_scientific {x : Float} (hx : isFinite x = true) :
    ∃ l, literal? (Layout.scientific.chars x) = some l ∧ l.negative = negative x ∧
      l.number = (Decimal.shortest .upper (magnitude x)).value := by
  obtain ⟨d, hd⟩ : ∃ d, d = Decimal.shortest .upper (magnitude x) := ⟨_, rfl⟩
  obtain ⟨c, cs, hdigits⟩ := List.exists_cons_of_ne_nil
    (Nat.toDigits_ne_nil : Nat.toDigits 10 d.significand ≠ [])
  have hall : AllDigits (c :: cs) := hdigits ▸ allDigits_toDigits d.significand
  obtain ⟨hwhole, hfraction⟩ := allDigits_exponentParts hall d.exponent
  have hchars : Layout.scientific.chars x = (if negative x then ['-'] else []) ++
      Layout.exponentText (Layout.bareExponent d.exponent) d.digits := by
    rw [Layout.chars_of_isFinite _ hx, hd]
    rfl
  refine ⟨((exponentParts d.exponent d.digits).numeral (negative x)).literal, ?_, rfl,
    hd ▸ value_exponential d⟩
  rw [hchars, Decimal.digits, hdigits, exponentText_bareExponent, List.singleton_append, literal?,
    takeSign_append (hall c List.mem_cons_self), ← List.singleton_append]
  rw [exponentParts_cons] at hwhole hfraction ⊢
  exact readUnsigned?_append hwhole (List.cons_ne_nil _ _) hfraction
    (.marked (readExponent?_integerChars d.exponent)) (negative x)

/-! ## Writing is exact -/

theorem readFloat?_numbers {x : Float} (hx : isFinite x = true) :
    readFloat? (numbers.write x).toList = some x := by
  rw [Layout.write, String.toList_ofList]
  exact Layout.legible_numbers.readFloat?_chars hx

/-- **What is written of a finite double is exact**: the text denotes the sign and the number that
the scientific notation of the double denotes, it is read as the double, every text that is read as
the double has as many significant digits at least, and no other finite double is written so. -/
theorem numbers_exact {x : Float} (hx : isFinite x = true) :
    (∃ l m, literal? (numbers.write x).toList = some l ∧
      literal? (Layout.scientific.write x).toList = some m ∧
      l.negative = m.negative ∧ l.number = m.number ∧
      ∀ cs k, literal? cs = some k → readFloat? cs = some x →
        l.significantLength ≤ k.significantLength) ∧
      readFloat? (numbers.write x).toList = some x ∧
      ∀ y, isFinite y = true → numbers.write y = numbers.write x → y = x := by
  obtain ⟨l, hl, hsign, hnumber⟩ := literal?_numbers hx
  obtain ⟨m, hm, hsign', hnumber'⟩ := literal?_scientific hx
  refine ⟨⟨l, m, ?_, ?_, hsign.trans hsign'.symm, hnumber.trans hnumber'.symm, ?_⟩,
    readFloat?_numbers hx, ?_⟩
  · rw [Layout.write, String.toList_ofList, hl]
  · rw [Layout.write, String.toList_ofList, hm]
  · intro cs k hk hread
    rw [readFloat?_of_literal? hk, Option.some.injEq] at hread
    exact Literal.significantLength_le_of_shortest (digital_of_literal? hl) (digital_of_literal? hk)
      hx hnumber hread
  · intro y hy heq
    have hread := readFloat?_numbers hy
    rw [heq, readFloat?_numbers hx, Option.some.injEq] at hread
    exact hread.symm

/-- The least double below zero is written with one digit, as its scientific notation is. -/
theorem numbers_exact_subnormal :
    readFloat? (numbers.write (ofParts true 1)).toList = some (ofParts true 1) ∧
      ∀ cs k, literal? cs = some k → readFloat? cs = some (ofParts true 1) →
        1 ≤ k.significantLength := by
  have hlength : (literal? (numbers.write (ofParts true 1)).toList).map (·.significantLength) =
      some 1 := by
    decide +kernel
  obtain ⟨⟨l, m, hl, -, -, -, hfewest⟩, hread, -⟩ :=
    numbers_exact (x := ofParts true 1) (by decide +kernel)
  rw [hl, Option.map_some, Option.some.injEq] at hlength
  exact ⟨hread, hlength ▸ hfewest⟩

example : numbers.write (ofParts true 1) = "-5e-324" := by decide +kernel

end FilterReference
