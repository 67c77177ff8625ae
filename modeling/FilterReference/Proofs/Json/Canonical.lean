/-
# The canonical notation of doubles

A finite double is written in one of two forms, and its exponent says in which: with a point among
its digits from `1e-4` up to, but not including, `1e16`, and in exponent notation otherwise
(`numbers_canonical`).  No form has a needless zero.  The first has a point and the second an
exponent mark, so that no double is taken for an integer when it is read back.

The zeros that positional notation adds stand between the digits and the point, so the last digit of
a fraction is that of the shortest decimal (`shortest_mod_ten`) or the one zero that keeps the
point.
-/
import FilterReference.Proofs.Decimal.Fewest
import FilterReference.Proofs.Json.Reading

namespace FilterReference

open Binary

namespace Json

/-! ## The two forms

The forms are given by their characters, without a word of how they come about.  A text cannot have
both, as one of them has an exponent mark. -/

/-- Digits, a point and digits: no zero in front of another digit before the point, and none at the
end but a zero that stands alone. -/
structure PositionalForm (whole fraction : List Char) : Prop where
  whole_digits : AllDigits whole
  whole_nonempty : whole ≠ []
  leading : whole = ['0'] ∨ whole.head? ≠ some '0'
  fraction_digits : AllDigits fraction
  fraction_nonempty : fraction ≠ []
  trailing : fraction = ['0'] ∨ fraction.getLast? ≠ some '0'

/-- A digit other than zero, perhaps a point and digits that do not end in a zero, and an exponent
with its sign: of two digits, or of more without a zero in front. -/
structure ExponentForm (first : Char) (fraction : Option (List Char)) (sign : Char)
    (exponent : List Char) : Prop where
  digit : first.isDigit = true
  leading : first ≠ '0'
  trailing : ∀ ds ∈ fraction, AllDigits ds ∧ ds ≠ [] ∧ ds.getLast? ≠ some '0'
  signed : sign = '+' ∨ sign = '-'
  exponent_digits : AllDigits exponent
  padded : 2 ≤ exponent.length
  unpadded : exponent.length = 2 ∨ exponent.head? ≠ some '0'

def IsPositional (cs : List Char) : Prop :=
  ∃ whole fraction, PositionalForm whole fraction ∧ cs = whole ++ '.' :: fraction

def IsExponential (cs : List Char) : Prop :=
  ∃ first fraction sign exponent, ExponentForm first fraction sign exponent ∧
    cs = first :: (fractionText fraction ++ 'e' :: sign :: exponent)

theorem IsPositional.point {cs : List Char} (h : IsPositional cs) : '.' ∈ cs := by
  obtain ⟨whole, fraction, -, rfl⟩ := h
  simp

theorem IsExponential.mark {cs : List Char} (h : IsExponential cs) : 'e' ∈ cs := by
  obtain ⟨first, fraction, sign, exponent, -, rfl⟩ := h
  simp

theorem not_mark_mem {ds : List Char} (h : AllDigits ds) : 'e' ∉ ds := by
  intro hmem
  cases h 'e' hmem

theorem IsPositional.not_exponential {cs : List Char} (h : IsPositional cs) : ¬ IsExponential cs := by
  intro hexponential
  have hmark := hexponential.mark
  obtain ⟨whole, fraction, hform, rfl⟩ := h
  rcases List.mem_append.mp hmark with hwhole | hrest
  · exact not_mark_mem hform.whole_digits hwhole
  · rcases List.mem_cons.mp hrest with heq | hfraction
    · cases heq
    · exact not_mark_mem hform.fraction_digits hfraction

/-! ## Digits without a needless zero -/

theorem twoDigits_minimal (n : Nat) :
    2 ≤ (twoDigits n).length ∧ ((twoDigits n).length = 2 ∨ (twoDigits n).head? ≠ some '0') := by
  unfold twoDigits
  split_ifs with hlt
  · have hone : (Nat.toDigits 10 n).length = 1 := by rw [Nat.toDigits_of_lt_base hlt]; rfl
    simp [hone]
  · obtain ⟨d, ds, hdigits, hd⟩ := toDigits_head (n := n) (by omega)
    refine ⟨?_, Or.inr ?_⟩
    · by_contra hshort
      exact hlt ((Nat.length_toDigits_le_iff (b := 10) (by decide) Nat.one_pos).mp (by omega))
    · rw [hdigits]
      exact fun h => hd (Option.some.inj h)

section Digits

variable {digits : List Char} {c : Char} {cs : List Char}

/-- In positional notation no fraction ends in a zero, but for the one that keeps the point. -/
theorem positionalParts_trailing (hne : digits ≠ []) (hlast : digits.getLast? ≠ some '0') (e : Int) :
    ∀ ds ∈ (positionalParts digits e).fraction, ds = ['0'] ∨ ds.getLast? ≠ some '0' := by
  cases e with
  | ofNat e =>
      rw [positionalParts]
      split_ifs with h
      · rintro ds ⟨⟩
        right
        have hdrop : digits.drop (e + 1) ≠ [] := fun hnil => by
          have := List.drop_eq_nil_iff.mp hnil
          omega
        rwa [← List.getLast?_append_of_ne_nil (digits.take (e + 1)) hdrop, List.take_append_drop]
      · rintro ds ⟨⟩
        exact Or.inl rfl
  | negSucc e =>
      rintro ds ⟨⟩
      right
      rwa [List.getLast?_append_of_ne_nil _ hne]

theorem positional_text {e : Int} (hp : (positionalParts digits e).WellFormed)
    (hlast : ∀ ds ∈ (positionalParts digits e).fraction, ds = ['0'] ∨ ds.getLast? ≠ some '0') :
    IsPositional (positionalParts digits e).text := by
  obtain ⟨whole, fraction, hparts⟩ := positionalParts_shape digits e
  rw [hparts] at hp hlast ⊢
  obtain ⟨hall, hne⟩ := hp.fraction fraction rfl
  refine ⟨whole, fraction, ⟨hp.whole, hp.nonempty, hp.leading, hall, hne, hlast fraction rfl⟩, ?_⟩
  simp only [NumberParts.text, fractionText, exponentText, List.append_nil]

theorem exponential_text (hall : AllDigits (c :: cs)) (hc : c ≠ '0')
    (hlast : (c :: cs).getLast? ≠ some '0') (e : Int) :
    IsExponential (exponentParts e (c :: cs)).text := by
  obtain ⟨hfirst, hcs⟩ := List.forall_mem_cons.mp hall
  obtain ⟨hpadded, hunpadded⟩ := twoDigits_minimal e.natAbs
  refine ⟨c, (exponentParts e (c :: cs)).fraction, if e < 0 then '-' else '+', twoDigits e.natAbs,
    ⟨hfirst, hc, fun ds hds => ?_, ?_, (twoDigits_spec e.natAbs).1, hpadded, hunpadded⟩, ?_⟩
  · obtain ⟨hne, rfl⟩ := mem_fraction_exponentParts.mp hds
    refine ⟨hcs, hne, ?_⟩
    rwa [← List.getLast?_append_of_ne_nil [c] hne]
  · split_ifs
    · exact Or.inr rfl
    · exact Or.inl rfl
  · rw [exponentParts_cons, NumberParts.text, List.append_assoc, List.singleton_append]
    rfl

end Digits

/-! ## The notation of a double -/

theorem partsOf_form {d : Decimal} (hd : d = ⟨0, 0⟩ ∨ d.significand % 10 ≠ 0) :
    if -4 ≤ d.exponent ∧ d.exponent < 16 then IsPositional (partsOf d).text
    else IsExponential (partsOf d).text := by
  rcases hd with rfl | hd
  · -- Zero is written as `0.0`.
    have hzero : partsOf ⟨0, 0⟩ = positionalParts ['0'] 0 := rfl
    have hwell : (positionalParts ['0'] 0).WellFormed := wellFormed_positional (Or.inl rfl)
    rw [if_pos (by decide), hzero]
    refine positional_text hwell ?_
    rintro ds ⟨⟩
    exact Or.inl rfl
  · have hne : d.significand ≠ 0 := fun hzero => hd (by rw [hzero])
    have hlast : d.digits.getLast? ≠ some '0' := toDigits_last hd
    by_cases he : -4 ≤ d.exponent ∧ d.exponent < 16
    · have hparts : partsOf d = positionalParts d.digits d.exponent := if_pos (decide_eq_true he)
      rw [if_pos he, hparts]
      exact positional_text (wellFormed_positional (Or.inr hne))
        (positionalParts_trailing Nat.toDigits_ne_nil hlast _)
    · have hparts : partsOf d = exponentParts d.exponent d.digits :=
        if_neg (by simpa [numbers] using he)
      obtain ⟨c, cs, hdigits, hc⟩ := toDigits_head hne
      have hall : AllDigits (c :: cs) := hdigits ▸ allDigits_toDigits d.significand
      rw [Decimal.digits, hdigits] at hlast hparts
      rw [if_neg he, hparts]
      exact exponential_text hall hc hlast _

theorem shortest_trailing (tie : Tie) {bits : Nat} (h : bits < binary64.infinity) :
    Decimal.shortest tie bits = ⟨0, 0⟩ ∨ (Decimal.shortest tie bits).significand % 10 ≠ 0 := by
  by_cases h₀ : bits = 0
  · rw [h₀]
    exact Or.inl rfl
  · exact Or.inr (Decimal.shortest_mod_ten tie h₀ h)

/-- **A finite double is written in one form.**  Behind a minus sign, if its sign bit is set, stands
a text with a point among its digits if the double is zero or its exponent is from -4 to 15, and one
in exponent notation if not; never both.  So there is a point or an exponent mark in it, and as JSON
it is that double and no integer. -/
theorem numbers_canonical {x : Float} (hx : isFinite x = true) {e : Int}
    (he : (Decimal.shortest .upper (magnitude x)).exponent = e) :
    ∃ body, (numbers.write x).toList = (if negative x then ['-'] else []) ++ body ∧
      (IsPositional body ↔ magnitude x = 0 ∨ (-4 ≤ e ∧ e < 16)) ∧
      (IsExponential body ↔ ¬ (magnitude x = 0 ∨ (-4 ≤ e ∧ e < 16))) ∧
      ('.' ∈ (numbers.write x).toList ∨ 'e' ∈ (numbers.write x).toList) ∧
      parse? (numbers.write x) = some (.float x) := by
  have hlt : magnitude x < binary64.infinity := of_decide_eq_true hx
  have hform := partsOf_form (shortest_trailing .upper hlt)
  have hrange : (magnitude x = 0 ∨ (-4 ≤ e ∧ e < 16)) ↔ (-4 ≤ e ∧ e < 16) := by
    refine or_iff_right_of_imp fun hzero => ?_
    rw [← he, hzero]
    decide
  have htext : (numbers.write x).toList = (if negative x then ['-'] else []) ++
      (partsOf (Decimal.shortest .upper (magnitude x))).text := by
    rw [Layout.write, String.toList_ofList, chars_float hx]
  rw [he] at hform
  refine ⟨_, htext, ?_, ?_, ?_, parse?_render (v := .float x) hx⟩
  · rw [hrange]
    split_ifs at hform with hin
    · exact iff_of_true hform hin
    · exact iff_of_false (fun hpositional => hpositional.not_exponential hform) hin
  · rw [hrange]
    split_ifs at hform with hin
    · exact iff_of_false hform.not_exponential (not_not_intro hin)
    · exact iff_of_true hform hin
  · rw [htext]
    split_ifs at hform with hin
    · exact Or.inl (List.mem_append_right _ hform.point)
    · exact Or.inr (List.mem_append_right _ hform.mark)

/-- The power of ten from which on exponents are written. -/
theorem numbers_canonical_bound :
    IsExponential "1e+16".toList ∧
      parse? "1e+16" = some (.float (ofQuotient false (10 ^ 16) 1)) := by
  have htext : numbers.write (ofQuotient false (10 ^ 16) 1) = "1e+16" := by decide +kernel
  have hsign : negative (ofQuotient false (10 ^ 16) 1) = false := by decide +kernel
  have hmagnitude : magnitude (ofQuotient false (10 ^ 16) 1) ≠ 0 := by decide +kernel
  obtain ⟨body, hbody, -, hexponential, -, hparse⟩ :=
    numbers_canonical (x := ofQuotient false (10 ^ 16) 1) (by decide +kernel) (e := 16)
      (by decide +kernel)
  rw [hsign, htext, if_neg Bool.false_ne_true, List.nil_append] at hbody
  rw [hbody]
  exact ⟨hexponential.mpr (by omega), htext ▸ hparse⟩

/-- The next smaller double still has a point among its digits. -/
example : numbers.write (ofParts false (magnitude (ofQuotient false (10 ^ 16) 1) - 1)) =
    "9999999999999998.0" := by decide +kernel

end Json

end FilterReference
