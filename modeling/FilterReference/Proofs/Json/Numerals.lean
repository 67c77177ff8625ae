/-
# Numbers in JSON text

A number is written as digits, perhaps a point and digits, perhaps an exponent.  `NumberParts` are
these three, and a well-formed text of them is taken apart into the same three again
(`numeral?_text`).  The notation of doubles has four layouts; each of them is a text of parts with
the number of the decimal it shows (`writeDecimal_eq_text`, `value_partsOf`), and so a double that
is written is read back (`toFloat_floatNumeral`).
-/
import FilterReference.Json.Document
import FilterReference.Json.Value
import FilterReference.Proofs.Binary.Double
import FilterReference.Proofs.Decimal.Literal

namespace FilterReference

open Binary

/-- A finite double is written as a decimal behind its sign, whatever the notation. -/
theorem Layout.chars_of_isFinite (l : Layout) {x : Float} (hx : isFinite x = true) :
    l.chars x = (if negative x then ['-'] else []) ++
      l.writeDecimal (Decimal.shortest l.tie (magnitude x)) := by
  have hlt : magnitude x < binary64.infinity := of_decide_eq_true hx
  have hnan : isNaN x = false := decide_eq_false (by omega)
  rw [chars, hnan]
  simp only [Bool.false_eq_true, if_false, if_neg (Nat.ne_of_lt hlt)]
  split <;> rfl

namespace Json

/-- A number in parts, without its sign. -/
structure NumberParts where
  whole : List Char
  fraction : Option (List Char)
  exponent : Option Int

def fractionText : Option (List Char) → List Char
  | none => []
  | some ds => '.' :: ds

def exponentText : Option Int → List Char
  | none => []
  | some e => signedExponent twoDigits e

namespace NumberParts

def text (p : NumberParts) : List Char := p.whole ++ fractionText p.fraction ++ exponentText p.exponent

/-- What the text of the parts is taken for. -/
def numeral (p : NumberParts) (negative : Bool) : Numeral :=
  ⟨⟨negative, p.whole, p.fraction.getD [], p.exponent.getD 0⟩,
    p.fraction.isNone && p.exponent.isNone⟩

/-- Digits where they have to be, and no needless zero before others. -/
structure WellFormed (p : NumberParts) : Prop where
  whole : AllDigits p.whole
  nonempty : p.whole ≠ []
  leading : p.whole = ['0'] ∨ p.whole.head? ≠ some '0'
  fraction : ∀ ds ∈ p.fraction, AllDigits ds ∧ ds ≠ []

theorem WellFormed.whole_cons {p : NumberParts} (hp : p.WellFormed) :
    ∃ c cs, p.whole = c :: cs ∧ c.isDigit = true := by
  obtain ⟨c, cs, hwhole⟩ := List.exists_cons_of_ne_nil hp.nonempty
  exact ⟨c, cs, hwhole, hp.whole c (by rw [hwhole]; exact List.mem_cons_self)⟩

end NumberParts

/-- A text that no number goes on with. -/
def EndsNumber (rest : List Char) : Prop :=
  ∀ c ∈ rest.head?, c.isDigit = false ∧ c ≠ '.' ∧ c ≠ 'e' ∧ c ≠ 'E'

/-! ## Taking a number apart -/

theorem wholePart?_append {ds rest : List Char} (hd : AllDigits ds) (hne : ds ≠ [])
    (hlead : ds = ['0'] ∨ ds.head? ≠ some '0') (hr : NoDigitFirst rest) :
    wholePart? (ds ++ rest) = some (ds, rest) := by
  rw [wholePart?, spanDigits_append hd hr]
  rcases hlead with rfl | hlead
  · rfl
  · cases ds with
    | nil => exact absurd rfl hne
    | cons d ds =>
        split
        · rename_i h
          cases h
        · rename_i h
          cases h
          exact absurd rfl hlead
        · rename_i h
          cases h
          rfl

theorem fractionPart?_append {fraction : Option (List Char)} {rest : List Char}
    (hf : ∀ ds ∈ fraction, AllDigits ds ∧ ds ≠ []) (hr : NoDigitFirst rest)
    (hpoint : ∀ c ∈ rest.head?, c ≠ '.') :
    fractionPart? (fractionText fraction ++ rest) = some (fraction, rest) := by
  cases fraction with
  | none =>
      rw [fractionText, List.nil_append]
      unfold fractionPart?
      split
      · exact absurd rfl (hpoint '.' rfl)
      · rfl
  | some ds =>
      obtain ⟨hd, hne⟩ := hf ds rfl
      rw [fractionText, List.cons_append, fractionPart?, spanDigits_append hd hr]
      cases ds with
      | nil => exact absurd rfl hne
      | cons d ds => rfl

theorem twoDigits_spec (n : Nat) :
    AllDigits (twoDigits n) ∧ twoDigits n ≠ [] ∧ digitsValue 0 (twoDigits n) = n := by
  unfold twoDigits
  split_ifs
  · refine ⟨allDigits_append (allDigits_replicate 1) (allDigits_toDigits n), List.cons_ne_nil _ _, ?_⟩
    have hzero : 0 * 10 + ('0'.toNat - 48) = 0 := rfl
    rw [digitsValue_cons, hzero, digitsValue_toDigits]
  · exact ⟨allDigits_toDigits n, Nat.toDigits_ne_nil, digitsValue_toDigits n⟩

theorem exponentPart?_append {exponent : Option Int} {rest : List Char} (hr : NoDigitFirst rest)
    (hmark : ∀ c ∈ rest.head?, c ≠ 'e' ∧ c ≠ 'E') :
    exponentPart? (exponentText exponent ++ rest) = some (exponent, rest) := by
  cases exponent with
  | none =>
      cases rest with
      | nil => rfl
      | cons c rest =>
          obtain ⟨he, hE⟩ := hmark c rfl
          rw [exponentText, List.nil_append, exponentPart?, if_neg (by simp [he, hE])]
  | some e =>
      obtain ⟨hall, hne, hvalue⟩ := twoDigits_spec e.natAbs
      obtain ⟨d, ds, hds⟩ := List.exists_cons_of_ne_nil hne
      rw [hds] at hall hvalue
      rw [exponentText, signedExponent, hds, List.cons_append, List.cons_append, exponentPart?,
        if_pos (Or.inl rfl)]
      by_cases hneg : e < 0
      · rw [if_pos hneg]
        simp only [takeSign, spanDigits_append hall hr, hvalue, if_true]
        congr 3
        omega
      · rw [if_neg hneg]
        simp only [takeSign, spanDigits_append hall hr, hvalue, Bool.false_eq_true, if_false]
        congr 3
        omega

/-- **A number is taken apart into its parts.** -/
theorem numeral?_text {p : NumberParts} (hp : p.WellFormed) (negative : Bool) {rest : List Char}
    (hr : EndsNumber rest) : numeral? negative (p.text ++ rest) = some (p.numeral negative, rest) := by
  have hrest : NoDigitFirst rest := fun c hc => (hr c hc).1
  -- What follows the fraction, and what follows the digits before the point.
  have hmark : ∀ c ∈ (exponentText p.exponent ++ rest).head?, c.isDigit = false ∧ c ≠ '.' := by
    intro c hc
    cases hexp : p.exponent with
    | none =>
        rw [hexp] at hc
        exact ⟨(hr c hc).1, (hr c hc).2.1⟩
    | some e =>
        rw [hexp] at hc
        cases hc
        exact ⟨rfl, by decide⟩
  have hpoint : NoDigitFirst (fractionText p.fraction ++ (exponentText p.exponent ++ rest)) := by
    intro c hc
    cases hfrac : p.fraction with
    | none =>
        rw [hfrac] at hc
        exact (hmark c hc).1
    | some ds =>
        rw [hfrac] at hc
        cases hc
        rfl
  rw [NumberParts.text, List.append_assoc, List.append_assoc, numeral?,
    wholePart?_append hp.whole hp.nonempty hp.leading hpoint]
  simp only [bind, Option.bind]
  rw [fractionPart?_append hp.fraction (fun c hc => (hmark c hc).1) (fun c hc => (hmark c hc).2)]
  simp only
  rw [exponentPart?_append hrest fun c hc => ⟨(hr c hc).2.2.1, (hr c hc).2.2.2⟩]
  rfl

/-! ## The notation of doubles

That the layouts are texts of parts, that these are well-formed, and that they have the number of
the decimal are three separate facts about the same case distinction: point among the digits, behind
them, before them, or none. -/

/-- The parts of a decimal in positional notation, its first digit standing for `10 ^ exponent`. -/
def positionalParts (digits : List Char) : Int → NumberParts
  | .ofNat e =>
    if e + 1 < digits.length then ⟨digits.take (e + 1), some (digits.drop (e + 1)), none⟩
    else ⟨digits ++ List.replicate (e + 1 - digits.length) '0', some ['0'], none⟩
  | .negSucc e => ⟨['0'], some (List.replicate e '0' ++ digits), none⟩

def exponentParts (exponent : Int) : List Char → NumberParts
  | [] => ⟨[], none, some exponent⟩
  | [d] => ⟨[d], none, some exponent⟩
  | d :: rest => ⟨[d], some rest, some exponent⟩

def partsOf (d : Decimal) : NumberParts :=
  if numbers.positional d.exponent then positionalParts d.digits d.exponent
  else exponentParts d.exponent d.digits

theorem positionalText_eq_text (digits : List Char) (e : Int) :
    Layout.positionalText true digits e = (positionalParts digits e).text := by
  cases e with
  | ofNat e =>
      change Layout.fromOne true digits (e + 1) = _
      rw [Layout.fromOne, positionalParts]
      by_cases h : e + 1 < digits.length
      · rw [if_pos h, if_pos h]
        simp only [NumberParts.text, fractionText, exponentText, List.append_nil]
      · rw [if_neg h, if_neg h]
        simp only [NumberParts.text, fractionText, exponentText, List.append_nil, if_true]
  | negSucc e =>
      change Layout.belowOne digits e = _
      simp only [Layout.belowOne, positionalParts, NumberParts.text, fractionText, exponentText,
        List.append_nil, List.cons_append, List.nil_append]

theorem positionalParts_shape (digits : List Char) (e : Int) :
    ∃ whole fraction, positionalParts digits e = ⟨whole, some fraction, none⟩ := by
  cases e with
  | ofNat e =>
      rw [positionalParts]
      split_ifs
      · exact ⟨_, _, rfl⟩
      · exact ⟨_, _, rfl⟩
  | negSucc e => exact ⟨_, _, rfl⟩

theorem writeDecimal_eq_text (d : Decimal) : numbers.writeDecimal d = (partsOf d).text := by
  unfold Layout.writeDecimal partsOf
  split_ifs
  · exact positionalText_eq_text d.digits d.exponent
  · change Layout.exponentText (signedExponent twoDigits d.exponent) d.digits = _
    rcases d.digits with _ | ⟨c, _ | ⟨c', cs⟩⟩
    · rfl
    · rfl
    · simp only [Layout.exponentText, exponentParts, NumberParts.text, fractionText, exponentText,
        List.cons_append, List.nil_append]

section Digits

variable {c : Char} {cs : List Char}

theorem wellFormed_positionalParts (hall : AllDigits (c :: cs)) (hc : c ≠ '0') (e : Int) :
    (positionalParts (c :: cs) e).WellFormed := by
  have hhead : some c ≠ some '0' := fun h => hc (Option.some.inj h)
  cases e with
  | ofNat e =>
      rw [positionalParts]
      split_ifs with h
      · refine ⟨fun x hx => hall x (List.mem_of_mem_take hx), by simp, Or.inr hhead, ?_⟩
        rintro ds ⟨⟩
        refine ⟨fun x hx => hall x (List.mem_of_mem_drop hx), fun hnil => ?_⟩
        have := List.drop_eq_nil_iff.mp hnil
        omega
      · refine ⟨allDigits_append hall (allDigits_replicate _), by simp, Or.inr hhead, ?_⟩
        rintro ds ⟨⟩
        exact ⟨allDigits_replicate 1, List.cons_ne_nil _ _⟩
  | negSucc e =>
      refine ⟨allDigits_replicate 1, List.cons_ne_nil _ _, Or.inl rfl, ?_⟩
      rintro ds ⟨⟩
      exact ⟨allDigits_append (allDigits_replicate e) hall, by simp⟩

theorem exponentParts_cons (e : Int) :
    exponentParts e (c :: cs) = ⟨[c], if cs = [] then none else some cs, some e⟩ := by
  cases cs with
  | nil => rfl
  | cons c' cs =>
      rw [if_neg (List.cons_ne_nil c' cs)]
      rfl

theorem mem_fraction_exponentParts {e : Int} {ds : List Char} :
    ds ∈ (exponentParts e (c :: cs)).fraction ↔ cs ≠ [] ∧ ds = cs := by
  rw [exponentParts_cons]
  by_cases h : cs = []
  · simp [h]
  · simp [h, eq_comm]

theorem allDigits_exponentParts (hall : AllDigits (c :: cs)) (e : Int) :
    AllDigits (exponentParts e (c :: cs)).whole ∧
      ∀ ds ∈ (exponentParts e (c :: cs)).fraction, AllDigits ds ∧ ds ≠ [] := by
  obtain ⟨hc, hcs⟩ := List.forall_mem_cons.mp hall
  constructor
  · rw [exponentParts_cons]
    exact List.forall_mem_singleton.mpr hc
  · intro ds hds
    obtain ⟨hne, rfl⟩ := mem_fraction_exponentParts.mp hds
    exact ⟨hcs, hne⟩

theorem wellFormed_exponentParts (hall : AllDigits (c :: cs)) (hc : c ≠ '0') (e : Int) :
    (exponentParts e (c :: cs)).WellFormed := by
  obtain ⟨hwhole, hfraction⟩ := allDigits_exponentParts hall e
  refine ⟨hwhole, ?_, Or.inr ?_, hfraction⟩
  · rw [exponentParts_cons]
    exact List.cons_ne_nil _ _
  · rw [exponentParts_cons]
    exact fun h => hc (Option.some.inj h)

end Digits

def NumberParts.value (p : NumberParts) : ℚ := (p.numeral false).literal.decimal.value

theorem value_positionalParts (digits : List Char) (e : Int) :
    (positionalParts digits e).value =
      digitsValue 0 digits * 10 ^ (e + 1 - digits.length) := by
  cases e with
  | ofNat e =>
      rw [positionalParts]
      split_ifs with h
      · change ((digitsValue 0 (digits.take (e + 1) ++ digits.drop (e + 1)) : Nat) : ℚ) *
          10 ^ ((0 : Int) - (digits.drop (e + 1)).length) = _
        rw [List.take_append_drop, List.length_drop]
        rw [Nat.cast_sub h.le, Int.ofNat_eq_natCast]
        congr 2
        push_cast
        ring
      · obtain ⟨k, hk⟩ : ∃ k, e + 1 = digits.length + k := ⟨e + 1 - digits.length, by omega⟩
        change ((digitsValue 0 ((digits ++ List.replicate (e + 1 - digits.length) '0') ++
          List.replicate 1 '0') : Nat) : ℚ) * 10 ^ ((0 : Int) - 1) = _
        rw [List.append_assoc, List.replicate_append_replicate, digitsValue_append,
          digitsValue_zeros, show e + 1 - digits.length = k by omega,
          show (Int.ofNat e + 1 - (digits.length : Int)) = k by
            have : ((e + 1 : Nat) : Int) = ((digits.length + k : Nat) : Int) := by rw [hk]
            push_cast at this
            simp only [Int.ofNat_eq_natCast]
            omega, zpow_natCast]
        push_cast
        rw [pow_succ, zpow_neg_one]
        ring
  | negSucc e =>
      change ((digitsValue 0 (List.replicate 1 '0' ++ (List.replicate e '0' ++ digits)) : Nat) : ℚ) *
        10 ^ ((0 : Int) - (List.replicate e '0' ++ digits).length) = _
      rw [← List.append_assoc, List.replicate_append_replicate, digitsValue_append,
        digitsValue_zeros, Nat.zero_mul, List.length_append, List.length_replicate,
        Int.negSucc_eq]
      congr 2
      push_cast
      ring

theorem value_exponentParts (c : Char) (cs : List Char) (e : Int) :
    (exponentParts e (c :: cs)).value = digitsValue 0 (c :: cs) * 10 ^ (e + 1 - (c :: cs).length) := by
  cases cs with
  | nil =>
      change ((digitsValue 0 ([c] ++ []) : Nat) : ℚ) * 10 ^ (e - ((0 : Nat) : Int)) = _
      simp
  | cons c' cs =>
      change ((digitsValue 0 ([c] ++ c' :: cs) : Nat) : ℚ) * 10 ^ (e - ((c' :: cs).length : Int)) = _
      rw [List.singleton_append, List.length_cons]
      congr 2
      push_cast [List.length_cons]
      ring

/-- A decimal whose digits are written: it is zero itself, or does not begin with a zero. -/
def Written (d : Decimal) : Prop := d = ⟨0, 0⟩ ∨ d.significand ≠ 0

theorem wellFormed_positional {d : Decimal} (hd : Written d) :
    (positionalParts d.digits d.exponent).WellFormed := by
  rcases hd with rfl | hd
  · have hzero : positionalParts (Decimal.digits ⟨0, 0⟩) (Decimal.exponent ⟨0, 0⟩) =
        ⟨['0'], some ['0'], none⟩ := rfl
    rw [hzero]
    refine ⟨allDigits_replicate 1, List.cons_ne_nil _ _, Or.inl rfl, ?_⟩
    rintro ds ⟨⟩
    exact ⟨allDigits_replicate 1, List.cons_ne_nil _ _⟩
  · obtain ⟨c, cs, hdigits, hc⟩ := toDigits_head hd
    have hall : AllDigits (c :: cs) := hdigits ▸ allDigits_toDigits d.significand
    rw [Decimal.digits, hdigits]
    exact wellFormed_positionalParts hall hc _

theorem wellFormed_partsOf {d : Decimal} (hd : Written d) : (partsOf d).WellFormed := by
  unfold partsOf
  split_ifs with hpositional
  · exact wellFormed_positional hd
  · rcases hd with rfl | hd
    · exact absurd rfl hpositional
    · obtain ⟨c, cs, hdigits, hc⟩ := toDigits_head hd
      have hall : AllDigits (c :: cs) := hdigits ▸ allDigits_toDigits d.significand
      rw [Decimal.digits, hdigits]
      exact wellFormed_exponentParts hall hc _

theorem value_digits (d : Decimal) :
    digitsValue 0 d.digits * (10 : ℚ) ^ (d.exponent + 1 - d.digits.length) = d.value := by
  rw [Decimal.digits, digitsValue_toDigits, Decimal.value, Decimal.exponent, Decimal.digits]
  congr 2
  ring

theorem value_positional (d : Decimal) : (positionalParts d.digits d.exponent).value = d.value := by
  rw [← value_digits]
  exact value_positionalParts _ _

theorem value_exponential (d : Decimal) : (exponentParts d.exponent d.digits).value = d.value := by
  rw [← value_digits]
  obtain ⟨c, cs, hdigits⟩ := List.exists_cons_of_ne_nil
    (Nat.toDigits_ne_nil : Nat.toDigits 10 d.significand ≠ [])
  rw [Decimal.digits, hdigits]
  exact value_exponentParts c cs _

theorem value_partsOf (d : Decimal) : (partsOf d).value = d.value := by
  rw [partsOf]
  split_ifs
  · exact value_positional d
  · exact value_exponential d

/-! ## Doubles and integers -/

/-- What the text of a double is taken for. -/
def floatNumeral (x : Float) : Numeral :=
  (partsOf (Decimal.shortest .upper (magnitude x))).numeral (negative x)

theorem written_shortest (tie : Tie) {bits : Nat} (h : bits < binary64.infinity) :
    Written (Decimal.shortest tie bits) := by
  by_cases h₀ : bits = 0
  · rw [h₀]
    exact Or.inl rfl
  · exact Or.inr (Decimal.significand_ne_zero (by rwa [Decimal.shortest_nearest tie h]))

theorem chars_float {x : Float} (hx : isFinite x = true) :
    numbers.chars x = (if negative x then ['-'] else []) ++
      (partsOf (Decimal.shortest .upper (magnitude x))).text := by
  rw [Layout.chars_of_isFinite numbers hx, writeDecimal_eq_text]
  rfl

/-- A number is read as the double whose shortest decimal it is. -/
theorem toFloat_of_value {p : NumberParts} (hp : p.WellFormed) {x : Float} (hx : isFinite x = true)
    (tie : Tie) (hvalue : p.value = (Decimal.shortest tie (magnitude x)).value) :
    (p.numeral (negative x)).literal.toFloat = x := by
  have hlt : magnitude x < binary64.infinity := of_decide_eq_true hx
  have hnan : isNaN x = false := decide_eq_false (by omega)
  have hdigits : AllDigits (p.whole ++ p.fraction.getD []) := by
    refine allDigits_append hp.whole ?_
    cases hfraction : p.fraction with
    | none => exact fun c hc => absurd hc List.not_mem_nil
    | some ds => exact (hp.fraction ds hfraction).1
  have hdecimal : (p.numeral (negative x)).literal.decimal.value =
      (Decimal.shortest tie (magnitude x)).value := hvalue
  rw [Literal.toFloat, Literal.magnitude_eq _ hdigits, Decimal.nearest_congr hdecimal,
    Decimal.shortest_nearest tie hlt]
  exact ofParts_magnitude hnan

/-- **A double that is written is read back**, sign and all. -/
theorem toFloat_floatNumeral {x : Float} (hx : isFinite x = true) :
    (floatNumeral x).literal.toFloat = x :=
  toFloat_of_value (wellFormed_partsOf (written_shortest .upper (of_decide_eq_true hx))) hx .upper
    (value_partsOf _)

def countParts (n : Nat) : NumberParts := ⟨Nat.toDigits 10 n, none, none⟩

theorem wellFormed_countParts (n : Nat) : (countParts n).WellFormed := by
  refine ⟨allDigits_toDigits n, Nat.toDigits_ne_nil, ?_, fun ds hds => by cases hds⟩
  rcases Nat.eq_zero_or_pos n with rfl | hpos
  · exact Or.inl rfl
  · obtain ⟨d, ds, hdigits, hd⟩ := toDigits_head (Nat.ne_of_gt hpos)
    right
    change (Nat.toDigits 10 n).head? ≠ some '0'
    rw [hdigits]
    exact fun h => hd (Option.some.inj h)

def integerNumeral (n : Int) : Numeral := (countParts n.natAbs).numeral (decide (n < 0))

theorem chars_integer (n : Int) :
    integerChars n = (if n < 0 then ['-'] else []) ++ (countParts n.natAbs).text := by
  cases n with
  | ofNat n =>
      rw [if_neg (by simp)]
      simp only [integerChars, NumberParts.text, countParts, fractionText, exponentText,
        List.append_nil, List.nil_append]
      rfl
  | negSucc n =>
      rw [if_pos (Int.negSucc_lt_zero n)]
      simp only [integerChars, NumberParts.text, countParts, fractionText, exponentText,
        List.append_nil, List.singleton_append]
      rfl

end Json

end FilterReference
