/-
# Written doubles are read back

Text signals and command-line values are read by one syntax of numbers, and doubles are written in
several notations.  A notation is `Legible` if what it makes of a finite double is a text of parts
with the number of the double's shortest decimal: then the text is read as that double, sign and all
(`Layout.Legible.readFloat?_chars`).  The notation of JSON text is legible, and so is that of
messages, whose words for what is not finite are read back as well (`readFloat?_plain`).

Whatever is written, it is of `IsNumberChar` characters only: none of them separates fields or
lines.
-/
import FilterReference.Proofs.Binary.Order
import FilterReference.Proofs.Json.Numerals

namespace FilterReference

open Binary Json

/-! ## Taking a number apart

A number is read from left to right, and every part of it ends where a character comes that it
cannot have.  So the lemmas say what is read of a part with any rest that begins rightly. -/

theorem takeSign_digit {c : Char} (hc : c.isDigit = true) (cs : List Char) :
    takeSign (c :: cs) = (false, c :: cs) := by
  unfold takeSign
  split
  · rename_i h
    cases h
    cases hc
  · rename_i h
    cases h
    cases hc
  · rfl

theorem readExponent?_digits {cs ds : List Char} {negative : Bool}
    (hsign : takeSign cs = (negative, ds)) (hall : AllDigits ds) (hne : ds ≠ []) :
    readExponent? cs =
      some (if negative then -(digitsValue 0 ds : Int) else (digitsValue 0 ds : Int)) := by
  have hnone : NoDigitFirst [] := fun c hc => by cases hc
  have hspan := spanDigits_append hall hnone
  rw [List.append_nil] at hspan
  obtain ⟨d, ds, rfl⟩ := List.exists_cons_of_ne_nil hne
  simp only [readExponent?, hsign, hspan]

theorem readExponent?_signed (e : Int) :
    readExponent? ((if e < 0 then '-' else '+') :: twoDigits e.natAbs) = some e := by
  obtain ⟨hall, hne, hvalue⟩ := twoDigits_spec e.natAbs
  have hsign : takeSign ((if e < 0 then '-' else '+') :: twoDigits e.natAbs) =
      (decide (e < 0), twoDigits e.natAbs) := by
    by_cases hneg : e < 0
    · rw [if_pos hneg, decide_eq_true hneg]
      rfl
    · rw [if_neg hneg, decide_eq_false hneg]
      rfl
  rw [readExponent?_digits hsign hall hne, hvalue]
  simp only [decide_eq_true_eq, Option.some.injEq]
  omega

theorem readExponent?_integerChars (e : Int) : readExponent? (integerChars e) = some e := by
  cases e with
  | ofNat n =>
      obtain ⟨d, ds, hdigits⟩ := List.exists_cons_of_ne_nil
        (Nat.toDigits_ne_nil : Nat.toDigits 10 n ≠ [])
      have hd : d.isDigit = true := allDigits_toDigits n d (by rw [hdigits]; exact List.mem_cons_self)
      have hsign : takeSign (integerChars (.ofNat n)) = (false, Nat.toDigits 10 n) := by
        rw [integerChars, hdigits]
        exact takeSign_digit hd ds
      rw [readExponent?_digits hsign (allDigits_toDigits n) Nat.toDigits_ne_nil,
        digitsValue_toDigits]
      rfl
  | negSucc n =>
      have hsign : takeSign (integerChars (.negSucc n)) = (true, Nat.toDigits 10 (n + 1)) := rfl
      rw [readExponent?_digits hsign (allDigits_toDigits (n + 1)) Nat.toDigits_ne_nil,
        digitsValue_toDigits]
      rfl

/-- What may follow the digits of a number: nothing, or the mark of an exponent. -/
inductive Exponential : List Char → Int → Prop
  | plain : Exponential [] 0
  | marked {cs : List Char} {e : Int} : readExponent? cs = some e → Exponential ('e' :: cs) e

theorem exponential_exponentText (e : Option Int) : Exponential (exponentText e) (e.getD 0) := by
  cases e with
  | none => exact .plain
  | some e => exact .marked (readExponent?_signed e)

theorem Exponential.head {rest : List Char} {e : Int} (h : Exponential rest e) :
    ∀ c ∈ rest.head?, c = 'e' := by
  intro c hc
  cases h with
  | plain => cases hc
  | marked _ =>
      cases hc
      rfl

theorem Exponential.noDigitFirst {rest : List Char} {e : Int} (h : Exponential rest e) :
    NoDigitFirst rest := by
  intro c hc
  rw [h.head c hc]
  rfl

theorem spanFraction_append {fraction : Option (List Char)}
    (hf : ∀ ds ∈ fraction, AllDigits ds ∧ ds ≠ []) {rest : List Char} {e : Int}
    (hr : Exponential rest e) :
    spanFraction (fractionText fraction ++ rest) = (fraction.getD [], rest) := by
  cases fraction with
  | none => cases hr <;> rfl
  | some ds => exact spanDigits_append (hf ds rfl).1 hr.noDigitFirst

theorem readUnsigned?_append {whole : List Char} {fraction : Option (List Char)}
    (hwhole : AllDigits whole) (hne : whole ≠ []) (hf : ∀ ds ∈ fraction, AllDigits ds ∧ ds ≠ [])
    {rest : List Char} {e : Int} (hr : Exponential rest e) (negative : Bool) :
    readUnsigned? negative (whole ++ (fractionText fraction ++ rest)) =
      some ⟨negative, whole, fraction.getD [], e⟩ := by
  have hfirst : NoDigitFirst (fractionText fraction ++ rest) := by
    intro c hc
    cases fraction with
    | none => exact hr.noDigitFirst c hc
    | some ds =>
        cases hc
        rfl
  have hempty : whole.isEmpty = false := List.isEmpty_eq_false_iff.mpr hne
  rw [readUnsigned?, spanDigits_append hwhole hfirst]
  simp only [spanFraction_append hf hr, hempty, Bool.false_and, Bool.false_eq_true, if_false]
  cases hr with
  | plain => rfl
  | marked hexponent => simp only [hexponent, Option.map_some]

theorem readUnsigned?_text {p : NumberParts} (hp : p.WellFormed) (negative : Bool) :
    readUnsigned? negative p.text = some (p.numeral negative).literal := by
  rw [NumberParts.text, List.append_assoc, readUnsigned?_append hp.whole hp.nonempty hp.fraction
    (exponential_exponentText p.exponent)]
  rfl

def literal? (cs : List Char) : Option Literal :=
  readUnsigned? (takeSign cs).1 (takeSign cs).2

theorem readFloat?_of_literal? {cs : List Char} {l : Literal} (h : literal? cs = some l) :
    readFloat? cs = some l.toFloat := by
  unfold literal? at h
  simp only [readFloat?, h]

theorem takeSign_append {c : Char} (hc : c.isDigit = true) (cs : List Char) (negative : Bool) :
    takeSign ((if negative then ['-'] else []) ++ c :: cs) = (negative, c :: cs) := by
  cases negative with
  | true => rfl
  | false => exact takeSign_digit hc cs

theorem literal?_text {p : NumberParts} (hp : p.WellFormed) (negative : Bool) :
    literal? ((if negative then ['-'] else []) ++ p.text) = some (p.numeral negative).literal := by
  obtain ⟨c, cs, hwhole, hc⟩ := hp.whole_cons
  have hsign : takeSign ((if negative then ['-'] else []) ++ p.text) = (negative, p.text) := by
    rw [NumberParts.text, hwhole]
    exact takeSign_append hc _ negative
  rw [literal?, hsign, readUnsigned?_text hp]

/-- **A number is read as the double of its parts**, with its sign. -/
theorem readFloat?_text {p : NumberParts} (hp : p.WellFormed) (negative : Bool) :
    readFloat? ((if negative then ['-'] else []) ++ p.text) =
      some (p.numeral negative).literal.toFloat :=
  readFloat?_of_literal? (literal?_text hp negative)

/-! ## Legible notations

It is not asked how the digits of a number are laid out.  What a text is read as depends on its
number alone, and the number of the shortest decimal is read as the double. -/

namespace Layout

/-- What is written of a finite double is a text of parts, with the number of the double's shortest
decimal. -/
def Legible (l : Layout) : Prop :=
  ∀ x, isFinite x = true → ∃ p : NumberParts, p.WellFormed ∧
    p.value = (Decimal.shortest l.tie (magnitude x)).value ∧
    l.chars x = (if negative x then ['-'] else []) ++ p.text

/-- **A finite double is read back** from a legible notation. -/
theorem Legible.readFloat?_chars {l : Layout} (hl : l.Legible) {x : Float}
    (hx : isFinite x = true) : readFloat? (l.chars x) = some x := by
  obtain ⟨p, hp, hvalue, hchars⟩ := hl x hx
  rw [hchars, readFloat?_text hp, toFloat_of_value hp hx l.tie hvalue]

theorem legible_numbers : Json.numbers.Legible := by
  intro x hx
  have hwritten := written_shortest .upper (of_decide_eq_true hx : magnitude x < binary64.infinity)
  exact ⟨_, wellFormed_partsOf hwritten, value_partsOf _, chars_float hx⟩

end Layout

/-! ## The notation of messages

Messages drop the point of a whole number, so this notation is that of JSON text without the last
zero where nothing else is behind the point. -/

/-- The parts of a decimal in positional notation, without a fraction where none is needed. -/
def plainParts (digits : List Char) (e : Int) : NumberParts :=
  if digits.length ≤ e + 1 then { positionalParts digits e with fraction := none }
  else positionalParts digits e

theorem positionalParts_of_le {digits : List Char} {e : Int} (h : digits.length ≤ e + 1) :
    positionalParts digits e = ⟨(positionalParts digits e).whole, some ['0'], none⟩ ∨
      digits = [] := by
  cases e with
  | ofNat e =>
      rw [Int.ofNat_eq_natCast] at h
      left
      rw [positionalParts, if_neg (by omega)]
  | negSucc e =>
      right
      rw [Int.negSucc_eq] at h
      exact List.eq_nil_of_length_eq_zero (by omega)

theorem positionalText_false_eq_text {digits : List Char} (hdigits : digits ≠ []) (e : Int) :
    Layout.positionalText false digits e = (plainParts digits e).text := by
  cases e with
  | ofNat e =>
      change Layout.fromOne false digits (e + 1) = _
      rw [Layout.fromOne, plainParts, positionalParts, Int.ofNat_eq_natCast]
      by_cases h : e + 1 < digits.length
      · rw [if_pos h, if_pos h, if_neg (by omega)]
        simp only [NumberParts.text, fractionText, exponentText, List.append_nil]
      · have hle : (digits.length : Int) ≤ (e : Int) + 1 := by omega
        rw [if_neg h, if_neg h, if_pos hle]
        simp only [NumberParts.text, fractionText, exponentText, List.append_nil,
          Bool.false_eq_true, if_false]
  | negSucc e =>
      change Layout.belowOne digits e = _
      have hlength := List.length_pos_of_ne_nil hdigits
      rw [plainParts, if_neg (by rw [Int.negSucc_eq]; omega)]
      simp only [Layout.belowOne, positionalParts, NumberParts.text, fractionText, exponentText,
        List.append_nil, List.cons_append, List.nil_append]

theorem wellFormed_plainParts {digits : List Char} {e : Int}
    (h : (positionalParts digits e).WellFormed) : (plainParts digits e).WellFormed := by
  unfold plainParts
  split_ifs
  · exact ⟨h.whole, h.nonempty, h.leading, fun ds hds => by cases hds⟩
  · exact h

theorem value_withoutFraction (whole : List Char) :
    (⟨whole, none, none⟩ : NumberParts).value = (⟨whole, some ['0'], none⟩ : NumberParts).value := by
  change ((digitsValue 0 (whole ++ []) : Nat) : ℚ) * 10 ^ ((0 : Int) - (0 : Nat)) =
    ((digitsValue 0 (whole ++ List.replicate 1 '0') : Nat) : ℚ) * 10 ^ ((0 : Int) - (1 : Nat))
  rw [List.append_nil, digitsValue_append, digitsValue_zeros]
  push_cast
  rw [zpow_neg_one]
  ring

theorem value_plainParts {digits : List Char} (hdigits : digits ≠ []) (e : Int) :
    (plainParts digits e).value = (positionalParts digits e).value := by
  unfold plainParts
  split_ifs with h
  · have hparts := (positionalParts_of_le h).resolve_right hdigits
    rw [hparts]
    exact value_withoutFraction _
  · rfl

namespace Layout

theorem legible_plain : plain.Legible := by
  intro x hx
  obtain ⟨d, hd⟩ : ∃ d, d = Decimal.shortest .upper (magnitude x) := ⟨_, rfl⟩
  have hwritten : Written d := hd ▸ written_shortest .upper (of_decide_eq_true hx)
  have hdigits : d.digits ≠ [] := Nat.toDigits_ne_nil
  refine ⟨plainParts d.digits d.exponent, wellFormed_plainParts (wellFormed_positional hwritten),
    ?_, ?_⟩
  · rw [value_plainParts hdigits, value_positional, hd]
    rfl
  · rw [chars_of_isFinite plain hx, ← positionalText_false_eq_text hdigits, hd]
    rfl

end Layout

/-- **Every double is read back** from the notation of messages. -/
theorem readFloat?_plain (x : Float) : readFloat? (Layout.plain.chars x) = some x := by
  rcases notANumber_or_infinite_or_finite x with rfl | ⟨negative, rfl⟩ | hx
  · decide +kernel
  · cases negative <;> decide +kernel
  · exact Layout.legible_plain.readFloat?_chars hx

/-! ## The characters of numbers

That no character of a number separates fields, ends a line or is white space is seen from bounds on
their codes, so it is enough to know which characters there are. -/

/-- The characters that numbers are written with: digits, signs, the point, the exponent mark, and
the letters of the words for what is no finite number. -/
def IsNumberChar (c : Char) : Prop :=
  c.isDigit = true ∨ c ∈ ['+', '-', '.', 'e', 'N', 'a', 'i', 'n', 'f']

instance : DecidablePred IsNumberChar := fun c =>
  inferInstanceAs (Decidable (c.isDigit = true ∨ c ∈ ['+', '-', '.', 'e', 'N', 'a', 'i', 'n', 'f']))

/-- Where these characters are: in the first block, above the blanks and the quote, but for the
comma. -/
theorem IsNumberChar.bounds {c : Char} (h : IsNumberChar c) :
    43 ≤ c.toNat ∧ c.toNat < 128 ∧ c.toNat ≠ 44 := by
  rcases h with h | h
  · obtain ⟨hlow, hhigh⟩ := digit_bounds h
    omega
  · have hall : ∀ c ∈ ['+', '-', '.', 'e', 'N', 'a', 'i', 'n', 'f'],
        43 ≤ c.toNat ∧ c.toNat < 128 ∧ c.toNat ≠ 44 := by simp
    exact hall c h

theorem isNumberChar_exponentText (e : Option Int) : ∀ c ∈ exponentText e, IsNumberChar c := by
  intro c hc
  cases e with
  | none => cases hc
  | some e =>
      simp only [exponentText, signedExponent, List.mem_cons] at hc
      rcases hc with rfl | rfl | hc
      · exact Or.inr (by decide)
      · split_ifs <;> exact Or.inr (by decide)
      · exact Or.inl ((twoDigits_spec e.natAbs).1 c hc)

theorem Json.NumberParts.WellFormed.isNumberChar_text {p : NumberParts} (hp : p.WellFormed) :
    ∀ c ∈ p.text, IsNumberChar c := by
  intro c hc
  rw [NumberParts.text, List.append_assoc, List.mem_append, List.mem_append] at hc
  rcases hc with hc | hc | hc
  · exact Or.inl (hp.whole c hc)
  · cases hfraction : p.fraction with
    | none =>
        rw [hfraction] at hc
        cases hc
    | some ds =>
        rw [hfraction] at hc
        rcases List.mem_cons.mp hc with rfl | hc
        · exact Or.inr (by decide)
        · exact Or.inl ((hp.fraction ds hfraction).1 c hc)
  · exact isNumberChar_exponentText _ c hc

theorem Layout.Legible.isNumberChar_chars {l : Layout} (hl : l.Legible) {x : Float}
    (hx : isFinite x = true) : ∀ c ∈ l.chars x, IsNumberChar c := by
  obtain ⟨p, hp, -, hchars⟩ := hl x hx
  intro c hc
  rw [hchars, List.mem_append] at hc
  rcases hc with hc | hc
  · split_ifs at hc with hnegative
    · rw [List.mem_singleton.mp hc]
      exact Or.inr (by decide)
    · cases hc
  · exact hp.isNumberChar_text c hc

theorem isNumberChar_plain (x : Float) : ∀ c ∈ Layout.plain.chars x, IsNumberChar c := by
  have hnan : Layout.plain.chars notANumber = ['N', 'a', 'N'] := by decide +kernel
  have hinfinity : Layout.plain.chars (ofParts false binary64.infinity) = ['i', 'n', 'f'] := by
    decide +kernel
  have hbelow : Layout.plain.chars (ofParts true binary64.infinity) = ['-', 'i', 'n', 'f'] := by
    decide +kernel
  rcases notANumber_or_infinite_or_finite x with rfl | ⟨negative, rfl⟩ | hx
  · rw [hnan]
    simp [IsNumberChar]
  · cases negative with
    | false =>
        rw [hinfinity]
        simp [IsNumberChar]
    | true =>
        rw [hbelow]
        simp [IsNumberChar]
  · exact Layout.legible_plain.isNumberChar_chars hx

end FilterReference
