/-
# Numbers in TOML text

Doubles are written without an exponent and always with a point, infinities and the not-a-number as
words; counts are written as digits.  Each of them is taken for no date or time, and read back
(`simple?_float`, `simple?_count`).
-/
import FilterReference.Proofs.Binary.Order
import FilterReference.Proofs.Json.Numerals
import FilterReference.Toml.Grammar
import FilterReference.Toml.Printer

namespace FilterReference.Toml

open Binary

/-- A text that no value goes on with, as it stands behind a value on a line or in an array. -/
inductive EndsValue : List Char → Prop
  | lineEnd (rest : List Char) : EndsValue ('\n' :: rest)
  | comma (rest : List Char) : EndsValue (',' :: rest)
  | bracket (rest : List Char) : EndsValue (']' :: rest)

def EndsDigits (rest : List Char) : Prop := ∀ c ∈ rest.head?, c.isDigit = false ∧ c ≠ '_'

/-- Digits before a point, without a needless zero at the front. -/
structure IsWhole (ds : List Char) : Prop where
  digits : AllDigits ds
  nonempty : ds ≠ []
  leading : ds = ['0'] ∨ ds.head? ≠ some '0'

variable {ds whole fraction rest : List Char}

theorem EndsValue.endsDigits (h : EndsValue rest) : EndsDigits rest := by
  cases h <;> rintro c ⟨⟩ <;> decide

theorem endsDigits_point (rest : List Char) : EndsDigits ('.' :: rest) := by
  rintro c ⟨⟩
  decide

theorem moreDigits?_append (hd : AllDigits ds) (hr : EndsDigits rest) :
    moreDigits? Char.isDigit (ds ++ rest) = some (ds, rest) := by
  induction ds with
  | nil =>
      cases rest with
      | nil => rfl
      | cons c rest =>
          obtain ⟨hdigit, hscore⟩ := hr c rfl
          rw [List.nil_append, moreDigits?.eq_3 _ c rest fun _ _ h => absurd h hscore, hdigit,
            if_neg Bool.false_ne_true, if_neg hscore]
  | cons d ds ih =>
      have hdigit := hd d List.mem_cons_self
      have hscore : d ≠ '_' := by
        rintro rfl
        exact absurd hdigit (by decide)
      rw [List.cons_append, moreDigits?.eq_3 _ d _ fun _ _ h => absurd h hscore, if_pos hdigit,
        ih fun c hc => hd c (List.mem_cons_of_mem d hc)]
      rfl

theorem someDigits?_append (hd : AllDigits ds) (hne : ds ≠ []) (hr : EndsDigits rest) :
    someDigits? Char.isDigit (ds ++ rest) = some (ds, rest) := by
  cases ds with
  | nil => exact absurd rfl hne
  | cons d ds =>
      rw [List.cons_append, someDigits?, if_pos (hd d List.mem_cons_self),
        moreDigits?_append (fun c hc => hd c (List.mem_cons_of_mem d hc)) hr]
      rfl

theorem wholeDigits?_append (hw : IsWhole whole) (hr : EndsDigits rest) :
    wholeDigits? (whole ++ rest) = some (whole, rest) := by
  obtain ⟨hdigits, hne, rfl | hlead⟩ := hw
  · rfl
  · rw [wholeDigits?.eq_2 _ fun tail h => ?_]
    · exact someDigits?_append hdigits hne hr
    · obtain ⟨d, ds, rfl⟩ := List.exists_cons_of_ne_nil hne
      cases h
      exact hlead rfl

theorem decimal?_point (negative : Bool) (hw : IsWhole whole) (hf : AllDigits fraction)
    (hfne : fraction ≠ []) (hr : EndsValue rest) :
    decimal? negative (whole ++ '.' :: (fraction ++ rest)) =
      let x := (Literal.mk negative whole fraction 0).toFloat
      if x == infinity then none else some (.float x, rest) := by
  have hfraction : fraction? ('.' :: (fraction ++ rest)) = some (some fraction, rest) := by
    rw [fraction?, someDigits?_append hf hfne hr.endsDigits]
    rfl
  have hexponent : exponent? rest = some (none, rest) := by
    cases hr <;> rfl
  rw [decimal?, wholeDigits?_append hw (endsDigits_point _)]
  simp only [Option.bind_eq_bind, Option.bind_some, hfraction, hexponent, Option.isNone_some,
    Bool.false_and, Bool.false_eq_true, if_false, Option.getD_some, Option.getD_none]
  rfl

theorem decimal?_whole (negative : Bool) (hw : IsWhole whole) (hr : EndsValue rest) :
    decimal? negative (whole ++ rest) =
      let n : Int := digitsValue 0 whole
      (integer? (if negative then -n else n)).map (·, rest) := by
  have hfraction : fraction? rest = some (none, rest) := by
    cases hr <;> rfl
  have hexponent : exponent? rest = some (none, rest) := by
    cases hr <;> rfl
  rw [decimal?, wholeDigits?_append hw hr.endsDigits]
  simp only [Option.bind_eq_bind, Option.bind_some, hfraction, hexponent, Option.isNone_none,
    Bool.and_self, if_true, Option.map_eq_bind]
  rfl

/-! ## Numbers

A value that begins with digits could be a date, a time, or a number in another base.  Which it is
depends on the character behind the digits, and behind those of a written number there is a point or
the end of the value. -/

/-- What follows the digits before the point: the point, or what ends the number. -/
def FollowsWhole (after : List Char) : Prop := ∃ c ∈ ['.', '\n', ',', ']'], after.head? = some c

theorem EndsValue.followsWhole (h : EndsValue rest) : FollowsWhole rest := by
  cases h <;> exact ⟨_, by decide, rfl⟩

theorem baseOf?_eq_none {c : Char} (h : c.isDigit = true ∨ c ∈ ['.', '\n', ',', ']']) :
    baseOf? c = none := by
  have hmark : c ≠ 'x' ∧ c ≠ 'o' ∧ c ≠ 'b' := by
    refine ⟨?_, ?_, ?_⟩ <;> rintro rfl <;> exact absurd h (by decide)
  rw [baseOf?, if_neg hmark.1, if_neg hmark.2.1, if_neg hmark.2.2]

theorem number?_digits (negative : Bool) {d : Char} {cs : List Char} (hd : d.isDigit = true)
    (hbase : ∀ c ∈ cs.head?, baseOf? c = none) :
    number? ((if negative then ['-'] else []) ++ d :: cs) = decimal? negative (d :: cs) := by
  have hsign : takeSign ((if negative then ['-'] else []) ++ d :: cs) = (negative, d :: cs) := by
    cases negative with
    | true => rfl
    | false =>
        rw [if_neg Bool.false_ne_true, List.nil_append, takeSign.eq_3]
        · rintro tail ⟨⟩
          exact absurd hd (by decide)
        · rintro tail ⟨⟩
          exact absurd hd (by decide)
  rw [number?, hsign]
  simp only
  split
  · rename_i heq
    cases heq
    exact absurd hd (by decide)
  · rename_i heq
    cases heq
    exact absurd hd (by decide)
  · rename_i c digits heq
    cases heq
    rw [hbase c rfl, ite_self]
  · rfl

/-- No date or time begins with these digits and what follows them. -/
theorem dateTime?_eq_none {cs after : List Char} (hspan : spanDigits cs = (ds, after))
    (h : ds = [] ∨ ∀ c ∈ after.head?, c ≠ '-' ∧ c ≠ ':') : dateTime? cs = none := by
  rw [dateTime?, hspan]
  split
  · rename_i heq
    cases heq
    rcases h with rfl | h
    · rfl
    · exact absurd rfl (h '-' rfl).1
  · rename_i heq
    cases heq
    rcases h with rfl | h
    · rfl
    · exact absurd rfl (h ':' rfl).2
  · rfl

def StartsNumber (c : Char) : Prop := c.isDigit = true ∨ c = '-' ∨ c = 'n' ∨ c = 'i'

instance : DecidablePred StartsNumber := fun _ => inferInstanceAs (Decidable (_ ∨ _))

theorem simple?_number {c : Char} {cs : List Char} (hc : StartsNumber c)
    (hdate : dateTime? (c :: cs) = none) : simple? (c :: cs) = number? (c :: cs) := by
  rw [simple?, if_neg, if_neg, hdate]
  · rintro (rfl | rfl) <;> exact absurd hc (by decide)
  · rintro (rfl | rfl) <;> exact absurd hc (by decide)

theorem simple?_word {c : Char} {cs : List Char} (hc : StartsNumber c) (hd : c.isDigit = false) :
    simple? (c :: cs) = number? (c :: cs) := by
  have hspan : spanDigits (c :: cs) = ([], c :: cs) := by
    rw [spanDigits, hd, if_neg Bool.false_ne_true]
  exact simple?_number hc (dateTime?_eq_none hspan (Or.inl rfl))

/-- **Digits behind an optional sign** are a decimal number. -/
theorem simple?_digits (negative : Bool) (hw : IsWhole whole) (hafter : FollowsWhole rest) :
    simple? ((if negative then ['-'] else []) ++ (whole ++ rest)) =
      decimal? negative (whole ++ rest) := by
  obtain ⟨c, hc, hhead⟩ := hafter
  have hmark : c.isDigit = false ∧ c ≠ '-' ∧ c ≠ ':' := by
    simp only [List.mem_cons, List.not_mem_nil, or_false] at hc
    obtain rfl | rfl | rfl | rfl := hc <;> decide
  have hspan : spanDigits (whole ++ rest) = (whole, rest) := by
    refine spanDigits_append hw.digits fun e he => ?_
    cases hhead.symm.trans he
    exact hmark.1
  have hdate : dateTime? (whole ++ rest) = none := by
    refine dateTime?_eq_none hspan (Or.inr fun e he => ?_)
    cases hhead.symm.trans he
    exact hmark.2
  obtain ⟨d, ds, rfl⟩ := List.exists_cons_of_ne_nil hw.nonempty
  have hd := hw.digits d List.mem_cons_self
  have hbase : ∀ e ∈ (ds ++ rest).head?, baseOf? e = none := by
    intro e he
    cases ds with
    | nil =>
        cases hhead.symm.trans he
        exact baseOf?_eq_none (Or.inr hc)
    | cons d' ds =>
        cases he
        exact baseOf?_eq_none (Or.inl (hw.digits _ (List.mem_cons_of_mem _ List.mem_cons_self)))
  rw [List.cons_append] at hdate ⊢
  rw [← number?_digits negative hd hbase]
  cases negative with
  | true => exact simple?_word (by decide) (by decide)
  | false => exact simple?_number (Or.inl hd) hdate

/-! ## What is written -/

theorem isWhole_countChars (n : Nat) : IsWhole (countChars n) :=
  have h := Json.wellFormed_countParts n
  ⟨h.whole, h.nonempty, h.leading⟩

/-- **A count that is written** is read back, if it fits into a signed word. -/
theorem simple?_count {n : Nat} (hn : n ≤ maxInteger) (hr : EndsValue rest) :
    simple? (countChars n ++ rest) = some (.integer n, rest) := by
  have hvalue : digitsValue 0 (countChars n) = n := digitsValue_toDigits n
  have hfits : integer? (n : Int) = some (.integer n) := by
    refine if_pos ?_
    have hmax : maxInteger = 2 ^ 63 - 1 := rfl
    omega
  have hdigits := simple?_digits false (isWhole_countChars n) hr.followsWhole
  rw [decimal?_whole false (isWhole_countChars n) hr, hvalue] at hdigits
  simp only [Bool.false_eq_true, if_false, hfits, Option.map_some, List.nil_append] at hdigits
  exact hdigits

theorem chars_finite {x : Float} (hx : isFinite x = true) :
    ∃ whole fraction, numbers.chars x =
        (if negative x then ['-'] else []) ++ (whole ++ '.' :: fraction) ∧
      IsWhole whole ∧ AllDigits fraction ∧ fraction ≠ [] ∧
      (Literal.mk (negative x) whole fraction 0).toFloat = x := by
  have hlt : magnitude x < binary64.infinity := of_decide_eq_true hx
  have hparts := Json.wellFormed_positional (Json.written_shortest .upper hlt)
  have hvalue := Json.toFloat_of_value hparts hx .upper (Json.value_positional _)
  have hchars : numbers.chars x = (if negative x then ['-'] else []) ++
      (Json.positionalParts (Decimal.shortest .upper (magnitude x)).digits
        (Decimal.shortest .upper (magnitude x)).exponent).text := by
    rw [← Json.positionalText_eq_text]
    exact Layout.chars_of_isFinite numbers hx
  obtain ⟨whole, fraction, hshape⟩ := Json.positionalParts_shape
    (Decimal.shortest .upper (magnitude x)).digits (Decimal.shortest .upper (magnitude x)).exponent
  rw [hshape] at hparts hvalue hchars
  obtain ⟨hfraction, hfne⟩ := hparts.fraction fraction rfl
  refine ⟨whole, fraction, ?_, ⟨hparts.whole, hparts.nonempty, hparts.leading⟩, hfraction, hfne,
    hvalue⟩
  rw [hchars]
  simp only [Json.NumberParts.text, Json.fractionText, Json.exponentText, List.append_nil]

theorem beq_infinity_of_isFinite {x : Float} (hx : isFinite x = true) : (x == infinity) = false := by
  have hlt : magnitude x < binary64.infinity := of_decide_eq_true hx
  refine Bool.eq_false_iff.mpr fun heq => ?_
  obtain ⟨-, -, hrank⟩ := beq_iff_rank_eq.mp heq
  rw [rank_infinity, rank] at hrank
  split at hrank <;> omega

theorem simple?_finite {x : Float} (hx : isFinite x = true) (hr : EndsValue rest) :
    simple? (numbers.chars x ++ rest) = some (.float x, rest) := by
  obtain ⟨whole, fraction, hchars, hwhole, hfraction, hfne, hvalue⟩ := chars_finite hx
  have hdecimal : decimal? (negative x) (whole ++ '.' :: (fraction ++ rest)) =
      some (.float x, rest) := by
    rw [decimal?_point (negative x) hwhole hfraction hfne hr]
    simp only [hvalue, beq_infinity_of_isFinite hx, Bool.false_eq_true, if_false]
  have hpoint : FollowsWhole ('.' :: (fraction ++ rest)) := ⟨'.', by decide, rfl⟩
  rw [← hdecimal, ← simple?_digits (negative x) hwhole hpoint, hchars]
  simp only [List.append_assoc, List.cons_append]

theorem chars_notANumber : numbers.chars notANumber = ['n', 'a', 'n'] := by decide +kernel

theorem chars_infinity (negative : Bool) : numbers.chars (ofParts negative binary64.infinity) =
    (if negative then ['-'] else []) ++ ['i', 'n', 'f'] := by
  cases negative <;> decide +kernel

/-- **A double that is written** is read back. -/
theorem simple?_float (x : Float) (hr : EndsValue rest) :
    simple? (numbers.chars x ++ rest) = some (.float x, rest) := by
  rcases notANumber_or_infinite_or_finite x with rfl | ⟨negative, rfl⟩ | hx
  · rw [chars_notANumber]
    exact simple?_word (by decide) (by decide)
  · rw [chars_infinity]
    cases negative with
    | true => exact simple?_word (by decide) (by decide)
    | false => exact simple?_word (by decide) (by decide)
  · exact simple?_finite hx hr

theorem chars_head (x : Float) : ∃ c cs, numbers.chars x = c :: cs ∧ StartsNumber c := by
  rcases notANumber_or_infinite_or_finite x with rfl | ⟨negative, rfl⟩ | hx
  · exact ⟨_, _, chars_notANumber, by decide⟩
  · rw [chars_infinity]
    cases negative with
    | true => exact ⟨_, _, rfl, by decide⟩
    | false => exact ⟨_, _, rfl, by decide⟩
  · obtain ⟨whole, fraction, hchars, hwhole, -⟩ := chars_finite hx
    obtain ⟨d, ds, rfl⟩ := List.exists_cons_of_ne_nil hwhole.nonempty
    rw [hchars]
    cases negative x with
    | true => exact ⟨_, _, rfl, by decide⟩
    | false => exact ⟨_, _, rfl, Or.inl (hwhole.digits d List.mem_cons_self)⟩

end FilterReference.Toml
