/-
# JSON text is read as it was written

A value has a tree, `Json.toDocument`, and the text of the value is read as that tree
(`parse_render`), at every level of indentation and for values of any shape and depth.  The parser
has more fuel than the text has characters, and a value takes at most one unit for each.
-/
import FilterReference.Proofs.Json.Numerals
import FilterReference.Proofs.Json.Strings

namespace FilterReference

open Binary

namespace Json

mutual

/-- The tree of the text of a value. -/
def toDocument : Json → Document
  | .null => .null
  | .bool b => .bool b
  | .integer n => .number (integerNumeral n)
  | .float x => .number (floatNumeral x)
  | .string s => .string (some s)
  | .array vs => .array (itemDocuments vs) true
  | .object ms => .object (memberDocuments ms) true

def itemDocuments : List Json → List Document
  | [] => []
  | v :: vs => toDocument v :: itemDocuments vs

def memberDocuments : List (String × Json) → List (Option String × Document)
  | [] => []
  | (key, v) :: ms => (some key, toDocument v) :: memberDocuments ms

end

mutual

/-- All doubles in a value are finite, so that they can be written. -/
def AllFinite : Json → Prop
  | .float x => isFinite x = true
  | .array vs => AllFiniteItems vs
  | .object ms => AllFiniteMembers ms
  | _ => True

def AllFiniteItems : List Json → Prop
  | [] => True
  | v :: vs => AllFinite v ∧ AllFiniteItems vs

def AllFiniteMembers : List (String × Json) → Prop
  | [] => True
  | (_, v) :: ms => AllFinite v ∧ AllFiniteMembers ms

end

theorem skipSpace_spaces (n : Nat) (cs : List Char) :
    skipSpace (List.replicate n ' ' ++ cs) = skipSpace cs := by
  induction n with
  | zero => rfl
  | succ n ih =>
      rw [List.replicate_succ, List.cons_append, skipSpace]
      exact ih

theorem skipSpace_newline (level : Nat) (cs : List Char) :
    skipSpace (newline level ++ cs) = skipSpace cs := by
  rw [newline, List.cons_append, skipSpace]
  exact skipSpace_spaces _ cs

theorem skipSpace_of_not {c : Char} (h : isSpace c = false) (cs : List Char) :
    skipSpace (c :: cs) = c :: cs := by
  rw [skipSpace, h]
  rfl

theorem value_space (fuel : Nat) {c : Char} (h : isSpace c = true) (cs : List Char) :
    value fuel (c :: cs) = value fuel cs := by
  cases fuel with
  | zero => rw [value, value]
  | succ fuel => rw [value, value, skipSpace, h, if_pos rfl]

/-! ## Scalars -/

theorem value_scalar {c : Char} (h : isSpace c = false) (hbracket : c ≠ '[') (hbrace : c ≠ '\x7b')
    (fuel : Nat) (cs : List Char) : value (fuel + 1) (c :: cs) = scalar c cs := by
  rw [value, skipSpace_of_not h]
  simp only [if_neg hbracket, if_neg hbrace]

theorem scalar_minus (cs : List Char) {n : Numeral} {rest : List Char}
    (h : numeral? true cs = some (n, rest)) : scalar '-' cs = (.number n, some rest) := by
  unfold scalar
  simp [h]

theorem digit_ne {c d : Char} (hc : c.isDigit = true) (hd : d.isDigit = false) : c ≠ d := by
  rintro rfl
  rw [hc] at hd
  cases hd

theorem scalar_digit {c : Char} (hc : c.isDigit = true) (cs : List Char) {n : Numeral}
    {rest : List Char} (h : numeral? false (c :: cs) = some (n, rest)) :
    scalar c cs = (.number n, some rest) := by
  unfold scalar
  simp only [if_neg (digit_ne hc (by decide : 'n'.isDigit = false)),
    if_neg (digit_ne hc (by decide : 't'.isDigit = false)),
    if_neg (digit_ne hc (by decide : 'f'.isDigit = false)),
    if_neg (digit_ne hc (by decide : '"'.isDigit = false)),
    if_neg (digit_ne hc (by decide : '-'.isDigit = false)), if_pos hc, h]

theorem digit_not_space {c : Char} (hc : c.isDigit = true) : isSpace c = false := by
  simp only [isSpace, Bool.or_eq_false_iff, beq_eq_false_iff_ne, ne_eq]
  exact ⟨⟨⟨digit_ne hc (by decide), digit_ne hc (by decide)⟩, digit_ne hc (by decide)⟩,
    digit_ne hc (by decide)⟩

theorem value_number {p : NumberParts} (hp : p.WellFormed) (negative : Bool) (fuel : Nat)
    {rest : List Char} (hr : EndsNumber rest) :
    value (fuel + 1) ((if negative then ['-'] else []) ++ p.text ++ rest) =
      (.number (p.numeral negative), some rest) := by
  have hnumeral := numeral?_text hp negative hr
  cases negative with
  | true =>
      rw [if_pos rfl, List.append_assoc, List.singleton_append,
        value_scalar (by decide) (by decide) (by decide)]
      exact scalar_minus _ hnumeral
  | false =>
      obtain ⟨c, cs, hwhole, hc⟩ := hp.whole_cons
      rw [if_neg Bool.false_ne_true, List.nil_append]
      rw [NumberParts.text, hwhole, List.cons_append, List.cons_append, List.cons_append] at hnumeral ⊢
      rw [value_scalar (digit_not_space hc) (digit_ne hc (by decide)) (digit_ne hc (by decide))]
      exact scalar_digit hc _ hnumeral

theorem value_string (s : String) (fuel : Nat) (rest : List Char) :
    value (fuel + 1) (quote s ++ rest) = (.string (some s), some rest) := by
  rw [quote, List.cons_append, List.append_assoc, List.singleton_append,
    value_scalar (by decide) (by decide) (by decide)]
  unfold scalar
  simp only [stringUnits?_quote, joinUnits?_string]
  rfl

/-! ## Containers

A number is the only value whose end is not seen from itself.  What follows a value in a text is a
comma, a line break or nothing, and none of these goes on with a number. -/

/-- The text of a value begins with a character that begins no line and closes no list. -/
theorem chars_cons (level : Nat) {v : Json} (hv : v.AllFinite) :
    ∃ c cs, chars level v = c :: cs ∧ isSpace c = false ∧ c ≠ ']' := by
  have hnumber : ∀ (negative : Bool) {p : NumberParts}, p.WellFormed →
      ∃ c cs, (if negative then ['-'] else []) ++ p.text = c :: cs ∧ isSpace c = false ∧ c ≠ ']' := by
    intro negative p hp
    cases negative with
    | true => exact ⟨'-', p.text, rfl, by decide, by decide⟩
    | false =>
        obtain ⟨c, cs, hwhole, hc⟩ := hp.whole_cons
        refine ⟨c, cs ++ fractionText p.fraction ++ exponentText p.exponent, ?_,
          digit_not_space hc, digit_ne hc (by decide)⟩
        rw [NumberParts.text, hwhole, List.cons_append, List.cons_append]
        rfl
  cases v with
  | null => exact ⟨'n', _, rfl, by decide, by decide⟩
  | bool b =>
      cases b with
      | true => exact ⟨'t', _, rfl, by decide, by decide⟩
      | false => exact ⟨'f', _, rfl, by decide, by decide⟩
  | integer n =>
      rw [chars, chars_integer]
      have := hnumber (decide (n < 0)) (wellFormed_countParts n.natAbs)
      simpa only [decide_eq_true_eq] using this
  | float x =>
      rw [chars, chars_float hv]
      exact hnumber _ (wellFormed_partsOf (written_shortest .upper (of_decide_eq_true hv)))
  | string s => exact ⟨'"', _, rfl, by decide, by decide⟩
  | array vs =>
      rw [chars]
      split_ifs
      · exact ⟨'[', _, rfl, by decide, by decide⟩
      · exact ⟨'[', _, rfl, by decide, by decide⟩
  | object ms =>
      rw [chars]
      split_ifs
      · exact ⟨'\x7b', _, rfl, by decide, by decide⟩
      · exact ⟨'\x7b', _, rfl, by decide, by decide⟩

theorem endsNumber_newline (level : Nat) (cs : List Char) : EndsNumber (newline level ++ cs) := by
  rintro c ⟨⟩
  decide

theorem endsNumber_itemChars (level : Nat) (vs : List Json) {rest : List Char}
    (hr : EndsNumber rest) : EndsNumber (itemChars level false vs ++ rest) := by
  cases vs with
  | nil => rwa [itemChars, List.nil_append]
  | cons v vs =>
      rw [itemChars]
      rintro c ⟨⟩
      decide

theorem endsNumber_memberChars (level : Nat) (ms : List (String × Json)) {rest : List Char}
    (hr : EndsNumber rest) : EndsNumber (memberChars level false ms ++ rest) := by
  rcases ms with _ | ⟨⟨key, v⟩, ms⟩
  · rwa [memberChars, List.nil_append]
  · rw [memberChars]
    rintro c ⟨⟩
    decide

/-! ## The round trip

A list is read as a value and the list behind it, so the induction is on the values, with fuel for
each character that is left.  The unfolding of the parser is kept to one lemma for each kind of
list; what the text looks like after a value then decides which branch is taken. -/

/-- The steps of `items` after a value: a comma and the next one, or the end. -/
theorem items_succ {fuel : Nat} {cs rest : List Char} {d : Document}
    (h : value fuel cs = (d, some rest)) :
    items (fuel + 1) cs =
      match skipSpace rest with
      | ']' :: rest => ([d], some rest)
      | ',' :: rest =>
        match skipSpace rest with
        | ']' :: _ => ([d], none)
        | rest =>
          let (ds, after) := items fuel rest
          (d :: ds, after)
      | _ => ([d], none) := by
  rewrite [items, h]
  rfl

theorem items_last {fuel : Nat} {cs rest : List Char} {d : Document} (level : Nat)
    (h : value fuel cs = (d, some (newline level ++ ']' :: rest))) :
    items (fuel + 1) cs = ([d], some rest) := by
  rw [items_succ h, skipSpace_newline, skipSpace_of_not (by decide)]
  rfl

theorem items_next {fuel level : Nat} {cs rest : List Char} {d : Document} {v : Json}
    (hv : v.AllFinite)
    (h : value fuel cs = (d, some (',' :: (newline level ++ (chars level v ++ rest))))) :
    items (fuel + 1) cs =
      (d :: (items fuel (chars level v ++ rest)).1, (items fuel (chars level v ++ rest)).2) := by
  obtain ⟨c, cs', hchars, hspace, hbracket⟩ := chars_cons level hv
  rw [items_succ h, skipSpace_of_not (by decide)]
  simp only [skipSpace_newline]
  rw [hchars, List.cons_append, skipSpace_of_not hspace]
  split
  · rename_i heq
    cases heq
    exact absurd rfl hbracket
  · rfl

theorem exists_fuel {level fuel : Nat} {v : Json} (hv : v.AllFinite)
    (h : (chars level v).length ≤ fuel) : ∃ n, fuel = n + 1 := by
  obtain ⟨c, cs, hchars, -⟩ := chars_cons level hv
  rw [hchars, List.length_cons] at h
  exact ⟨fuel - 1, by omega⟩

theorem value_array {fuel level : Nat} {v : Json} (hv : v.AllFinite) (rest : List Char) :
    value (fuel + 1) ('[' :: (newline level ++ (chars level v ++ rest))) =
      (.array (items fuel (chars level v ++ rest)).1 (items fuel (chars level v ++ rest)).2.isSome,
        (items fuel (chars level v ++ rest)).2) := by
  obtain ⟨c, cs, hchars, hspace, hbracket⟩ := chars_cons level hv
  rw [value, skipSpace_of_not (by decide)]
  simp only [if_true, skipSpace_newline]
  rw [hchars, List.cons_append, skipSpace_of_not hspace]
  split
  · rename_i heq
    cases heq
    exact absurd rfl hbracket
  · rfl

theorem skipSpace_quote (key : String) (cs : List Char) :
    skipSpace (quote key ++ cs) = quote key ++ cs := skipSpace_of_not (by decide) _

theorem value_object (fuel level : Nat) (key : String) (rest : List Char) :
    value (fuel + 1) ('\x7b' :: (newline level ++ (quote key ++ rest))) =
      (.object (members fuel (quote key ++ rest)).1 (members fuel (quote key ++ rest)).2.isSome,
        (members fuel (quote key ++ rest)).2) := by
  rw [value, skipSpace_of_not (by decide)]
  simp only [if_neg (by decide : ¬ '\x7b' = '['), if_true, skipSpace_newline, skipSpace_quote]
  rfl

theorem members_newline (fuel level : Nat) (cs : List Char) :
    members fuel (newline level ++ cs) = members fuel cs := by
  cases fuel with
  | zero => rw [members, members]
  | succ fuel => rw [members, members, skipSpace_newline]

theorem members_succ {fuel : Nat} {key : String} {cs rest : List Char} {d : Document}
    (h : value fuel cs = (d, some rest)) :
    members (fuel + 1) (quote key ++ ':' :: ' ' :: cs) =
      match skipSpace rest with
      | '\x7d' :: rest => ([(some key, d)], some rest)
      | ',' :: rest =>
        let (ms, after) := members fuel rest
        ((some key, d) :: ms, after)
      | _ => ([(some key, d)], none) := by
  have hunits : stringUnits? ((quote key).tail ++ ':' :: ' ' :: cs) =
      some (key.toList.map Char.toNat, ':' :: ' ' :: cs) := stringUnits?_tail_quote key _
  have hquote : quote key ++ ':' :: ' ' :: cs = '"' :: ((quote key).tail ++ ':' :: ' ' :: cs) := rfl
  rw [hquote, members, skipSpace_of_not (by decide)]
  simp only [hunits, skipSpace_of_not (by decide : isSpace ':' = false),
    value_space fuel (by decide : isSpace ' ' = true), joinUnits?_string]
  rewrite [h]
  rfl

theorem members_last {fuel : Nat} {key : String} {cs rest : List Char} {d : Document} (level : Nat)
    (h : value fuel cs = (d, some (newline level ++ '\x7d' :: rest))) :
    members (fuel + 1) (quote key ++ ':' :: ' ' :: cs) = ([(some key, d)], some rest) := by
  rw [members_succ h, skipSpace_newline, skipSpace_of_not (by decide)]
  rfl

theorem members_next {fuel level : Nat} {key : String} {cs rest : List Char} {d : Document}
    (h : value fuel cs = (d, some (',' :: (newline level ++ rest)))) :
    members (fuel + 1) (quote key ++ ':' :: ' ' :: cs) =
      ((some key, d) :: (members fuel rest).1, (members fuel rest).2) := by
  rw [members_succ h, skipSpace_of_not (by decide)]
  simp only [members_newline]

mutual

/-- **A value that is written is read as its tree.** -/
theorem value_chars : ∀ (v : Json) (level fuel : Nat) (rest : List Char), v.AllFinite →
    EndsNumber rest → (chars level v).length ≤ fuel →
    value fuel (chars level v ++ rest) = (toDocument v, some rest)
  | .null, level, fuel, rest, hv, _, hf => by
      obtain ⟨n, rfl⟩ := exists_fuel hv hf
      exact value_scalar (by decide) (by decide) (by decide) n _
  | .bool b, level, fuel, rest, hv, _, hf => by
      obtain ⟨n, rfl⟩ := exists_fuel hv hf
      cases b with
      | true => exact value_scalar (by decide) (by decide) (by decide) n _
      | false => exact value_scalar (by decide) (by decide) (by decide) n _
  | .integer i, level, fuel, rest, hv, hr, hf => by
      obtain ⟨n, rfl⟩ := exists_fuel hv hf
      have hvalue := value_number (wellFormed_countParts i.natAbs) (decide (i < 0)) n hr
      simp only [decide_eq_true_eq] at hvalue
      rw [chars, chars_integer, hvalue]
      rfl
  | .float x, level, fuel, rest, hx, hr, hf => by
      obtain ⟨n, rfl⟩ := exists_fuel hx hf
      have hparts := wellFormed_partsOf (written_shortest .upper (of_decide_eq_true hx))
      rw [chars, chars_float hx]
      exact value_number hparts (negative x) n hr
  | .string s, level, fuel, rest, hv, _, hf => by
      obtain ⟨n, rfl⟩ := exists_fuel hv hf
      exact value_string s n rest
  | .array [], level, fuel, rest, hv, _, hf => by
      obtain ⟨n, rfl⟩ := exists_fuel hv hf
      rw [chars, List.isEmpty_nil, if_pos rfl]
      rfl
  | .array (v :: vs), level, fuel, rest, hv, _, hf => by
      obtain ⟨n, rfl⟩ := exists_fuel hv hf
      have hchars : chars level (.array (v :: vs)) ++ rest =
          '[' :: (newline (level + 1) ++ (chars (level + 1) v ++
            (itemChars (level + 1) false vs ++ (newline level ++ ']' :: rest)))) := by
        simp [chars, itemChars, separator]
      -- The bracket and the line break leave more fuel than the items have characters.
      have hlength := congrArg List.length hchars
      simp only [List.length_append, List.length_cons] at hlength
      have hitems := items_chars v vs (level + 1) level n rest hv (by omega)
      rw [hchars, value_array hv.1, hitems, toDocument]
      rfl
  | .object [], level, fuel, rest, hv, _, hf => by
      obtain ⟨n, rfl⟩ := exists_fuel hv hf
      rw [chars, List.isEmpty_nil, if_pos rfl]
      rfl
  | .object ((key, v) :: ms), level, fuel, rest, hv, _, hf => by
      obtain ⟨n, rfl⟩ := exists_fuel hv hf
      have hchars : chars level (.object ((key, v) :: ms)) ++ rest =
          '\x7b' :: (newline (level + 1) ++ (quote key ++ ':' :: ' ' :: (chars (level + 1) v ++
            (memberChars (level + 1) false ms ++ (newline level ++ '\x7d' :: rest))))) := by
        simp [chars, memberChars, separator]
      have hlength := congrArg List.length hchars
      simp only [List.length_append, List.length_cons] at hlength
      have hmembers := members_chars key v ms (level + 1) level n rest hv (by omega)
      rw [hchars, value_object, hmembers]
      rfl
termination_by v => sizeOf v

theorem items_chars : ∀ (v : Json) (vs : List Json) (level level' fuel : Nat) (rest : List Char),
    AllFiniteItems (v :: vs) → (chars level v).length + (itemChars level false vs).length < fuel →
    items fuel (chars level v ++ (itemChars level false vs ++ (newline level' ++ ']' :: rest))) =
      (itemDocuments (v :: vs), some rest)
  | v, [], level, level', fuel, rest, hv, hf => by
      obtain ⟨n, rfl⟩ : ∃ n, fuel = n + 1 := ⟨fuel - 1, by omega⟩
      have hvalue := value_chars v level n (newline level' ++ ']' :: rest) hv.1
        (endsNumber_newline _ _) (by omega)
      rw [itemChars, List.nil_append, items_last level' hvalue, itemDocuments, itemDocuments]
  | v, w :: vs, level, level', fuel, rest, hv, hf => by
      obtain ⟨n, rfl⟩ : ∃ n, fuel = n + 1 := ⟨fuel - 1, by omega⟩
      have hchars : ∀ cs, itemChars level false (w :: vs) ++ cs =
          ',' :: (newline level ++ (chars level w ++ (itemChars level false vs ++ cs))) := by
        intro cs
        simp [itemChars, separator]
      have hlength := congrArg List.length (hchars [])
      simp only [List.length_append, List.length_cons, List.length_nil] at hlength
      have hvalue := value_chars v level n
        (itemChars level false (w :: vs) ++ (newline level' ++ ']' :: rest)) hv.1
        (endsNumber_itemChars level _ (endsNumber_newline _ _)) (by omega)
      rw [hchars] at hvalue
      have hitems := items_chars w vs level level' n rest hv.2 (by omega)
      rw [hchars, items_next hv.2.1 hvalue, hitems]
      rfl
termination_by v vs => sizeOf v + sizeOf vs

theorem members_chars : ∀ (key : String) (v : Json) (ms : List (String × Json))
    (level level' fuel : Nat) (rest : List Char), AllFiniteMembers ((key, v) :: ms) →
    (chars level v).length + (memberChars level false ms).length < fuel →
    members fuel (quote key ++ ':' :: ' ' :: (chars level v ++
        (memberChars level false ms ++ (newline level' ++ '\x7d' :: rest)))) =
      (memberDocuments ((key, v) :: ms), some rest)
  | key, v, [], level, level', fuel, rest, hv, hf => by
      obtain ⟨n, rfl⟩ : ∃ n, fuel = n + 1 := ⟨fuel - 1, by omega⟩
      have hvalue := value_chars v level n (newline level' ++ '\x7d' :: rest) hv.1
        (endsNumber_newline _ _) (by omega)
      rw [memberChars, List.nil_append, members_last level' hvalue]
      rfl
  | key, v, (key', w) :: ms, level, level', fuel, rest, hv, hf => by
      obtain ⟨n, rfl⟩ : ∃ n, fuel = n + 1 := ⟨fuel - 1, by omega⟩
      have hchars : ∀ cs, memberChars level false ((key', w) :: ms) ++ cs =
          ',' :: (newline level ++ (quote key' ++ ':' :: ' ' :: (chars level w ++
            (memberChars level false ms ++ cs)))) := by
        intro cs
        simp [memberChars, separator]
      have hlength := congrArg List.length (hchars [])
      simp only [List.length_append, List.length_cons, List.length_nil] at hlength
      have hvalue := value_chars v level n
        (memberChars level false ((key', w) :: ms) ++ (newline level' ++ '\x7d' :: rest)) hv.1
        (endsNumber_memberChars level _ (endsNumber_newline _ _)) (by omega)
      rw [hchars] at hvalue
      have hmembers := members_chars key' w ms level level' n rest hv.2 (by omega)
      rw [hchars, members_next hvalue, hmembers]
      rfl
termination_by _ v ms => sizeOf v + sizeOf ms

end

/-- **The text of a value is read as its tree**, and nothing follows it. -/
theorem parse_render {v : Json} (hv : v.AllFinite) :
    Document.parse v.render.toList = (v.toDocument, true) := by
  have hvalue := value_chars v 0 (2 * (chars 0 v).length + 2) [] hv
    (fun c hc => by cases hc) (by omega)
  rw [List.append_nil] at hvalue
  rw [Document.parse, render, String.toList_ofList, hvalue]
  rfl

end Json

end FilterReference
