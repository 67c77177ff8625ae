/-
# Values in TOML text

Numbers, strings and truth values are written on one line and read by one reader each (`Scalar`).
An array of them is written in one line, or with every element on a line of its own, and read back
as well (`written_array`).
-/
import FilterReference.Proofs.Toml.Numerals
import FilterReference.Proofs.Toml.Strings

namespace FilterReference.Toml

variable {text rest : List Char} {v : Toml}

/-- A character that is no white space and begins no comment. -/
def Visible (c : Char) : Prop := c ∉ [' ', '\t', '\n', '\r', '#']

instance : DecidablePred Visible := fun c => inferInstanceAs (Decidable (c ∉ _))

theorem Visible.isBlank {c : Char} (h : Visible c) : isBlank c = false := by
  refine Bool.eq_false_iff.mpr fun hblank => ?_
  rw [Toml.isBlank, Bool.or_eq_true, beq_iff_eq, beq_iff_eq] at hblank
  rcases hblank with rfl | rfl <;> exact absurd h (by decide)

theorem skipBlanks_visible {c : Char} (h : Visible c) (cs : List Char) :
    skipBlanks (c :: cs) = c :: cs := by
  rw [skipBlanks, h.isBlank, if_neg Bool.false_ne_true]

theorem skipSpace_visible {c : Char} (h : Visible c) (cs : List Char) :
    skipSpace (c :: cs) = some (c :: cs) := by
  have hne (d : Char) (hd : d ∈ [' ', '\t', '\n', '\r', '#']) : c ≠ d := fun heq => h (heq ▸ hd)
  rw [skipSpace, skipLines.eq_4 false c cs (hne '\n' (by decide))
    (fun _ heq => absurd heq (hne '\r' (by decide))), if_neg Bool.false_ne_true, h.isBlank,
    if_neg Bool.false_ne_true, if_neg (hne '#' (by decide))]

/-- The first characters of values without parts. -/
def StartsScalar (c : Char) : Prop := StartsNumber c ∨ c ∈ ['"', '\x27', 't', 'f']

instance : DecidablePred StartsScalar := fun c => inferInstanceAs (Decidable (_ ∨ c ∈ _))

theorem StartsScalar.ne {c d : Char} (hc : StartsScalar c) (hd : ¬ StartsScalar d) : c ≠ d := by
  rintro rfl
  exact hd hc

theorem StartsScalar.visible {c : Char} (h : StartsScalar c) : Visible c := by
  intro hmem
  simp only [List.mem_cons, List.not_mem_nil, or_false] at hmem
  rcases hmem with rfl | rfl | rfl | rfl | rfl <;> exact absurd h (by decide)

/-- A text on one line that is read as a value without parts. -/
structure Scalar (text : List Char) (v : Toml) : Prop where
  first : ∃ c cs, text = c :: cs ∧ StartsScalar c
  read {rest : List Char} (h : EndsValue rest) : simple? (text ++ rest) = some (v, rest)

theorem scalar_float (x : Float) : Scalar (numbers.chars x) (.float x) where
  first := by
    obtain ⟨c, cs, hchars, hc⟩ := chars_head x
    exact ⟨c, cs, hchars, Or.inl hc⟩
  read h := simple?_float x h

theorem scalar_count {n : Nat} (hn : n ≤ maxInteger) : Scalar (countChars n) (.integer n) where
  first := by
    obtain ⟨d, ds, hdigits, hd⟩ := (Json.wellFormed_countParts n).whole_cons
    exact ⟨d, ds, hdigits, Or.inl (Or.inl hd)⟩
  read h := simple?_count hn h

theorem scalar_bool (b : Bool) : Scalar (boolChars b) (.boolean b) where
  first := by
    cases b with
    | true => exact ⟨_, _, rfl, by decide⟩
    | false => exact ⟨_, _, rfl, by decide⟩
  read _ := by
    cases b with
    | true => rfl
    | false => rfl

theorem scalar_string (s : String) : Scalar (stringChars s.toList) (.string s) where
  first := by
    obtain ⟨q, text, hchars, hq⟩ := stringChars_head s.toList
    exact ⟨q, text, hchars, by rcases hq with rfl | rfl <;> decide⟩
  read {rest} h := by
    obtain ⟨q, text, hchars, hq⟩ := stringChars_head s.toList
    have hstring : string? (stringChars s.toList ++ rest) = some (s.toList, rest) :=
      string?_stringChars (by cases h <;> rintro c ⟨⟩ <;> decide) s.toList
    rw [hchars, List.cons_append] at hstring ⊢
    rw [simple?, if_pos hq, hstring, Option.map_some]
    simp only [String.ofList_toList]

/-- A text that is read as a value where a value is wanted. -/
structure WrittenValue (text : List Char) (v : Toml) : Prop where
  first : ∃ c cs, text = c :: cs ∧ Visible c
  read {fuel depth : Nat} {rest : List Char} (hfuel : text.length ≤ fuel) (hdepth : 0 < depth)
    (h : EndsValue rest) : value? (fuel + 1) depth (text ++ rest) = some (v, rest)

theorem Scalar.value?_append (h : Scalar text v) (fuel depth : Nat) (hrest : EndsValue rest) :
    value? (fuel + 1) depth (text ++ rest) = some (v, rest) := by
  obtain ⟨c, cs, rfl, hc⟩ := h.first
  rw [List.cons_append, value?.eq_9]
  · exact h.read hrest
  · exact fun _ heq => hc.ne (by decide) (List.cons.inj heq).1
  · exact fun _ heq => hc.ne (by decide) (List.cons.inj heq).1

theorem Scalar.written (h : Scalar text v) : WrittenValue text v where
  first := by
    obtain ⟨c, cs, htext, hc⟩ := h.first
    exact ⟨c, cs, htext, hc.visible⟩
  read _ _ hrest := h.value?_append _ _ hrest

/-! ## Arrays

An element on a line of its own has a comma behind it even if it is the last.  So the reader comes
to the closing bracket in two ways, and the elements are followed from the first on, as it takes
them. -/

theorem Scalar.skipSpace_append (h : Scalar text v) (rest : List Char) :
    skipSpace (text ++ rest) = some (text ++ rest) ∧ ∀ rest', text ++ rest ≠ ']' :: rest' := by
  obtain ⟨c, cs, rfl, hc⟩ := h.first
  exact ⟨skipSpace_visible hc.visible _, fun _ heq => hc.ne (by decide) (List.cons.inj heq).1⟩

theorem Scalar.skipSpace_elementLines (h : Scalar text v) (es : List (List Char))
    (rest : List Char) : skipSpace ('\n' :: (elementLines (text :: es) ++ ']' :: rest)) =
      some (text ++ ',' :: '\n' :: (elementLines es ++ ']' :: rest)) := by
  rw [← (h.skipSpace_append (',' :: '\n' :: (elementLines es ++ ']' :: rest))).1, elementLines]
  simp only [List.cons_append, List.append_assoc]
  rfl

theorem items?_last (h : Scalar text v) (fuel depth : Nat) (rest : List Char) :
    items? (fuel + 2) depth (text ++ ']' :: rest) = some ([v], rest) := by
  rw [items?.eq_2, h.value?_append fuel depth (.bracket rest)]
  rfl

theorem items?_elementLines {es : List (List Char)} {vs : List Toml} (h : Scalar text v)
    (hes : List.Forall₂ Scalar es vs) {fuel : Nat} (hfuel : es.length ≤ fuel) (depth : Nat)
    (rest : List Char) :
    items? (fuel + 2) depth (text ++ ',' :: '\n' :: (elementLines es ++ ']' :: rest)) =
      some (v :: vs, rest) := by
  induction hes generalizing text v fuel with
  | nil =>
      rw [items?.eq_2, h.value?_append fuel depth (.comma _)]
      rfl
  | @cons e w es ws he hes ih =>
      obtain ⟨fuel, rfl⟩ : ∃ n, fuel = n + 1 := ⟨fuel - 1, by simp at hfuel; omega⟩
      have hitems := ih he (by simpa using hfuel : es.length ≤ fuel)
      rw [items?.eq_2, h.value?_append (fuel + 1) depth (.comma _)]
      simp only [Option.bind_eq_bind, Option.bind_some, skipSpace_visible (by decide : Visible ','),
        he.skipSpace_elementLines es rest]
      split
      · rename_i heq
        exact absurd heq ((he.skipSpace_append _).2 _)
      · rw [hitems]
        rfl

theorem length_arrayChars (es : List (List Char)) : es.length + 1 ≤ (arrayChars es).length := by
  have hlines (es : List (List Char)) : es.length ≤ (elementLines es).length := by
    induction es with
    | nil => exact Nat.le_refl 0
    | cons e es ih =>
        rw [elementLines, List.length_cons]
        simp only [List.length_cons, List.length_append]
        omega
  unfold arrayChars
  split
  · exact Nat.le_succ 1
  · simp
  · have hle := hlines es
    simp only [List.length_cons, List.length_append]
    omega

/-- **An array that is written** is read back. -/
theorem written_array {es : List (List Char)} {vs : List Toml} (h : List.Forall₂ Scalar es vs) :
    WrittenValue (arrayChars es) (.array vs) where
  first := by
    unfold arrayChars
    split <;> exact ⟨_, _, rfl, by decide⟩
  read {fuel depth rest} hfuel hdepth hrest := by
    obtain ⟨depth, rfl⟩ : ∃ n, depth = n + 1 := ⟨depth - 1, by omega⟩
    have hlength := (length_arrayChars es).trans hfuel
    cases h with
    | nil => rfl
    | @cons e v es vs he hes =>
        cases hes with
        | nil =>
            obtain ⟨fuel, rfl⟩ : ∃ n, fuel = n + 2 := ⟨fuel - 2, by simp at hlength; omega⟩
            obtain ⟨hspace, hbracket⟩ := he.skipSpace_append (']' :: rest)
            simp only [arrayChars, List.cons_append, List.append_assoc, List.nil_append]
            rw [value?.eq_5 (fuel + 2) _ depth _ (fun _ => hbracket _) hspace, items?_last he]
            rfl
        | @cons e' v' es vs he' hes =>
            obtain ⟨fuel, rfl⟩ : ∃ n, fuel = n + 2 := ⟨fuel - 2, by simp at hlength; omega⟩
            have hspace := he.skipSpace_elementLines (e' :: es) rest
            have hbracket := (he.skipSpace_append
              (',' :: '\n' :: (elementLines (e' :: es) ++ ']' :: rest))).2
            have hitems := items?_elementLines he (.cons he' hes)
              (by simp at hlength ⊢; omega : (e' :: es).length ≤ fuel) depth rest
            simp only [arrayChars, List.cons_append, List.append_assoc, List.nil_append]
            rw [value?.eq_5 (fuel + 2) _ depth _ (fun _ => hbracket _) hspace, hitems]
            rfl

theorem written_floats (xs : List Float) :
    WrittenValue (floatsChars xs) (.array (xs.map .float)) := by
  refine written_array ?_
  rw [List.forall₂_map_left_iff, List.forall₂_map_right_iff, List.forall₂_same]
  exact fun x _ => scalar_float x

end FilterReference.Toml
