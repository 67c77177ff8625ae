/-
# Lines and sections of TOML text

A text of lines, each with a bare key and a written value, is read as its assignments (`Lines`), and
a text of sections, each with a header on a line of its own and lines below it, as these sections
(`Sections`).  A whole text is lines before sections (`parse?_written`).
-/
import FilterReference.Proofs.Toml.Values

namespace FilterReference.Toml

variable {key : String} {value text rest : List Char} {v : Toml}

/-- A key that stands for itself without quotes. -/
structure IsBareKey (key : String) : Prop where
  nonempty : key.toList ≠ []
  bare : ∀ c ∈ key.toList, isBareChar c = true

theorem isBareKey_iff : IsBareKey key ↔ key.toList ≠ [] ∧ key.toList.all isBareChar = true := by
  rw [List.all_eq_true]
  exact ⟨fun h => ⟨h.nonempty, h.bare⟩, fun h => ⟨h.1, h.2⟩⟩

instance (key : String) : Decidable (IsBareKey key) := decidable_of_iff _ isBareKey_iff.symm

theorem isBareChar_ne {c d : Char} (hc : isBareChar c = true) (hd : isBareChar d = false) :
    c ≠ d := by
  rintro rfl
  cases hc.symm.trans hd

theorem visible_of_isBareChar {c : Char} (h : isBareChar c = true) : Visible c := by
  intro hmem
  simp only [List.mem_cons, List.not_mem_nil, or_false] at hmem
  rcases hmem with rfl | rfl | rfl | rfl | rfl <;> exact absurd h (by decide)

theorem IsBareKey.head (h : IsBareKey key) :
    ∃ c cs, key.toList = c :: cs ∧ isBareChar c = true := by
  obtain ⟨c, cs, hcons⟩ := List.exists_cons_of_ne_nil h.nonempty
  exact ⟨c, cs, hcons, h.bare c (by rw [hcons]; exact List.mem_cons_self)⟩

theorem spanBare_append {ks : List Char} (hks : ∀ c ∈ ks, isBareChar c = true) {c : Char}
    (hc : isBareChar c = false) (rest : List Char) :
    spanBare (ks ++ c :: rest) = (ks, c :: rest) := by
  induction ks with
  | nil => rw [List.nil_append, spanBare, hc, if_neg Bool.false_ne_true]
  | cons k ks ih =>
      obtain ⟨hk, hks⟩ := List.forall_mem_cons.mp hks
      rw [List.cons_append, spanBare, if_pos hk, ih hks]

theorem keyPart?_bare (h : IsBareKey key) {c : Char} (hc : isBareChar c = false)
    (rest : List Char) :
    keyPart? (skipBlanks (key.toList ++ c :: rest)) = some (key, c :: rest) := by
  have hspan := spanBare_append h.bare hc rest
  obtain ⟨k, ks, hkey, hk⟩ := h.head
  have hofList : String.ofList (k :: ks) = key := by rw [← hkey, String.ofList_toList]
  rw [hkey, List.cons_append] at hspan ⊢
  rw [skipBlanks_visible (visible_of_isBareChar hk), keyPart?.eq_3, hspan]
  · simp only [hofList]
  · exact fun _ heq => isBareChar_ne hk (by decide) (List.cons.inj heq).1
  · exact fun _ heq => isBareChar_ne hk (by decide) (List.cons.inj heq).1

theorem key?_bare (h : IsBareKey key) {c : Char} (hc : isBareChar c = false)
    (hdot : ∀ rest', skipBlanks (c :: rest) ≠ '.' :: rest') (parts : Nat) :
    key? (parts + 1) (key.toList ++ c :: rest) = some (([], key), skipBlanks (c :: rest)) := by
  rw [key?.eq_2, keyPart?_bare h hc]
  simp only [Option.bind_eq_bind, Option.bind_some]
  rfl

theorem key?_dot (h : IsBareKey key) (parts : Nat) (rest : List Char) :
    key? (parts + 1) (key.toList ++ '.' :: rest) =
      (key? parts rest).map fun k => ((key :: k.1.1, k.1.2), k.2) := by
  rw [key?.eq_2, keyPart?_bare h (by decide)]
  simp only [Option.bind_eq_bind, Option.bind_some, skipBlanks_visible (by decide : Visible '.')]
  cases key? parts rest <;> rfl

/-! ## Lines

A text of lines is described together with its entries, one constructor for each line, since it is
read that way.  What follows the lines has to be the end of the text or a header. -/

/-- An assignment without a path. -/
def plain (entry : String × Toml) : Assignment := ⟨[], entry.1, entry.2⟩

/-- **A line** is read as its assignment. -/
theorem assignment?_line (hkey : IsBareKey key) (hvalue : WrittenValue value v)
    (rest : List Char) : assignment? (line key value ++ rest) = some (plain (key, v), rest) := by
  obtain ⟨c, cs, hcons, hc⟩ := hvalue.first
  have htext : line key value ++ rest =
      key.toList ++ ' ' :: ('=' :: ' ' :: (value ++ '\n' :: rest)) := by
    simp only [line, List.append_assoc, List.cons_append, List.nil_append]
  have hblanks : skipBlanks (' ' :: (value ++ '\n' :: rest)) = value ++ '\n' :: rest := by
    rw [hcons]
    exact skipBlanks_visible hc _
  have hread : value? (2 * (' ' :: (value ++ '\n' :: rest)).length + 2) maxDepth
      (value ++ '\n' :: rest) = some (v, '\n' :: rest) := by
    refine hvalue.read ?_ (by decide) (.lineEnd rest)
    simp only [List.length_cons, List.length_append]
    omega
  have hkeys : key? maxDepth (line key value ++ rest) =
      some (([], key), '=' :: ' ' :: (value ++ '\n' :: rest)) := by
    rw [htext]
    exact key?_bare hkey (by decide) (fun _ heq => by cases heq) 78
  rw [assignment?, hkeys]
  simp only [Option.bind_eq_bind, Option.bind_some, after?, if_true, hblanks, hread]
  rfl

/-- A text of lines with the entries they assign. -/
inductive Lines : List Char → List (String × Toml) → Prop
  | nil : Lines [] []
  | cons {key : String} {value text : List Char} {v : Toml} {entries : List (String × Toml)}
      (hkey : IsBareKey key) (hvalue : WrittenValue value v) (h : Lines text entries) :
      Lines (line key value ++ text) ((key, v) :: entries)

theorem Lines.single (hkey : IsBareKey key) (hvalue : WrittenValue value v) :
    Lines (line key value) [(key, v)] := by
  have h := Lines.cons hkey hvalue .nil
  rwa [List.append_nil] at h

theorem Lines.append {s t : List Char} {as bs : List (String × Toml)} (hs : Lines s as)
    (ht : Lines t bs) : Lines (s ++ t) (as ++ bs) := by
  induction hs with
  | nil => exact ht
  | cons hkey hvalue _ ih =>
      rw [List.append_assoc]
      exact .cons hkey hvalue ih

/-- The entry of a value that may be absent. -/
def optionalEntry {α : Type} (key : String) (value : α → Toml) : Option α → List (String × Toml)
  | some x => [(key, value x)]
  | none => []

theorem Lines.optional {α : Type} {write : α → List Char} {value : α → Toml} (hkey : IsBareKey key)
    {x : Option α} (hvalue : ∀ a ∈ x, WrittenValue (write a) (value a)) :
    Lines (optionalLine key write x) (optionalEntry key value x) := by
  cases x with
  | none => exact .nil
  | some a => exact .single hkey (hvalue a rfl)

theorem Lines.head {entries : List (String × Toml)} (h : Lines text entries) :
    ∀ c ∈ text.head?, isBareChar c = true := by
  cases h with
  | nil =>
      rintro c ⟨⟩
  | @cons key value text v entries hkey =>
      obtain ⟨k, ks, hcons, hk⟩ := hkey.head
      rw [line, hcons]
      rintro c ⟨⟩
      exact hk

theorem Lines.length_le {entries : List (String × Toml)} (h : Lines text entries) :
    entries.length ≤ text.length := by
  induction h with
  | nil => exact Nat.le_refl 0
  | cons _ _ _ ih =>
      simp only [line, List.length_cons, List.length_append]
      omega

/-- White space before the next header, or before the end of a text. -/
structure EndsLines (rest after : List Char) : Prop where
  space : skipSpace rest = some after
  header : after = [] ∨ ∃ tail, after = '[' :: tail

/-- **Lines** are read as their assignments, up to the next header. -/
theorem Lines.read {entries : List (String × Toml)} (h : Lines text entries) {after : List Char}
    (hrest : EndsLines rest after) {fuel : Nat} (hfuel : entries.length ≤ fuel) :
    assignments? (fuel + 1) (text ++ rest) = some (entries.map plain, after) := by
  induction h generalizing fuel with
  | nil =>
      rw [List.nil_append, assignments?.eq_2, hrest.space]
      rcases hrest.header with rfl | ⟨tail, rfl⟩ <;> rfl
  | @cons key value text v entries hkey hvalue _ ih =>
      obtain ⟨fuel, rfl⟩ : ∃ n, fuel = n + 1 := ⟨fuel - 1, by simp at hfuel; omega⟩
      have hread := assignment?_line hkey hvalue (text ++ rest)
      obtain ⟨k, ks, hcons, hk⟩ := hkey.head
      have htext : ∃ tail, line key value ++ (text ++ rest) = k :: tail := by
        rw [line, hcons]
        exact ⟨_, rfl⟩
      obtain ⟨tail, htail⟩ := htext
      rw [htail] at hread
      rw [List.append_assoc, assignments?.eq_2, htail,
        skipSpace_visible (visible_of_isBareChar hk)]
      simp only [Option.bind_eq_bind, Option.bind_some]
      split
      · rename_i heq
        cases heq
      · rename_i heq
        exact absurd (List.cons.inj heq).1 (isBareChar_ne hk (by decide))
      · rw [hread]
        simp only [Option.bind_some, ih (by simpa using hfuel)]
        rfl

/-! ## Headers -/

/-- A text on a line of its own that is read as a header. -/
structure WrittenHeader (text : List Char) (header : Header) : Prop where
  first : ∃ tail, text = '[' :: tail
  read (rest : List Char) : header? (text ++ rest) = some (header, rest)

/-- A text that is read as a key with a path, before a bracket. -/
structure WrittenKey (text : List Char) (path : List String) (key : String) : Prop where
  first : ∃ c cs, text = c :: cs ∧ isBareChar c = true
  read (rest : List Char) : key? maxDepth (text ++ ']' :: rest) = some ((path, key), ']' :: rest)

theorem IsBareKey.written (h : IsBareKey key) : WrittenKey key.toList [] key where
  first := h.head
  read _ := key?_bare h (by decide) (fun _ heq => by cases heq) 78

theorem IsBareKey.written_dot {above : String} (habove : IsBareKey above) (h : IsBareKey key) :
    WrittenKey (above.toList ++ '.' :: key.toList) [above] key where
  first := by
    obtain ⟨c, cs, hcons, hc⟩ := habove.head
    exact ⟨c, cs ++ '.' :: key.toList, by rw [hcons, List.cons_append], hc⟩
  read rest := by
    rw [List.append_assoc, List.cons_append, maxDepth, key?_dot habove,
      key?_bare h (by decide) (fun _ heq => by cases heq) 77]
    rfl

theorem writtenHeader_table {path : List String} (h : WrittenKey text path key) :
    WrittenHeader ('[' :: (text ++ [']', '\n'])) (.table path key) where
  first := ⟨_, rfl⟩
  read rest := by
    simp only [List.cons_append, List.append_assoc, List.nil_append]
    rw [header?.eq_2, h.read]
    · rfl
    · obtain ⟨c, cs, rfl, hc⟩ := h.first
      exact fun tail heq => isBareChar_ne hc (by decide) (List.cons.inj heq).1

theorem writtenHeader_element {path : List String} (h : WrittenKey text path key) :
    WrittenHeader ('[' :: '[' :: (text ++ [']', ']', '\n'])) (.element path key) where
  first := ⟨_, rfl⟩
  read rest := by
    simp only [List.cons_append, List.append_assoc, List.nil_append]
    rw [header?.eq_1, h.read]
    rfl

/-! ## Sections -/

/-- A text of sections, each behind an empty line or none. -/
inductive Sections : List Char → List Section → Prop
  | nil : Sections [] []
  | cons {gap top text rest : List Char} {header : Header} {entries : List (String × Toml)}
      {sections : List Section} (hgap : gap = [] ∨ gap = ['\n']) (htop : WrittenHeader top header)
      (hlines : Lines text entries) (h : Sections rest sections) :
      Sections (gap ++ (top ++ (text ++ rest))) (⟨header, entries.map plain⟩ :: sections)

theorem Sections.length_le {sections : List Section} (h : Sections text sections) :
    sections.length ≤ text.length := by
  induction h with
  | nil => exact Nat.le_refl 0
  | cons _ htop _ _ ih =>
      obtain ⟨tail, rfl⟩ := htop.first
      simp only [List.length_cons, List.length_append]
      omega

theorem Sections.head {sections : List Section} (h : Sections text sections) :
    ∀ c ∈ text.head?, c = '\n' ∨ c = '[' := by
  cases h with
  | nil => rintro c ⟨⟩
  | cons hgap htop _ _ =>
      obtain ⟨tail, rfl⟩ := htop.first
      rcases hgap with rfl | rfl
      · rintro c ⟨⟩
        exact Or.inr rfl
      · rintro c ⟨⟩
        exact Or.inl rfl

/-- **Sections** are read, from the first header on. -/
theorem Sections.read {sections : List Section} (h : Sections text sections) :
    ∃ after, EndsLines text after ∧ sections.length ≤ after.length ∧
      ∀ fuel, sections.length ≤ fuel → sections? (fuel + 1) after = some sections := by
  induction h with
  | nil => exact ⟨[], ⟨rfl, Or.inl rfl⟩, Nat.le_refl 0, fun _ _ => rfl⟩
  | @cons gap top text rest header entries sections hgap htop hlines h ih =>
      obtain ⟨after, hends, -, hread⟩ := ih
      have hlength := h.length_le
      obtain ⟨tail, htail⟩ := htop.first
      have hopen : ∃ tail', top ++ (text ++ rest) = '[' :: tail' :=
        ⟨tail ++ (text ++ rest), by rw [htail, List.cons_append]⟩
      refine ⟨top ++ (text ++ rest), ⟨?_, Or.inr hopen⟩, ?_, ?_⟩
      · rw [htail]
        rcases hgap with rfl | rfl
        · exact skipSpace_visible (by decide : Visible '[') _
        · exact skipSpace_visible (by decide : Visible '[') _
      · rw [htail]
        simp only [List.length_cons, List.length_append]
        omega
      · intro fuel hfuel
        obtain ⟨fuel, rfl⟩ : ∃ n, fuel = n + 1 := ⟨fuel - 1, by simp at hfuel; omega⟩
        have hassignments : assignments? ((text ++ rest).length + 1) (text ++ rest) =
            some (entries.map plain, after) := by
          have hentries := hlines.length_le
          exact hlines.read hends (by rw [List.length_append]; omega)
        rw [sections?.eq_3 _ _ (by rw [htail]; exact List.cons_ne_nil _ _), htop.read]
        simp only [Option.bind_eq_bind, Option.bind_some, hassignments,
          hread fuel (by simpa using hfuel)]
        rfl

theorem parse?_written {text rest : List Char} {entries : List (String × Toml)}
    {sections : List Section} (hlines : Lines text entries) (hsections : Sections rest sections) :
    parse? (String.ofList (text ++ rest)) =
      assemble (⟨.root, entries.map plain⟩ :: sections) := by
  obtain ⟨after, hends, hlength, hread⟩ := hsections.read
  have hmark : skipMark (text ++ rest) = text ++ rest := by
    refine skipMark.eq_2 _ fun tail heq => ?_
    have hhead : (text ++ rest).head? = some '\ufeff' := congrArg List.head? heq
    cases text with
    | nil =>
        rcases hsections.head _ hhead with hfirst | hfirst
        · exact absurd hfirst (by decide)
        · exact absurd hfirst (by decide)
    | cons c text =>
        exact isBareChar_ne (hlines.head _ hhead) (by decide) rfl
  have hassignments : assignments? ((text ++ rest).length + 1) (text ++ rest) =
      some (entries.map plain, after) := by
    have hentries := hlines.length_le
    exact hlines.read hends (by rw [List.length_append]; omega)
  rw [parse?, String.toList_ofList, hmark]
  simp only [Option.bind_eq_bind, Option.bind_some, hassignments, hread _ hlength]

end FilterReference.Toml
