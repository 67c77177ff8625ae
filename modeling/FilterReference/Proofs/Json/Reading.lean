/-
# What is read can be written and read again

A value that is read is `Readable`: its integers fit into 64 bits, its doubles are finite, its
members stand in the order of their keys without a key twice, and it is nested no deeper than the
reader goes (`readable_of_readValue`).  The tree of such a value is read as the value
(`readValue_toDocument`), which leads through its text back to it (`reformat_lossless`).
-/
import FilterReference.Json.Reading
import FilterReference.Proofs.Json.Document
import FilterReference.Proofs.Traversal

namespace FilterReference.Json

open Binary

/-- An integer of 64 bits, with a sign or without. -/
def IsWord (n : Int) : Prop := -2 ^ 63 ≤ n ∧ n < 2 ^ 64

section Numerals

variable {ε : Type}

theorem readNumeral_eq_ok {n : Numeral} {number : Int ⊕ Float}
    (h : readNumeral n = (.ok number : Reader ε (Int ⊕ Float))) :
    (∃ i, number = .inl i ∧ IsWord i) ∨ ∃ x, number = .inr x ∧ isFinite x = true := by
  unfold readNumeral at h
  dsimp only at h
  split_ifs at h with hplain hsigned hfinite
  · simp only [Bool.and_eq_true, decide_eq_true_eq] at hplain
    cases h
    refine Or.inl ⟨_, rfl, ?_⟩
    unfold IsWord
    omega
  · simp only [Bool.and_eq_true, decide_eq_true_eq] at hsigned
    cases h
    refine Or.inl ⟨_, rfl, ?_⟩
    unfold IsWord
    omega
  · cases h
    exact Or.inr ⟨_, rfl, hfinite⟩

theorem readNumeral_integerNumeral {n : Int} (hn : IsWord n) :
    readNumeral (integerNumeral n) = (.ok (.inl n) : Reader ε (Int ⊕ Float)) := by
  obtain ⟨hlow, hhigh⟩ := hn
  have hdigits : digitsValue 0 (integerNumeral n).literal.whole = n.natAbs :=
    digitsValue_toDigits n.natAbs
  have hwhole : (integerNumeral n).whole = true := rfl
  have hnegative : (integerNumeral n).literal.negative = decide (n < 0) := rfl
  unfold readNumeral
  simp only [hdigits, hwhole, hnegative, Bool.true_and]
  rcases lt_or_ge n 0 with hsign | hsign
  · have hfits : 0 < n.natAbs ∧ n.natAbs ≤ 2 ^ 63 := by omega
    have heq : -(n.natAbs : Int) = n := by omega
    rw [if_neg (by simp [hsign]), if_pos (by simpa [hsign] using hfits), heq]
  · have hfits : n.natAbs < 2 ^ 64 := by omega
    have heq : (n.natAbs : Int) = n := by omega
    rw [if_pos (by simpa [not_lt.mpr hsign] using hfits), heq]

theorem partsOf_not_whole (d : Decimal) (negative : Bool) :
    ((partsOf d).numeral negative).whole = false := by
  unfold partsOf
  split_ifs
  · obtain ⟨whole, fraction, hparts⟩ := positionalParts_shape d.digits d.exponent
    rw [hparts]
    rfl
  · rcases d.digits with _ | ⟨c, _ | ⟨c', cs⟩⟩
    · rfl
    · rfl
    · rfl

/-- The text of a finite double is read as the double, and never as an integer. -/
theorem readNumeral_floatNumeral {x : Float} (hx : isFinite x = true) :
    readNumeral (floatNumeral x) = (.ok (.inr x) : Reader ε (Int ⊕ Float)) := by
  have hwhole : (floatNumeral x).whole = false := partsOf_not_whole _ _
  unfold readNumeral
  simp only [hwhole, Bool.false_and, Bool.false_eq_true, if_false, toFloat_floatNumeral hx, hx,
    if_true]

end Numerals

/-! ## Readable values

The depth counts down as it does in the reader, so that the two can be followed side by side. -/

mutual

/-- A value that a text can hold, nested at most `depth` deep. -/
def Readable : Nat → Json → Prop
  | _, .null => True
  | _, .bool _ => True
  | _, .integer n => IsWord n
  | _, .float x => isFinite x = true
  | _, .string _ => True
  | 0, .array _ => False
  | 0, .object _ => False
  | depth + 1, .array vs => ReadableItems depth vs
  | depth + 1, .object ms => ms.Pairwise (·.1 < ·.1) ∧ ReadableMembers depth ms

def ReadableItems : Nat → List Json → Prop
  | _, [] => True
  | depth, v :: vs => Readable depth v ∧ ReadableItems depth vs

def ReadableMembers : Nat → List (String × Json) → Prop
  | _, [] => True
  | depth, (_, v) :: ms => Readable depth v ∧ ReadableMembers depth ms

end

/-! ## Members in the order of their keys

Members that come in order are put at the end, one after the other.  That is why members in order
are read back as they are, and others are not. -/

section Members

variable {key : String} {v : Json} {ms : List (String × Json)}

theorem mem_insertMember {m : String × Json} (h : m ∈ insertMember key v ms) :
    m = (key, v) ∨ m ∈ ms := by
  induction ms with
  | nil => exact Or.inl (List.mem_singleton.mp h)
  | cons head rest ih =>
      obtain ⟨k, w⟩ := head
      rw [insertMember] at h
      split_ifs at h
      · exact List.mem_cons.mp h
      · exact (List.mem_cons.mp h).imp_right (List.mem_cons_of_mem _)
      · rcases List.mem_cons.mp h with rfl | h
        · exact Or.inr List.mem_cons_self
        · exact (ih h).imp_right (List.mem_cons_of_mem _)

theorem pairwise_insertMember (h : ms.Pairwise (·.1 < ·.1)) :
    (insertMember key v ms).Pairwise (·.1 < ·.1) := by
  induction ms with
  | nil => exact List.pairwise_singleton _ _
  | cons head rest ih =>
      obtain ⟨k, w⟩ := head
      obtain ⟨hhead, hrest⟩ := List.pairwise_cons.mp h
      rw [insertMember]
      split_ifs with hlt heq
      · refine List.pairwise_cons.mpr ⟨fun m hm => ?_, h⟩
        rcases List.mem_cons.mp hm with rfl | hm
        · exact hlt
        · exact String.lt_trans hlt (hhead m hm)
      · subst heq
        exact List.pairwise_cons.mpr ⟨hhead, hrest⟩
      · refine List.pairwise_cons.mpr ⟨fun m hm => ?_, ih hrest⟩
        rcases mem_insertMember hm with rfl | hm
        · exact Std.lt_of_le_of_ne (String.not_lt.mp hlt) (Ne.symm heq)
        · exact hhead m hm

theorem readableMembers_insertMember {depth : Nat} (hv : Readable depth v)
    (h : ReadableMembers depth ms) : ReadableMembers depth (insertMember key v ms) := by
  induction ms with
  | nil => exact ⟨hv, h⟩
  | cons head rest ih =>
      obtain ⟨k, w⟩ := head
      rw [insertMember]
      split_ifs
      · exact ⟨hv, h⟩
      · exact ⟨hv, h.2⟩
      · exact ⟨h.1, ih h.2⟩

theorem insertMember_of_lt (h : ∀ m ∈ ms, m.1 < key) :
    insertMember key v ms = ms ++ [(key, v)] := by
  induction ms with
  | nil => rfl
  | cons head rest ih =>
      obtain ⟨k, w⟩ := head
      obtain ⟨hhead, hrest⟩ := List.forall_mem_cons.mp h
      have hne : key ≠ k := fun heq => String.lt_irrefl k (heq ▸ hhead)
      rw [insertMember, if_neg (String.lt_asymm hhead), if_neg hne, ih hrest, List.cons_append]

end Members

/-! ## Reading gives readable values -/

mutual

/-- **A value that is read is readable.** -/
theorem readable_of_readValue : ∀ (d : Document) (depth : Nat) {v : Json},
    readValue depth d = .ok v → Readable depth v
  | .null, depth, v, h => by
      rw [readValue] at h
      cases h
      rw [Readable]
      trivial
  | .bool b, depth, v, h => by
      rw [readValue] at h
      cases h
      rw [Readable]
      trivial
  | .number n, depth, v, h => by
      rw [readValue] at h
      obtain ⟨number, hnumber, hv⟩ := bind_eq_ok_iff.mp h
      rcases readNumeral_eq_ok hnumber with ⟨i, rfl, hi⟩ | ⟨x, rfl, hx⟩
      · cases hv
        rw [Readable]
        exact hi
      · cases hv
        rw [Readable]
        exact hx
  | .string (some s), depth, v, h => by
      rw [readValue] at h
      cases h
      rw [Readable]
      trivial
  | .string none, depth, v, h => by
      rw [readValue] at h
      cases h
  | .broken, depth, v, h => by
      rw [readValue] at h
      cases h
  | .array ds closed, 0, v, h => by
      rw [readValue] at h
      cases h
  | .object ms closed, 0, v, h => by
      rw [readValue] at h
      cases h
  | .array ds closed, depth + 1, v, h => by
      rw [readValue] at h
      obtain ⟨vs, hvs, hclosed⟩ := bind_eq_ok_iff.mp h
      split_ifs at hclosed
      cases hclosed
      rw [Readable]
      exact readableItems_of_readValues ds depth hvs
  | .object ms closed, depth + 1, v, h => by
      rw [readValue] at h
      obtain ⟨vs, hvs, hclosed⟩ := bind_eq_ok_iff.mp h
      split_ifs at hclosed
      cases hclosed
      rw [Readable]
      exact readableMembers_of_readMemberValues ms depth hvs List.Pairwise.nil
        (by rw [ReadableMembers]; trivial)

theorem readableItems_of_readValues : ∀ (ds : List Document) (depth : Nat) {vs : List Json},
    readValues depth ds = .ok vs → ReadableItems depth vs
  | [], depth, vs, h => by
      rw [readValues] at h
      cases h
      rw [ReadableItems]
      trivial
  | d :: ds, depth, vs, h => by
      rw [readValues] at h
      obtain ⟨v, hv, hrest⟩ := bind_eq_ok_iff.mp h
      obtain ⟨ws, hws, heq⟩ := bind_eq_ok_iff.mp hrest
      cases heq
      rw [ReadableItems]
      exact ⟨readable_of_readValue d depth hv, readableItems_of_readValues ds depth hws⟩

theorem readableMembers_of_readMemberValues : ∀ (ds : List (Option String × Document)) (depth : Nat)
    {before ms : List (String × Json)}, readMemberValues depth ds before = .ok ms →
    before.Pairwise (·.1 < ·.1) → ReadableMembers depth before →
    ms.Pairwise (·.1 < ·.1) ∧ ReadableMembers depth ms
  | [], depth, before, ms, h, hsorted, hbefore => by
      rw [readMemberValues] at h
      cases h
      exact ⟨hsorted, hbefore⟩
  | (none, d) :: ds, depth, before, ms, h, _, _ => by
      rw [readMemberValues] at h
      cases h
  | (some key, d) :: ds, depth, before, ms, h, hsorted, hbefore => by
      rw [readMemberValues] at h
      obtain ⟨v, hv, hrest⟩ := bind_eq_ok_iff.mp h
      exact readableMembers_of_readMemberValues ds depth hrest (pairwise_insertMember hsorted)
        (readableMembers_insertMember (readable_of_readValue d depth hv) hbefore)

end

/-! ## Readable values are read back -/

mutual

theorem allFinite_of_readable : ∀ (v : Json) (depth : Nat), Readable depth v → v.AllFinite
  | .null, _, _ => trivial
  | .bool _, _, _ => trivial
  | .integer _, _, _ => trivial
  | .string _, _, _ => trivial
  | .float x, depth, h => by
      rw [Readable] at h
      exact h
  | .array vs, 0, h => by
      rw [Readable] at h
      exact h.elim
  | .object ms, 0, h => by
      rw [Readable] at h
      exact h.elim
  | .array vs, depth + 1, h => by
      rw [Readable] at h
      exact allFinite_of_readableItems vs depth h
  | .object ms, depth + 1, h => by
      rw [Readable] at h
      exact allFinite_of_readableMembers ms depth h.2

theorem allFinite_of_readableItems : ∀ (vs : List Json) (depth : Nat),
    ReadableItems depth vs → AllFiniteItems vs
  | [], _, _ => trivial
  | v :: vs, depth, h => by
      rw [ReadableItems] at h
      exact ⟨allFinite_of_readable v depth h.1, allFinite_of_readableItems vs depth h.2⟩

theorem allFinite_of_readableMembers : ∀ (ms : List (String × Json)) (depth : Nat),
    ReadableMembers depth ms → AllFiniteMembers ms
  | [], _, _ => trivial
  | (_, v) :: ms, depth, h => by
      rw [ReadableMembers] at h
      exact ⟨allFinite_of_readable v depth h.1, allFinite_of_readableMembers ms depth h.2⟩

end

mutual

/-- **The tree of a readable value is read as the value.** -/
theorem readValue_toDocument : ∀ (v : Json) (depth : Nat), Readable depth v →
    readValue depth v.toDocument = .ok v
  | .null, depth, _ => by rw [toDocument, readValue]
  | .bool b, depth, _ => by rw [toDocument, readValue]
  | .string s, depth, _ => by rw [toDocument, readValue]
  | .integer n, depth, h => by
      rw [Readable] at h
      rw [toDocument, readValue, readNumeral_integerNumeral h]
      rfl
  | .float x, depth, h => by
      rw [Readable] at h
      rw [toDocument, readValue, readNumeral_floatNumeral h]
      rfl
  | .array vs, 0, h => by
      rw [Readable] at h
      exact h.elim
  | .object ms, 0, h => by
      rw [Readable] at h
      exact h.elim
  | .array vs, depth + 1, h => by
      rw [Readable] at h
      rw [toDocument, readValue, readValues_itemDocuments vs depth h]
      rfl
  | .object ms, depth + 1, h => by
      rw [Readable] at h
      rw [toDocument, readValue, readMemberValues_memberDocuments ms depth [] h.1 h.2]
      rfl

theorem readValues_itemDocuments : ∀ (vs : List Json) (depth : Nat), ReadableItems depth vs →
    readValues depth (itemDocuments vs) = .ok vs
  | [], depth, _ => by rw [itemDocuments, readValues]
  | v :: vs, depth, h => by
      rw [ReadableItems] at h
      rw [itemDocuments, readValues, readValue_toDocument v depth h.1,
        readValues_itemDocuments vs depth h.2]
      rfl

theorem readMemberValues_memberDocuments : ∀ (ms : List (String × Json)) (depth : Nat)
    (before : List (String × Json)), (before ++ ms).Pairwise (·.1 < ·.1) →
    ReadableMembers depth ms →
    readMemberValues depth (memberDocuments ms) before = .ok (before ++ ms)
  | [], depth, before, _, _ => by rw [memberDocuments, readMemberValues, List.append_nil]
  | (key, v) :: ms, depth, before, hsorted, h => by
      rw [ReadableMembers] at h
      have hbefore : ∀ m ∈ before, m.1 < key := fun m hm =>
        (List.pairwise_append.mp hsorted).2.2 m hm _ List.mem_cons_self
      rw [List.append_cons] at hsorted
      have hrest := readMemberValues_memberDocuments ms depth (before ++ [(key, v)]) hsorted h.2
      rw [memberDocuments, readMemberValues, readValue_toDocument v depth h.1]
      change readMemberValues depth (memberDocuments ms) (insertMember key v before) = _
      rw [insertMember_of_lt hbefore, hrest, ← List.append_cons]

end

/-! ## Whole texts -/

theorem readText_eq_ok_iff {ε α : Type} {read : Document → Reader ε α} {cs : List Char} {x : α} :
    readText read cs = .ok x ↔
      read (Document.parse cs).1 = .ok x ∧ (Document.parse cs).2 = true := by
  unfold readText
  dsimp only
  rw [bind_eq_ok_iff]
  constructor
  · rintro ⟨y, hy, halone⟩
    split_ifs at halone with h
    cases halone
    exact ⟨hy, h⟩
  · rintro ⟨hx, halone⟩
    exact ⟨x, hx, if_pos halone⟩

theorem parse?_eq_some_iff {t : String} {v : Json} :
    parse? t = some v ↔ readText (readValue maxDepth) t.toList = .ok v := by
  unfold parse?
  cases readText (readValue maxDepth) t.toList with
  | error e =>
      constructor
      · intro h
        cases h
      · intro h
        cases h
  | ok w => simp

/-- The values that texts have are the readable ones. -/
theorem readable_of_parse? {t : String} {v : Json} (h : parse? t = some v) :
    Readable maxDepth v :=
  readable_of_readValue _ _ (readText_eq_ok_iff.mp (parse?_eq_some_iff.mp h)).1

theorem parse?_render {v : Json} (h : Readable maxDepth v) : parse? v.render = some v := by
  rw [parse?_eq_some_iff, readText_eq_ok_iff, parse_render (allFinite_of_readable v maxDepth h)]
  exact ⟨readValue_toDocument v maxDepth h, rfl⟩

/-- Reads a text and writes its value. -/
def reformat? (t : String) : Option String := (parse? t).map render

/-- **Reformatting loses nothing.**  A text that is read is reformatted, and the new text is read as
the same value; it is its own reformatting; and texts that are reformatted to it have that value,
too. -/
theorem reformat_lossless {t : String} {v : Json} (h : parse? t = some v) :
    ∃ u, reformat? t = some u ∧ parse? u = some v ∧ reformat? u = some u ∧
      ∀ t', reformat? t' = some u → parse? t' = some v := by
  have hread := parse?_render (readable_of_parse? h)
  refine ⟨v.render, by rw [reformat?, h]; rfl, hread, by rw [reformat?, hread]; rfl, fun t' ht' => ?_⟩
  obtain ⟨w, hw, hrender⟩ := Option.map_eq_some_iff.mp ht'
  rw [← hrender, parse?_render (readable_of_parse? hw)] at hread
  rw [hw, hread]

/-- A text with members out of order, a key that comes twice, and numbers at the limits of their
kinds. -/
def tangledText : String :=
  "\x7b\"b\": [1, -0, 1E0, 18446744073709551615, 18446744073709551616, [], \x7b\x7d],\t" ++
    "\"a\": true, \"\\u00e9\\/\": null, \"a\": -9223372036854775808\x7d"

/-- The same value, as it is written. -/
def tidyText : String :=
  "\x7b\n    \"a\": -9223372036854775808,\n    \"b\": [\n        1,\n        -0.0,\n        1.0,\n" ++
    "        18446744073709551615,\n        1.8446744073709552e+19,\n        [],\n" ++
    "        \x7b\x7d\n    ],\n    \"é/\": null\n\x7d"

theorem reformat_lossless_tangled :
    reformat? tangledText = some tidyText ∧
      ∃ v, parse? tangledText = some v ∧ parse? tidyText = some v ∧
        reformat? tidyText = some tidyText := by
  have htidy : reformat? tangledText = some tidyText := by decide +kernel
  obtain ⟨v, hv, -⟩ := Option.map_eq_some_iff.mp htidy
  obtain ⟨u, hu, hread, hagain, -⟩ := reformat_lossless hv
  cases htidy.symm.trans hu
  exact ⟨htidy, v, hv, hread, hagain⟩

end FilterReference.Json
