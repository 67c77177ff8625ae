/-
# The bytes of a text

The bytes that a text is stored in are decoded to the text again (`decode_toUTF8`).  A character of
the first block is one byte, its code, and all bytes of another character lie above that block
(`utf8EncodeChar_cases`), so that what is done at bytes of the first block can be followed character
by character.
-/
import FilterReference.Text.Characters
import FilterReference.Text.Utf8
import Mathlib.Tactic

namespace FilterReference.Text

theorem toList_loop (bytes : ByteArray) (i : Nat) (before : List UInt8) :
    ByteArray.toList.loop bytes i before = before.reverse ++ bytes.data.toList.drop i := by
  fun_induction ByteArray.toList.loop bytes i before with
  | case1 i before h ih =>
      have hi : i < bytes.data.toList.length := h
      rw [ih, List.reverse_cons, List.append_assoc, List.singleton_append,
        List.drop_eq_getElem_cons hi]
      congr 2
      exact getElem!_pos bytes.data i h
  | case2 i before h =>
      have hi : bytes.data.toList.length ≤ i := Nat.not_lt.mp h
      rw [List.drop_eq_nil_of_le hi, List.append_nil]

theorem toList_eq_data (bytes : ByteArray) : bytes.toList = bytes.data.toList := by
  rw [ByteArray.toList, toList_loop, List.reverse_nil, List.nil_append, List.drop_zero]

theorem fromUTF8?_toUTF8 (text : String) : String.fromUTF8? text.toUTF8 = some text :=
  dif_pos text.isValidUTF8

/-- **The bytes of a text** are decoded to the text. -/
theorem decode_toUTF8 (text : String) : decode text.toUTF8.toList = .ok text.toList := by
  rw [decode, toList_eq_data, Array.toArray_toList, fromUTF8?_toUTF8]

/-! ## Characters as bytes

Bytes below 128 are characters by themselves and occur in no other.  So a search for such a byte
among the bytes of a text is the same as a search among its characters. -/

/-- The bytes of characters. -/
def encode (cs : List Char) : List UInt8 := cs.flatMap String.utf8EncodeChar

theorem encode_cons (c : Char) (cs : List Char) :
    encode (c :: cs) = String.utf8EncodeChar c ++ encode cs := List.flatMap_cons

theorem encode_append (cs ds : List Char) : encode (cs ++ ds) = encode cs ++ encode ds :=
  List.flatMap_append

theorem toList_toUTF8 (text : String) : text.toUTF8.toList = encode text.toList := by
  have hbytes : text.toUTF8 = (encode text.toList).toByteArray := by
    conv_lhs => rw [← String.ofList_toList (s := text)]
    exact String.toByteArray_ofList
  rw [hbytes, toList_eq_data, List.data_toByteArray]

theorem decode_encode (cs : List Char) : decode (encode cs) = .ok cs := by
  have h := decode_toUTF8 (String.ofList cs)
  rwa [toList_toUTF8, String.toList_ofList] at h

theorem eq_encode_of_decode {bytes : List UInt8} {cs : List Char} (h : decode bytes = .ok cs) :
    bytes = encode cs := by
  unfold decode String.fromUTF8? at h
  split at h
  · rename_i s hs
    split_ifs at hs with hvalid
    cases hs
    cases h
    have hbytes := toList_toUTF8 (String.fromUTF8 ⟨bytes.toArray⟩ hvalid)
    rw [← hbytes, toList_eq_data]
    rfl
  · cases h

theorem utf8EncodeChar_of_lt {c : Char} (h : c.toNat < 128) :
    String.utf8EncodeChar c = [UInt8.ofNat c.toNat] := by
  have hle : c.val.toNat ≤ 0x7f := Nat.le_of_lt_succ h
  simp only [String.utf8EncodeChar, hle, if_true]
  rfl

theorem utf8EncodeChar_cases (c : Char) :
    (c.toNat < 128 ∧ String.utf8EncodeChar c = [UInt8.ofNat c.toNat]) ∨
      (128 ≤ c.toNat ∧ String.utf8EncodeChar c ≠ [] ∧
        ∀ b ∈ String.utf8EncodeChar c, 128 ≤ b.toNat) := by
  have hval : c.val.toNat = c.toNat := rfl
  by_cases hlt : c.toNat < 128
  · exact Or.inl ⟨hlt, utf8EncodeChar_of_lt hlt⟩
  · refine Or.inr ⟨Nat.not_lt.mp hlt, ?_, ?_⟩
    · unfold String.utf8EncodeChar
      dsimp only
      split_ifs <;> exact List.cons_ne_nil _ _
    · intro b hb
      simp only [String.utf8EncodeChar, hval] at hb
      -- Every byte of a longer character has its highest bit set.
      split_ifs at hb
      · omega
      all_goals
        simp only [List.mem_cons, List.not_mem_nil, or_false] at hb
        rcases hb with rfl | rfl | rfl | rfl <;> rw [UInt8.toNat_ofNat'] <;> omega

theorem exists_encode_of_lt {bytes : List UInt8} (h : ∀ b ∈ bytes, b.toNat < 128) :
    ∃ cs, bytes = encode cs := by
  induction bytes with
  | nil => exact ⟨[], rfl⟩
  | cons b bytes ih =>
      obtain ⟨hb, hbytes⟩ := List.forall_mem_cons.mp h
      obtain ⟨cs, rfl⟩ := ih hbytes
      have hcode : (Char.ofUInt8 b).toNat = b.toNat := UInt8.toNat_toUInt32 b
      refine ⟨Char.ofUInt8 b :: cs, ?_⟩
      rw [encode_cons, utf8EncodeChar_of_lt (by rw [hcode]; exact hb), hcode, UInt8.ofNat_toNat]
      rfl

theorem mem_of_code_mem {c : Char} (hc : c.toNat < 128) {cs : List Char}
    (h : UInt8.ofNat c.toNat ∈ encode cs) : c ∈ cs := by
  obtain ⟨d, hd, hmem⟩ := List.mem_flatMap.mp h
  have hcode : (UInt8.ofNat c.toNat).toNat = c.toNat := by
    rw [UInt8.toNat_ofNat']
    omega
  rcases utf8EncodeChar_cases d with ⟨hchar, hbytes⟩ | ⟨-, -, hbytes⟩
  · rw [hbytes, List.mem_singleton] at hmem
    have heq : c.toNat = d.toNat := by
      rw [← hcode, hmem, UInt8.toNat_ofNat']
      omega
    rwa [Char.toNat_inj.mp heq]
  · have := hbytes _ hmem
    omega

theorem code_mem {c : Char} (hc : c.toNat < 128) {cs : List Char} (h : c ∈ cs) :
    UInt8.ofNat c.toNat ∈ encode cs := by
  refine List.mem_flatMap.mpr ⟨c, h, ?_⟩
  rw [utf8EncodeChar_of_lt hc]
  exact List.mem_singleton_self _

theorem length_le_encode (cs : List Char) : cs.length ≤ (encode cs).length := by
  induction cs with
  | nil => exact Nat.zero_le _
  | cons c cs ih =>
      have hpos : 0 < (String.utf8EncodeChar c).length := by
        rcases utf8EncodeChar_cases c with ⟨-, hbytes⟩ | ⟨-, hne, -⟩
        · rw [hbytes]
          exact Nat.one_pos
        · exact List.length_pos_of_ne_nil hne
      rw [encode_cons, List.length_append, List.length_cons]
      omega

theorem encode_ne_nil {cs : List Char} (h : cs ≠ []) : encode cs ≠ [] := by
  have hpos := List.length_pos_of_ne_nil h
  exact List.ne_nil_of_length_pos (hpos.trans_le (length_le_encode cs))

/-! ## Trimming -/

theorem trim_cons {c : Char} (h : isBlank c = true) (cs : List Char) : trim (c :: cs) = trim cs := by
  rw [trim, trim, List.dropWhile_cons_of_pos h]

theorem mem_trim {c : Char} (hc : isBlank c = false) {cs : List Char} (h : c ∈ cs) : c ∈ trim cs := by
  have hdrop : ∀ ds : List Char, c ∈ ds → c ∈ ds.dropWhile isBlank := by
    intro ds hds
    rw [← List.takeWhile_append_dropWhile (p := isBlank) (l := ds), List.mem_append] at hds
    refine hds.resolve_left fun htake => ?_
    rw [List.all_eq_true.mp List.all_takeWhile c htake] at hc
    cases hc
  rw [trim, List.mem_reverse]
  exact hdrop _ (List.mem_reverse.mpr (hdrop _ h))

theorem trim_eq_self {cs : List Char} (h : ∀ c ∈ cs, isBlank c = false) : trim cs = cs := by
  have hdrop : ∀ ds : List Char, (∀ c ∈ ds, isBlank c = false) → ds.dropWhile isBlank = ds := by
    intro ds hds
    cases ds with
    | nil => rfl
    | cons d ds => exact List.dropWhile_cons_of_neg (by simp [hds d List.mem_cons_self])
  rw [trim, hdrop cs h, hdrop cs.reverse fun c hc => h c (List.mem_reverse.mp hc),
    List.reverse_reverse]

end FilterReference.Text
