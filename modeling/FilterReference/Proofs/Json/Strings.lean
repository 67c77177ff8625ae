/-
# Strings in JSON text

A string is written with escapes and read as numbers first, which are joined to characters then.
Every character of a string comes back as its code point (`stringUnits?_quote`), and code points of
characters are no surrogates, so they are joined to the characters again (`joinUnits?_toNat`).
-/
import FilterReference.Json.Document
import FilterReference.Json.Value
import Mathlib.Tactic

namespace FilterReference.Json

/-- Puts a number before those of the rest of a string. -/
def pushUnit (n : Nat) : List Nat × List Char → List Nat × List Char
  | (units, after) => (n :: units, after)

theorem hexQuad?_digitChar {n : Nat} (h : n < 32) :
    Text.hexQuad? '0' '0' (Nat.digitChar (n / 16)) (Nat.digitChar (n % 16)) = some n := by
  revert n
  decide

theorem stringUnits?_short {c e : Char} (he : e ≠ 'u') (h : shortEscape? e = some c)
    (rest : List Char) : stringUnits? ('\\' :: e :: rest) = (stringUnits? rest).map (pushUnit c.toNat) := by
  rw [stringUnits?.eq_4 e rest fun _ _ _ _ _ hu => absurd hu he, h]
  cases stringUnits? rest <;> rfl

theorem stringUnits?_hex {n : Nat} (h : n < 32) (rest : List Char) :
    stringUnits? ('\\' :: 'u' :: '0' :: '0' :: Nat.digitChar (n / 16) :: Nat.digitChar (n % 16) :: rest) =
      (stringUnits? rest).map (pushUnit n) := by
  rw [stringUnits?, hexQuad?_digitChar h]
  cases stringUnits? rest <;> rfl

theorem stringUnits?_plain {c : Char} (hquote : c ≠ '"') (hslash : c ≠ '\\') (hcontrol : ¬ c.toNat < 0x20)
    (rest : List Char) : stringUnits? (c :: rest) = (stringUnits? rest).map (pushUnit c.toNat) := by
  rw [stringUnits?.eq_5 c rest hquote (fun _ _ _ _ _ hc => absurd hc hslash)
    (fun _ _ hc => absurd hc hslash), if_neg (by simp [hcontrol, hslash])]
  cases stringUnits? rest <;> rfl

theorem stringUnits?_escapeChar (c : Char) (rest : List Char) :
    stringUnits? (escapeChar c ++ rest) = (stringUnits? rest).map (pushUnit c.toNat) := by
  unfold escapeChar
  split_ifs with h₁ h₂ h₃ h₄ h₅ h₆ h₇ h₈
  · exact stringUnits?_short (by decide) (by rw [h₁]; rfl) rest
  · exact stringUnits?_short (by decide) (by rw [h₂]; rfl) rest
  · exact stringUnits?_short (by decide) (by rw [h₃]; rfl) rest
  · exact stringUnits?_short (by decide) (by rw [h₄]; rfl) rest
  · exact stringUnits?_short (by decide) (by rw [h₅]; rfl) rest
  · exact stringUnits?_short (by decide) (by rw [h₆]; rfl) rest
  · exact stringUnits?_short (by decide) (by rw [h₇]; rfl) rest
  · exact stringUnits?_hex h₈ rest
  · exact stringUnits?_plain h₁ h₂ h₈ rest

/-- **A string that is written** is read as the code points of its characters. -/
theorem stringUnits?_quote (cs rest : List Char) :
    stringUnits? (cs.flatMap escapeChar ++ '"' :: rest) = some (cs.map Char.toNat, rest) := by
  induction cs with
  | nil => rfl
  | cons c cs ih =>
      rw [List.flatMap_cons, List.append_assoc, stringUnits?_escapeChar, ih]
      rfl

theorem toNat_not_surrogate (c : Char) :
    isHighSurrogate c.toNat = false ∧ isLowSurrogate c.toNat = false := by
  have hvalid : c.toNat < 0xd800 ∨ 0xdfff < c.toNat ∧ c.toNat < 0x110000 := c.valid
  unfold isHighSurrogate isLowSurrogate
  simp only [Bool.and_eq_false_iff, decide_eq_false_iff_not]
  omega

theorem joinUnits?_toNat (cs : List Char) : joinUnits? (cs.map Char.toNat) = some cs := by
  induction cs with
  | nil => rfl
  | cons c cs ih =>
      obtain ⟨hhigh, hlow⟩ := toNat_not_surrogate c
      cases cs with
      | nil =>
          rw [List.map_cons, List.map_nil, joinUnits?, hhigh, hlow, Char.ofNat_toNat]
          rfl
      | cons d cs =>
          rw [List.map_cons] at ih ⊢
          rw [List.map_cons, joinUnits?, hhigh, hlow, ih, Char.ofNat_toNat]
          rfl

theorem stringUnits?_tail_quote (s : String) (rest : List Char) :
    stringUnits? ((quote s).tail ++ rest) = some (s.toList.map Char.toNat, rest) := by
  rw [quote, List.tail_cons, List.append_assoc]
  exact stringUnits?_quote s.toList rest

theorem joinUnits?_string (s : String) :
    (joinUnits? (s.toList.map Char.toNat)).map String.ofList = some s := by
  rw [joinUnits?_toNat, Option.map_some, String.ofList_toList]

end FilterReference.Json
