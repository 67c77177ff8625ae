/-
# Text from bytes

Bytes are a text if they are UTF-8 throughout.  Of other bytes it is told how many of them belong to
whole characters before the first that does not.
-/

namespace FilterReference.Text

def isTail (b : UInt8) : Bool := 0x80 ≤ b && b < 0xc0

/-- The second bytes that may follow the first byte of a character of three or four bytes: no
character is written with more bytes than it needs, is a surrogate, or lies above the last code
point. -/
def isSecond (first second : UInt8) : Bool :=
  isTail second &&
    !(first == 0xe0 && second < 0xa0) && !(first == 0xed && 0xa0 ≤ second) &&
    !(first == 0xf0 && second < 0x90) && !(first == 0xf4 && 0x90 ≤ second)

/-- How many bytes follow the first byte of a character of more than one byte; bytes that begin no
character have none. -/
def tailLength (first : UInt8) : Nat :=
  if 0xc2 ≤ first && first < 0xe0 then 1
  else if 0xe0 ≤ first && first < 0xf0 then 2
  else if 0xf0 ≤ first && first < 0xf5 then 3
  else 0

/-- How many bytes the character at the start of some bytes has behind its first one, if there is a
whole character. -/
def characterTail? : List UInt8 → Option Nat
  | [] => none
  | first :: rest =>
    if first < 0x80 then some 0
    else
      match tailLength first, rest with
      | 1, second :: _ => if isSecond first second then some 1 else none
      | 2, second :: third :: _ =>
        if isSecond first second && isTail third then some 2 else none
      | 3, second :: third :: fourth :: _ =>
        if isSecond first second && isTail third && isTail fourth then some 3 else none
      | _, _ => none

/-- How many bytes come before the first that belongs to no whole character; `skip` of them belong
to a character that has begun. -/
def wholeBytes : Nat → List UInt8 → Nat
  | _, [] => 0
  | skip + 1, _ :: rest => wholeBytes skip rest + 1
  | 0, b :: rest =>
    match characterTail? (b :: rest) with
    | some tail => wholeBytes tail rest + 1
    | none => 0

/-- The characters of some bytes, or how many bytes come before the first that belongs to none. -/
def decode (bytes : List UInt8) : Except Nat (List Char) :=
  match String.fromUTF8? ⟨bytes.toArray⟩ with
  | some s => .ok s.toList
  | none => .error (wholeBytes 0 bytes)

end FilterReference.Text
