/-
# Reading decimal numbers

The number syntax of text signals and of command-line values: an optional sign, then digits with an
optional point and an optional exponent, at least one digit before the exponent; or one of the
words `inf`, `infinity`, `nan` in any case.  A number is read as the double nearest to it, however
many digits it has; from the overflow threshold on that is infinity.
-/
import FilterReference.Binary.Double
import FilterReference.Decimal.Shortest

namespace FilterReference

open Binary

/-- The value of a run of decimal digits, after the digits already read as `acc`. -/
def digitsValue (acc : Nat) : List Char → Nat
  | [] => acc
  | c :: rest => digitsValue (acc * 10 + (c.toNat - '0'.toNat)) rest

namespace Decimal

/-- The pattern of the double nearest to `significand * 10 ^ power`, for a significand of `digits`
digits.  What is out of range by the place of its first digit is decided without writing the power
of ten out. -/
def toBits (significand digits : Nat) (power : Int) : Nat :=
  if significand = 0 then 0
  else if 310 < digits + power then binary64.infinity
  else if digits + power < -330 then 0
  else nearest ⟨significand, power⟩

end Decimal

/-- A decimal literal: its digits before and after the point, and its exponent. -/
structure Literal where
  negative : Bool
  whole : List Char
  fraction : List Char
  exponent : Int
deriving DecidableEq, Repr

namespace Literal

/-- The digits of both sides of the point, without leading zeros. -/
def significantDigits (l : Literal) : List Char :=
  (l.whole ++ l.fraction).dropWhile (· = '0')

/-- The pattern of the double nearest to the number without its sign. -/
def magnitude (l : Literal) : Nat :=
  let digits := l.significantDigits
  Decimal.toBits (digitsValue 0 digits) digits.length (l.exponent - l.fraction.length)

/-- The double nearest to the number. -/
def toFloat (l : Literal) : Float := ofParts l.negative l.magnitude

end Literal

/-- The digits at the start of a text, and the rest. -/
def spanDigits : List Char → List Char × List Char
  | [] => ([], [])
  | c :: rest =>
    if c.isDigit then
      let (ds, r) := spanDigits rest
      (c :: ds, r)
    else ([], c :: rest)

def takeSign : List Char → Bool × List Char
  | '-' :: rest => (true, rest)
  | '+' :: rest => (false, rest)
  | cs => (false, cs)

/-- The digits of an exponent, signed, when they are all that is left. -/
def readExponent? (cs : List Char) : Option Int :=
  let (negative, rest) := takeSign cs
  match spanDigits rest with
  | ([], _) => none
  | (ds, []) =>
    let n : Int := digitsValue 0 ds
    some (if negative then -n else n)
  | (_, _ :: _) => none

/-- The digits after a point, if there is one, and the rest. -/
def spanFraction : List Char → List Char × List Char
  | '.' :: rest => spanDigits rest
  | cs => ([], cs)

/-- An unsigned decimal number that is the whole text. -/
def readUnsigned? (negative : Bool) (cs : List Char) : Option Literal :=
  let (whole, rest) := spanDigits cs
  let (fraction, rest) := spanFraction rest
  if whole.isEmpty && fraction.isEmpty then none
  else
    match rest with
    | [] => some ⟨negative, whole, fraction, 0⟩
    | 'e' :: cs | 'E' :: cs => (readExponent? cs).map (⟨negative, whole, fraction, ·⟩)
    | _ => none

/-- The words for what is no finite number, in any case. -/
def readWord? (negative : Bool) (cs : List Char) : Option Float :=
  let word := cs.map Char.toLower
  if word = ['i', 'n', 'f'] ∨ word = ['i', 'n', 'f', 'i', 'n', 'i', 't', 'y'] then
    some (ofParts negative binary64.infinity)
  else if word = ['n', 'a', 'n'] then some (ofParts negative binary64.notANumber)
  else none

/-- The double a text is read as, if it is a number. -/
def readFloat? (cs : List Char) : Option Float :=
  let (negative, rest) := takeSign cs
  match readUnsigned? negative rest with
  | some l => some l.toFloat
  | none => readWord? negative rest

end FilterReference
