/-
# Writing doubles

Every text that holds a double shows the digits of its shortest decimal; the texts differ only in
how they lay the digits out, and in which of two equally near decimals they show.  A `Layout`
records those decisions, and `Layout.write` carries them out.  The two layouts that belong to no
particular file format, the plain one of messages and the scientific one of measured deviations, are
given here.
-/
import FilterReference.Binary.Double
import FilterReference.Decimal.Shortest

namespace FilterReference

open Binary

/-- An integer in decimal digits, with its sign if it is negative. -/
def integerChars : Int → List Char
  | .ofNat n => Nat.toDigits 10 n
  | .negSucc n => '-' :: Nat.toDigits 10 (n + 1)

/-- The decisions of one number notation. -/
structure Layout where
  /-- Which of two equally near shortest decimals is shown. -/
  tie : Tie
  /-- The exponents that are written without an exponent mark. -/
  positional : Int → Bool
  /-- Whether a number without a fraction still shows a point and a zero. -/
  keepsPoint : Bool
  /-- The exponent mark with its sign and digits. -/
  exponentMark : Int → List Char
  /-- The text of a not-a-number. -/
  notANumber : String
  /-- The text of positive infinity. -/
  infinity : String

namespace Layout

/-- The digits of a number below one: a zero, the point, zeros down to the first digit. -/
def belowOne (digits : List Char) (zeros : Nat) : List Char :=
  '0' :: '.' :: (List.replicate zeros '0' ++ digits)

/-- The digits of a number with `whole` digits before the point. -/
def fromOne (keepsPoint : Bool) (digits : List Char) (whole : Nat) : List Char :=
  if whole < digits.length then digits.take whole ++ '.' :: digits.drop whole
  else
    digits ++ List.replicate (whole - digits.length) '0' ++
      (if keepsPoint then ['.', '0'] else [])

/-- Digits in positional notation, the first of them standing for `10 ^ exponent`. -/
def positionalText (keepsPoint : Bool) (digits : List Char) : Int → List Char
  | .ofNat e => fromOne keepsPoint digits (e + 1)
  | .negSucc e => belowOne digits e

/-- Digits in exponent notation: one digit, a point if more follow, the exponent mark. -/
def exponentText (mark : List Char) : List Char → List Char
  | [] => mark
  | [d] => d :: mark
  | d :: rest => d :: '.' :: (rest ++ mark)

def writeDecimal (l : Layout) (d : Decimal) : List Char :=
  if l.positional d.exponent then positionalText l.keepsPoint d.digits d.exponent
  else exponentText (l.exponentMark d.exponent) d.digits

/-- The characters of a double in this notation.  The sign of a zero is shown, that of a
not-a-number is not. -/
def chars (l : Layout) (x : Float) : List Char :=
  if isNaN x then l.notANumber.toList
  else
    let body :=
      if magnitude x = binary64.infinity then l.infinity.toList
      else l.writeDecimal (Decimal.shortest l.tie (magnitude x))
    if negative x then '-' :: body else body

def write (l : Layout) (x : Float) : String := String.ofList (l.chars x)

/-- An exponent mark without padding: `e-7`, `e0`, `e22`. -/
def bareExponent (e : Int) : List Char := 'e' :: integerChars e

/-- The notation of messages: never an exponent, and no point unless a fraction follows. -/
def plain : Layout where
  tie := .upper
  positional := fun _ => true
  keepsPoint := false
  exponentMark := bareExponent
  notANumber := "NaN"
  infinity := "inf"

/-- The notation of deviations and tolerances: always an exponent. -/
def scientific : Layout where
  tie := .upper
  positional := fun _ => false
  keepsPoint := false
  exponentMark := bareExponent
  notANumber := "NaN"
  infinity := "inf"

end Layout

end FilterReference
