/-
# The summary of a record

A few lines about a record: its sampling factors, the size of its filter, the family the filter is
said to belong to, and the range of its samples.  Numbers are shown in it with a fixed number of
places.
-/
import FilterReference.Binary.Double
import FilterReference.Record.Basic

namespace FilterReference

namespace Decimal

/-! ## Doubles with a fixed number of places

A summary shows the exact value of a double, rounded to the places, a tie to the even digit, and
never an exponent. -/

-- Powers are those of the core library, whatever is imported beside it.
attribute [local instance (high)] instPowNat

open Binary

/-- The digits of `units / 10 ^ places`, with at least one digit before the point. -/
def fixedDigits (places units : Nat) : List Char :=
  let digits := Nat.toDigits 10 units
  let padded := List.replicate (places + 1 - digits.length) '0' ++ digits
  let whole := padded.length - places
  padded.take whole ++ '.' :: padded.drop whole

/-- A double rounded to `places` digits after the point. -/
def fixed (places : Nat) (x : Float) : String :=
  if isNaN x then "NaN"
  else
    let body :=
      if magnitude x = binary64.infinity then "inf"
      else
        let (num, den) := binary64.quotient (magnitude x)
        String.ofList (fixedDigits places (roundHalfEven (num * 10 ^ places) den))
    if negative x then "-" ++ body else body

end Decimal

/-! ## Summaries -/

open Binary

def familyName (isFir : Bool) : String := if isFir then "FIR" else "IIR"

/-- The smaller of two doubles, the second of two equal ones; one that is not a number gives way to
the other. -/
def smaller (x y : Float) : Float :=
  if isNaN x then y else if isNaN y then x else if x < y then x else y

/-- The larger of two doubles, the second of two equal ones; one that is not a number gives way to
the other. -/
def greater (x y : Float) : Float :=
  if isNaN x then y else if isNaN y then x else if y < x then x else y

/-- The smallest and the largest of some samples, if there are any. -/
def range? : List Float → Option (Float × Float)
  | [] => none
  | x :: xs => some (xs.foldl smaller x, xs.foldl greater x)

/-- The filter family of a record, and that of its coefficients where it is another. -/
def Record.familyText (r : Record) : String :=
  let claimed := familyName r.isFir
  let structural := familyName (r.denominator.length == 1)
  if claimed = structural then claimed else s!"{claimed} (coefficients are {structural})"

/-- The line with the range of the samples, if there are any. -/
def rangeLine (xs : List Float) : String :=
  match range? xs with
  | some (least, greatest) =>
    s!"Range:        [{Decimal.fixed 6 least}, {Decimal.fixed 6 greatest}]\n"
  | none => ""

/-- The summary of a record with the given factors, from the file at `path`. -/
def Record.summary (r : Record) (factors : Factors) (path : String) : String :=
  s!"File:         {path}\n" ++
  s!"Resampling:   down={factors.down} up={factors.up} " ++
    s!"(ratio {Decimal.fixed 4 factors.ratio})\n" ++
  s!"Numerator:    {r.numerator.length} coefficient(s)\n" ++
  s!"Denominator:  {r.denominator.length} coefficient(s)\n" ++
  s!"Filter:       {r.familyText}\n" ++
  s!"Samples:      {r.samples.length}\n" ++
  rangeLine r.samples

end FilterReference
