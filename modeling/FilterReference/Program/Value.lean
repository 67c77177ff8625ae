/-
# Values of arguments

What the text of an argument stands for, and the kinds of values that a command can ask for.  A text
is a value of a kind exactly if it can be read as one.
-/
import FilterReference.Decimal.Literal

namespace FilterReference

/-- A path is not empty. -/
def readPath? (s : String) : Option String := if s = "" then none else some s

/-- A count of at most 64 bits, in digits. -/
def readCount? (s : String) : Option Nat :=
  let digits := match s.toList with
    | '+' :: rest => rest
    | cs => cs
  if digits.isEmpty || !digits.all Char.isDigit then none
  else
    let n := digitsValue 0 digits
    if n ≤ Binary.maxCount then some n else none

def readTruth? (s : String) : Option Bool :=
  if s = "true" then some true else if s = "false" then some false else none

def splitCommas : List Char → List (List Char)
  | [] => [[]]
  | c :: rest =>
    if c = ',' then [] :: splitCommas rest
    else
      match splitCommas rest with
      | [] => [[c]]
      | part :: parts => (c :: part) :: parts

/-- Numbers separated by commas, in one or more texts. -/
def readFloats? (texts : List String) : Option (List Float) :=
  (texts.flatMap fun s => splitCommas s.toList).mapM readFloat?

/-- What a value has to be. -/
inductive ValueKind where
  | text
  | path
  | count
  | number
  /-- Numbers separated by commas. -/
  | numbers
  | truth
deriving DecidableEq, Repr

def ValueKind.admits : ValueKind → String → Bool
  | .text, _ => true
  | .path, s => (readPath? s).isSome
  | .count, s => (readCount? s).isSome
  | .number, s => (readFloat? s.toList).isSome
  | .numbers, s => (readFloats? [s]).isSome
  | .truth, s => (readTruth? s).isSome

end FilterReference
