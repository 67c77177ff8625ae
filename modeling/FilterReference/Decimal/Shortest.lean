/-
# The shortest decimal of a double

Among the decimals that round to a double, the shortest is the one with the fewest digits, and of
those the one nearest to it; which of two equally near ones is taken, a `Tie` says.  The search goes
through the grids of one, two, three … digits and tests, on each, the two neighbours of the exact
value: if any point of a grid rounds to the double, so does one of these two, since rounding keeps
order.
-/
import FilterReference.Binary.Format

namespace FilterReference

-- Powers are those of the core library, whatever is imported beside it.
attribute [local instance (high)] instPowNat

open Binary

/-- The non-negative decimal number `significand * 10 ^ power`. -/
structure Decimal where
  significand : Nat
  power : Int
deriving DecidableEq, Repr

/-- Which of two decimals is taken that are equally near to a double. -/
inductive Tie where
  | upper
  /-- The one whose last digit is even. -/
  | even
deriving DecidableEq, Repr

namespace Decimal

/-- The exact value as a quotient of natural numbers. -/
def quotient : Decimal → Nat × Nat
  | ⟨s, .ofNat p⟩ => (s * 10 ^ p, 1)
  | ⟨s, .negSucc p⟩ => (s, 10 ^ (p + 1))

/-- The pattern of the double that the decimal is read as. -/
def nearest (d : Decimal) : Nat :=
  binary64.nearest d.quotient.1 d.quotient.2

/-- The digits of the significand, most significant first. -/
def digits (d : Decimal) : List Char := Nat.toDigits 10 d.significand

/-- The power of ten that the first digit stands for. -/
def exponent (d : Decimal) : Int := d.power + d.digits.length - 1

/-- Drops at most `fuel` trailing zeros. -/
def dropZeros : Nat → Decimal → Decimal
  | 0, d => d
  | fuel + 1, d =>
    if d.significand ≠ 0 ∧ d.significand % 10 = 0 then
      dropZeros fuel ⟨d.significand / 10, d.power + 1⟩
    else d

/-- How many decimal digits a positive number has, counting at most `fuel`. -/
def digitCount : Nat → Nat → Nat
  | 0, _ => 0
  | fuel + 1, n => if n = 0 then 0 else digitCount fuel (n / 10) + 1

/-- The power of ten that the first digit of the positive `num / den` stands for. -/
def leadingPower (num den : Nat) : Int :=
  if den ≤ num then (digitCount (num / den) (num / den) : Int) - 1
  else - (digitCount den ((den - 1) / num) : Int)

/-- `num / den` in units of `10 ^ power`, as a quotient. -/
def inUnits (num den : Nat) : Int → Nat × Nat
  | .ofNat p => (num, den * 10 ^ p)
  | .negSucc p => (num * 10 ^ (p + 1), den)

/-- Whether the lower neighbour on a grid is the better one: `n / d` is the exact value in units of
the grid. -/
def prefersLower (tie : Tie) (n d : Nat) : Bool :=
  2 * (n % d) < d || (2 * (n % d) == d && tie == .even && n / d % 2 == 0)

/-- The better neighbour of `num / den` on the grid of the multiples of `10 ^ power`, if one of
them is read as the pattern `bits`. -/
def onGrid? (tie : Tie) (bits num den : Nat) (power : Int) : Option Decimal :=
  let (n, d) := inUnits num den power
  let below : Decimal := ⟨n / d, power⟩
  let above : Decimal := ⟨n / d + 1, power⟩
  match below.nearest == bits, above.nearest == bits with
  | true, true => some (if prefersLower tie n d then below else above)
  | true, false => some below
  | false, true => some above
  | false, false => none

/-- The first grid with a hit, from the one whose unit is `10 ^ power` through `fuel` finer ones. -/
def search (tie : Tie) (bits num den : Nat) : Nat → Int → Decimal
  | 0, power => ⟨num, power⟩
  | fuel + 1, power =>
    match onGrid? tie bits num den power with
    | some d => d
    | none => search tie bits num den fuel (power - 1)

/-- No double needs more digits than this to be written out exactly. -/
def exactDigits : Nat := 800

/-- The shortest decimal that is read as the finite pattern `bits`. -/
def shortest (tie : Tie) (bits : Nat) : Decimal :=
  if bits = 0 then ⟨0, 0⟩
  else
    let (num, den) := binary64.quotient bits
    let d := search tie bits num den exactDigits (leadingPower num den)
    dropZeros exactDigits d

end Decimal

end FilterReference
