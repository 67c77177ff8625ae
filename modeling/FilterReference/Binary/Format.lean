/-
# Binary floating-point formats, on bit patterns

A finite pattern of a binary format denotes `mantissa * 2 ^ exponent`, and the patterns of
non-negative numbers, read as natural numbers, are in the order of the numbers they denote.
`Format.nearest` rounds an exact quotient of natural numbers to such a pattern: to the nearest
one, a tie to the even mantissa, and from the overflow threshold on to the pattern of infinity.
All of it is exact arithmetic on `Nat`, so that every reader and printer of decimals below rests
on one definition of rounding.  Signs are kept apart, by the users of this module.
-/

namespace FilterReference.Binary

-- Powers are those of the core library, whatever is imported beside it.
attribute [local instance (high)] instPowNat

/-- A binary interchange format: how many bits the stored fraction has, and the power of two that
the last of them stands for in the smallest numbers. -/
structure Format where
  fractionBits : Nat
  exponentBits : Nat
  minExponent : Int

def binary64 : Format := ⟨52, 11, -1074⟩

/-- The format of single-precision samples. -/
def binary32 : Format := ⟨23, 8, -149⟩

namespace Format

/-- The pattern of infinity: an exponent field of ones and no fraction. -/
def infinity (f : Format) : Nat := (2 ^ f.exponentBits - 1) * 2 ^ f.fractionBits

/-- The pattern that every not-a-number is written with. -/
def notANumber (f : Format) : Nat := f.infinity + 2 ^ (f.fractionBits - 1)

/-- The integer a finite pattern scales: the fraction, with the hidden bit of the normal
numbers put back. -/
def mantissa (f : Format) (bits : Nat) : Nat :=
  if bits < 2 ^ f.fractionBits then bits
  else 2 ^ f.fractionBits + bits % 2 ^ f.fractionBits

/-- The power of two a finite pattern scales its mantissa by. -/
def exponent (f : Format) (bits : Nat) : Int :=
  f.minExponent + ((bits / 2 ^ f.fractionBits - 1 : Nat) : Int)

end Format

/-- `num / den` to the nearest integer, a tie to the even one. -/
def roundHalfEven (num den : Nat) : Nat :=
  let q := num / den
  let r := num % den
  if 2 * r < den then q
  else if den < 2 * r then q + 1
  else q + q % 2

/-- `num / den` times `2 ^ (-e)`, as a quotient of natural numbers. -/
def scaleDown (num den : Nat) : Int → Nat × Nat
  | .ofNat e => (num, den * 2 ^ e)
  | .negSucc e => (num * 2 ^ (e + 1), den)

/-- The integer part of the binary logarithm of `num / den`, both positive. -/
def log2Quotient (num den : Nat) : Int :=
  let guess : Int := (num.log2 : Int) - (den.log2 : Int)
  let (n, d) := scaleDown num den guess
  if d ≤ n then guess else guess - 1

namespace Format

/-- The power of two that the last mantissa bit stands for when `num / den` is rounded. -/
def unitExponent (f : Format) (num den : Nat) : Int :=
  max f.minExponent (log2Quotient num den - f.fractionBits)

/-- The pattern nearest to `num / den`, ties to even.  The rounded mantissa is added to the
exponent field with its hidden bit, so that one that rounds up to a power of two carries into the
exponent by itself. -/
def nearest (f : Format) (num den : Nat) : Nat :=
  if num = 0 then 0
  else
    let e := f.unitExponent num den
    let (n, d) := scaleDown num den e
    let bits := (e - f.minExponent).toNat * 2 ^ f.fractionBits + roundHalfEven n d
    min bits f.infinity

/-- The exact value of a finite pattern, as a quotient. -/
def quotient (f : Format) (bits : Nat) : Nat × Nat :=
  match f.exponent bits with
  | .ofNat e => (f.mantissa bits * 2 ^ e, 1)
  | .negSucc e => (f.mantissa bits, 2 ^ (e + 1))

end Format

end FilterReference.Binary
