/-
# Doubles as signed patterns

The bridge between `Float` and the patterns of `Binary.Format`: sign and magnitude of a double,
the double nearest to an exact quotient, and the integer parts that index computations need.
Nothing here is machine arithmetic; all of it is decided on the bits.
-/
import FilterReference.Binary.Format

namespace FilterReference.Binary

-- Powers are those of the core library, whatever is imported beside it.
attribute [local instance (high)] instPowNat

/-- The sign bit, which zeros and not-a-numbers carry too. -/
def negative (x : Float) : Bool := 2 ^ (63 : Nat) ≤ x.toBits.toNat

/-- The pattern of a double without its sign bit. -/
def magnitude (x : Float) : Nat := x.toBits.toNat % 2 ^ (63 : Nat)

def isFinite (x : Float) : Bool := magnitude x < binary64.infinity

def isNaN (x : Float) : Bool := binary64.infinity < magnitude x

/-- The double of a sign and a magnitude pattern. -/
def ofParts (negative : Bool) (magnitude : Nat) : Float :=
  .ofBits (UInt64.ofNat (if negative then 2 ^ (63 : Nat) + magnitude else magnitude))

def infinity : Float := ofParts false binary64.infinity

def notANumber : Float := ofParts false binary64.notANumber

/-- The double nearest to `± num / den`. -/
def ofQuotient (negative : Bool) (num den : Nat) : Float :=
  ofParts negative (binary64.nearest num den)

/-- A count as a double, correctly rounded from `2 ^ 53` on. -/
def ofCount (n : Nat) : Float := n.toUInt64.toFloat

/-- The largest count a 64-bit word holds. -/
def maxCount : Nat := 2 ^ (64 : Nat) - 1

/-- A double as a count: fractions are cut off by `cut`, numbers below zero and not-a-numbers give
zero, and what is too large gives the largest count. -/
def toCount (cut : Nat → Nat → Nat) (x : Float) : Nat :=
  if negative x || isNaN x then 0
  else if magnitude x = binary64.infinity then maxCount
  else
    let (num, den) := binary64.quotient (magnitude x)
    min (cut num den) maxCount

/-- The largest count not above a double. -/
def floorCount (x : Float) : Nat := toCount (fun num den => num / den) x

/-- The smallest count not below a double. -/
def ceilCount (x : Float) : Nat := toCount (fun num den => (num + den - 1) / den) x

def abs (x : Float) : Float := ofParts false (magnitude x)

/-- The double of the same value as a single-precision pattern. -/
def ofSingle (bits : Nat) : Float :=
  let sign := decide (2 ^ (31 : Nat) ≤ bits)
  let m := bits % 2 ^ (31 : Nat)
  if binary32.infinity < m then notANumber
  else if m = binary32.infinity then ofParts sign binary64.infinity
  else
    let (num, den) := binary32.quotient m
    ofQuotient sign num den

/-- The single-precision pattern nearest to a double. -/
def toSingle (x : Float) : Nat :=
  let m :=
    if isNaN x then binary32.notANumber
    else if magnitude x = binary64.infinity then binary32.infinity
    else
      let (num, den) := binary64.quotient (magnitude x)
      binary32.nearest num den
  if negative x then 2 ^ (31 : Nat) + m else m

end FilterReference.Binary
