/-
# What can go wrong with a signal

The causes for which a resampling, a filter or a filter design is refused, and the wording of each.
Two of the faults at the end, `zeroStride` and `missingSample`, belong to operations that assume
something of their arguments; the pipeline always keeps what they assume.
-/
import FilterReference.Decimal.Layout

namespace FilterReference

-- Powers are those of the core library, whatever is imported beside it.
attribute [local instance (high)] instPowNat

/-- The two coefficient lists of a filter. -/
inductive Side where
  | denominator
  | numerator
deriving DecidableEq, Repr

def Side.letter : Side → String
  | .denominator => "a"
  | .numerator => "b"

inductive FilterFault where
  | emptyDenominator
  | emptyNumerator
  | zeroNormalization
  | nonFinite (side : Side) (index : Nat)
deriving DecidableEq, Repr

def FilterFault.message : FilterFault → String
  | .emptyDenominator => "denominator coefficients (a) are empty"
  | .emptyNumerator => "numerator coefficients (b) are empty"
  | .zeroNormalization => "normalization term a[0] must be non-zero"
  | .nonFinite side index => s!"coefficient {side.letter}[{index}] is not finite"

/-- Why tap count and cutoff make no low-pass design. -/
inductive DesignFault where
  | noTaps
  | cutoffOutOfRange (cutoff : Float)
deriving DecidableEq, Repr

def DesignFault.message : DesignFault → String
  | .noTaps => "number of taps must be at least 1"
  | .cutoffOutOfRange cutoff =>
    "cutoff " ++ Layout.plain.write cutoff ++ " must lie strictly between 0 and 1 (Nyquist)"

/-- Every reason for which a signal is not processed. -/
inductive SignalError where
  /-- Interpolation needs two samples. -/
  | insufficientSamples (len up : Nat)
  | invalidFilter (fault : FilterFault)
  /-- A sampling factor is zero. -/
  | invalidResampling (down up : Nat)
  | invalidDesign (fault : DesignFault)
  /-- Every zeroth sample was asked for. -/
  | zeroStride
  /-- A sample past the end was asked for. -/
  | missingSample (index len : Nat)
  /-- A list of more numbers than can be held was asked for. -/
  | tooManyNumbers
deriving DecidableEq, Repr

def SignalError.message : SignalError → String
  | .insufficientSamples len up =>
    s!"up-sampling by {up} needs at least 2 samples, got {len}"
  | .invalidFilter fault => "invalid filter specification: " ++ fault.message
  | .invalidResampling down up =>
    s!"invalid resampling factors (down = {down}, up = {up}): both must be >= 1"
  | .invalidDesign fault => "invalid filter design: " ++ fault.message
  | .zeroStride => "down-sampling factor must be >= 1"
  | .missingSample index len =>
    s!"index out of bounds: the len is {len} but the index is {index}"
  | .tooManyNumbers => "capacity overflow"

/-- How many numbers a list can hold: eight bytes each, in less than half of all that 64 bits can
address. -/
def maxNumbers : Nat := 2 ^ (60 : Nat) - 1

/-- Samples in order of time, equally spaced. -/
abbrev Signal := List Float

end FilterReference
