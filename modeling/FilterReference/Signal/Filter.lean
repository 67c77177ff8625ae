/-
# Linear filters

A filter with numerator `b` and denominator `a` answers the input `x` with the solution `y` of

    a[0]*y[n] = b[0]*x[n] + b[1]*x[n-1] + …  -  a[1]*y[n-1] - a[2]*y[n-2] - …

where everything before the first sample is zero.  `respond` computes it sample by sample, over any
numbers with the four operations, from the inputs and outputs so far, latest first.  A filter
without feedback is a convolution, which `convolve` computes directly.
-/
import FilterReference.Signal.Error

namespace FilterReference

open Binary

section Response

variable {α : Type} [Add α] [Sub α] [Mul α] [Div α] [OfNat α 0] [OfNat α 1] [BEq α]

/-- Combines `acc` with the products of coefficients and history, in order, as long as there are
both. -/
def accumulate (combine : α → α → α) : α → List α → List α → α
  | acc, c :: cs, h :: hs => accumulate combine (combine acc (c * h)) cs hs
  | acc, _, _ => acc

/-- The output that follows the given histories; division by a leading coefficient of one is left
out. -/
def nextOutput (lead : α) (feedback forward inputs outputs : List α) : α :=
  let fed := accumulate (· + ·) 0 forward inputs
  let acc := accumulate (· - ·) fed feedback outputs
  if lead == 1 then acc else acc / lead

/-- The outputs for the inputs still to come, after the given histories. -/
def respondFrom (lead : α) (feedback forward : List α) : List α → List α → List α → List α
  | _, _, [] => []
  | inputs, outputs, x :: xs =>
    let y := nextOutput lead feedback forward (x :: inputs) outputs
    y :: respondFrom lead feedback forward (x :: inputs) (y :: outputs) xs

/-- The response to an input from rest. -/
def respond (denominator numerator : List α) (xs : List α) : List α :=
  match denominator with
  | [] => []
  | lead :: feedback => respondFrom lead feedback numerator [] [] xs

end Response

/-- The first `xs.length` terms of the full convolution of `taps` and `xs`: sums over the tap
index, each begun at the neutral `-0.0`. -/
def convolve (taps xs : List Float) : List Float :=
  let samples := xs.toArray
  (List.range xs.length).map fun n =>
    ((taps.zipIdx.filter (·.2 ≤ n)).map fun (tap, i) => tap * samples.getD (n - i) 0).foldl
      (· + ·) (-0)

/-! ## Checked coefficients

A `Filter` carries the proof that its lists have no fault, whichever way it was made.  So the
division by the first coefficient is right in every response, and nobody has to look at the lists
again. -/

/-- Where the first coefficient stands that is infinite or not a number. -/
def firstNonFinite? (xs : List Float) : Option Nat :=
  xs.findIdx? (!isFinite ·)

/-- The first reason why two coefficient lists make no filter. -/
def filterFault? (denominator numerator : List Float) : Option FilterFault :=
  match denominator with
  | [] => some .emptyDenominator
  | lead :: _ =>
    if numerator.isEmpty then some .emptyNumerator
    else if lead == 0 then some .zeroNormalization
    else
      match firstNonFinite? denominator with
      | some i => some (.nonFinite .denominator i)
      | none => (firstNonFinite? numerator).map (.nonFinite .numerator)

/-- A filter: coefficient lists without a fault. -/
structure Filter where
  denominator : List Float
  numerator : List Float
  faultless : filterFault? denominator numerator = none

namespace Filter

def make (denominator numerator : List Float) : Except SignalError Filter :=
  match h : filterFault? denominator numerator with
  | some fault => .error (.invalidFilter fault)
  | none => .ok ⟨denominator, numerator, h⟩

def fir (taps : List Float) : Except SignalError Filter := make [1] taps

def identity : Filter := ⟨[1], [1], by decide +kernel⟩

def isFir (f : Filter) : Bool := f.denominator.length == 1

/-- The response of the filter in double arithmetic. -/
def apply (f : Filter) (xs : Signal) : Signal := respond f.denominator f.numerator xs

end Filter

end FilterReference
