/-
# Resampling by a rational factor

A rate change by `up / down` interpolates `up` points per sample and then keeps every `down`-th one.

The interpolation grid covers the half-open range from the first to the last sample with a step of
`1 / up`, rounded to a double first.  Where the step was rounded down, the grid gains one point just
short of the last sample.  Grid points whose number is a multiple of `up` stand for input samples
and return them unchanged; the others lie on the line between their two neighbours.
-/
import FilterReference.Signal.Error

namespace FilterReference

open Binary

/-- Sampling factors, both at least one. -/
structure Factors where
  down : Nat
  up : Nat
  down_pos : 0 < down
  up_pos : 0 < up
deriving DecidableEq

namespace Factors

def make (down up : Nat) : Except SignalError Factors :=
  if h : 0 < down ∧ 0 < up then .ok ⟨down, up, h.1, h.2⟩
  else .error (.invalidResampling down up)

def identity : Factors := ⟨1, 1, Nat.one_pos, Nat.one_pos⟩

/-- The rate ratio `up / down`. -/
def ratio (f : Factors) : Float := ofCount f.up / ofCount f.down

/-- Neither factor changes the rate. -/
def isIdentity (f : Factors) : Bool := f.down == 1 && f.up == 1

/-- Whether the filter and decimation stages run: not for pure up-sampling, whose output is the
interpolated signal. -/
def filters (f : Factors) : Bool := decide (1 < f.down) || f.up == 1

end Factors

/-! ## The grid

The number of points and their places both come from the rounded step, so they fit each other, but
neither need be that of the exact grid. -/

/-- The distance of two grid points, in input samples. -/
def gridStep (up : Nat) : Float := 1 / ofCount up

/-- How many points the grid over `len` samples has. -/
def gridLength (len up : Nat) : Nat :=
  if up ≤ 1 ∨ len < 2 then len
  else ceilCount (ofCount (len - 1) / gridStep up)

/-- Where grid point `k` lies, in input samples. -/
def gridPosition (up k : Nat) : Float := ofCount k * gridStep up

/-- The input sample to the left of a position, such that there is one to its right. -/
def segmentOf (len : Nat) (position : Float) : Nat :=
  min (floorCount position) (len - 2)

/-! ## Interpolation

A point of the grid whose number is a multiple of the factor is looked up and not computed.  For the
others the segment is held within the signal, whatever the rounding of the position says. -/

def sampleAt (samples : Array Float) (index : Nat) : Except SignalError Float :=
  match samples[index]? with
  | some x => .ok x
  | none => .error (.missingSample index samples.size)

/-- The point `fraction` of the way from `lo` to `hi`. -/
def between (lo hi fraction : Float) : Float := lo + (hi - lo) * fraction

/-- The value of the signal at grid point `k`. -/
def gridValue (samples : Array Float) (up k : Nat) : Except SignalError Float :=
  if k % up = 0 then sampleAt samples (k / up)
  else do
    let position := gridPosition up k
    let i := segmentOf samples.size position
    let lo ← sampleAt samples i
    let hi ← sampleAt samples (i + 1)
    return between lo hi (position - ofCount i)

/-- Up-sampling by linear interpolation. -/
def upsample (signal : Signal) (up : Nat) : Except SignalError Signal :=
  if up = 0 then .error (.invalidResampling 1 0)
  else if up = 1 then .ok signal
  else if signal.length < 2 then .error (.insufficientSamples signal.length up)
  else if maxNumbers < gridLength signal.length up then .error .tooManyNumbers
  else (List.range (gridLength signal.length up)).mapM (gridValue signal.toArray up)

/-! ## Decimation -/

/-- Drops `skip` elements, keeps one, and goes on dropping `stride - 1` before each further one. -/
def everyFrom {α : Type} (stride : Nat) : Nat → List α → List α
  | _, [] => []
  | 0, x :: xs => x :: everyFrom stride (stride - 1) xs
  | skip + 1, _ :: xs => everyFrom stride skip xs

/-- The elements at the multiples of `stride`. -/
def decimate {α : Type} (stride : Nat) (xs : List α) : Except SignalError (List α) :=
  if stride = 0 then .error .zeroStride else .ok (everyFrom stride 0 xs)

end FilterReference
