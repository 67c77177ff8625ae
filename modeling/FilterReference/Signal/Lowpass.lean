/-
# Low-pass design by the window method

The taps of a linear-phase low-pass filter are an ideal impulse response under a Hamming window,
scaled to sum one:

    m[n] = n - (N - 1) / 2
    h[n] = fc * sinc(fc * m[n]) * (0.54 - 0.46 * cos(2*pi*n / (N - 1)))

with the cutoff `fc` relative to the Nyquist frequency.  The formulas are written once, over any
numbers with a circle constant, a sine and a cosine; designs are computed with doubles.
-/
import FilterReference.Signal.Resampling

namespace FilterReference

open Binary

/-- A sine and a cosine on doubles, in radians. -/
class Trigonometry where
  sin : Float → Float
  cos : Float → Float

/-- Those of the machine. -/
instance : Trigonometry where
  sin := Float.sin
  cos := Float.cos

/-- What a number type needs for the window method beside its arithmetic. -/
structure Circular (α : Type) where
  ofCount : Nat → α
  pi : α
  sin : α → α
  cos : α → α

namespace Lowpass

section Formulas

variable {α : Type} [Add α] [Sub α] [Mul α] [Div α] [Neg α] [OfNat α 0] [OfNat α 1]
  [OfScientific α] [BEq α]

/-- `sin (pi x) / (pi x)`, continued at zero. -/
def sinc (c : Circular α) (x : α) : α :=
  if x == 0 then 1 else c.sin (c.pi * x) / (c.pi * x)

/-- Point `n` of the symmetric Hamming window of `len` points. -/
def hamming (c : Circular α) (n len : Nat) : α :=
  if len = 1 then 1
  else 0.54 - 0.46 * c.cos (2.0 * c.pi * c.ofCount n / c.ofCount (len - 1))

/-- Tap `n` of `len`, before scaling. -/
def windowed (c : Circular α) (cutoff : α) (len n : Nat) : α :=
  let m := c.ofCount n - 0.5 * c.ofCount (len - 1)
  cutoff * sinc c (cutoff * m) * hamming c n len

def response (c : Circular α) (cutoff : α) (len : Nat) : List α :=
  (List.range len).map (windowed c cutoff len)

/-- The taps, divided by their sum. -/
def taps (c : Circular α) (cutoff : α) (len : Nat) : List α :=
  let hs := response c cutoff len
  let gain := hs.foldl (· + ·) (-0)
  hs.map (· / gain)

end Formulas

/-! ## Designs

With doubles, sine and cosine are not of this project: a `Trigonometry` stands for whatever library
computes them. -/

/-- The window method with doubles. -/
def floatCircular [Trigonometry] : Circular Float where
  ofCount := ofCount
  pi := 3.141592653589793
  sin := Trigonometry.sin
  cos := Trigonometry.cos

/-- The first reason why a tap count and a cutoff make no design. -/
def designFault? (count : Nat) (cutoff : Float) : Option DesignFault :=
  if count = 0 then some .noTaps
  else if 0 < cutoff ∧ cutoff < 1 then none
  else some (.cutoffOutOfRange cutoff)

/-- Designs `count` taps for a cutoff strictly between zero and one. -/
def design [Trigonometry] (count : Nat) (cutoff : Float) : Except SignalError (List Float) :=
  match designFault? count cutoff with
  | some fault => .error (.invalidDesign fault)
  | none =>
    if maxNumbers < count then .error .tooManyNumbers
    else .ok (taps floatCircular cutoff count)

/-- How many taps a design has that does not say. -/
def defaultTaps : Nat := 30

/-- The cutoff of a design that does not say: the rate ratio. -/
def defaultCutoff (f : Factors) : Float := f.ratio

end Lowpass

end FilterReference
