/-
# Comparing a signal with a record

A candidate passes when it is no longer than the recorded signal and at no sample deviates from it
by more than a tolerance.  The report names the largest deviation and where it first occurs.
-/
import FilterReference.Record.Basic

namespace FilterReference

open Binary

/-- The distance of two samples; one that is not a number counts as infinite. -/
def deviation (expected actual : Float) : Float :=
  let d := abs (expected - actual)
  if isNaN d then infinity else d

/-- A deviation and the number of the sample where it occurs. -/
structure Deviation where
  index : Nat := 0
  amount : Float := 0
deriving DecidableEq, Repr

/-- Takes a deviation if it is larger than the largest so far. -/
def Deviation.larger (best : Deviation) (index : Nat) (amount : Float) : Deviation :=
  if best.amount < amount then ⟨index, amount⟩ else best

/-- The largest of several deviations, the first of which occurs at sample `index`, and of the
largest before them. -/
def largestFrom : Nat → Deviation → List Float → Deviation
  | _, best, [] => best
  | index, best, d :: ds => largestFrom (index + 1) (best.larger index d) ds

/-- The largest deviation over the common part of two signals, and the first sample where it
occurs. -/
def largestDeviation (expected actual : List Float) : Deviation :=
  largestFrom 0 {} (List.zipWith deviation expected actual)

/-- What comes of a comparison. -/
inductive Verdict where
  /-- The candidate has more samples than the reference. -/
  | tooLong (candidate reference : Nat)
  | exceeds (largest : Deviation)
  | passes (largest : Deviation)
deriving DecidableEq, Repr

/-- Compares a candidate with the recorded signal. -/
def Record.compare (r : Record) (candidate : Signal) (tolerance : Float) : Verdict :=
  if r.samples.length < candidate.length then .tooLong candidate.length r.samples.length
  else
    let largest := largestDeviation r.samples candidate
    if tolerance < largest.amount then .exceeds largest else .passes largest

end FilterReference
