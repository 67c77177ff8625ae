/-
# Reference records

A record is the expected output of a scenario together with the configuration that produced it.
The flag `isFir` is the one given by the scenario; it need not agree with the coefficients.  A
record is data: the factors and coefficients in it are checked when it is used.
-/
import FilterReference.Signal.Pipeline

namespace FilterReference

/-- Configuration and expected output of one scenario. -/
structure Record where
  down : Nat
  up : Nat
  denominator : List Float
  numerator : List Float
  isFir : Bool
  samples : List Float
deriving BEq, DecidableEq, Repr

namespace Record

/-- The sampling factors, checked. -/
def factors (r : Record) : Except SignalError Factors := Factors.make r.down r.up

def filter (r : Record) : Except SignalError Filter := Filter.make r.denominator r.numerator

/-- The record of a configuration and an output. -/
def ofRun (factors : Factors) (filter : Filter) (isFir : Bool) (output : Signal) : Record where
  down := factors.down
  up := factors.up
  denominator := filter.denominator
  numerator := filter.numerator
  isFir := isFir
  samples := output

/-- Runs the pipeline; the record comes with the reports of the stages. -/
def buildTraced (signal : Signal) (factors : Factors) (filter : Filter) (isFir : Bool) :
    Except SignalError (Record × List StageEvent) := do
  let run ← runPipeline signal factors filter
  return (ofRun factors filter isFir run.output, run.events)

/-- Runs the pipeline and records its output. -/
def build (signal : Signal) (factors : Factors) (filter : Filter) (isFir : Bool) :
    Except SignalError Record :=
  ofRun factors filter isFir <$> referenceOutput signal factors filter

end Record

end FilterReference
