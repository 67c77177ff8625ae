/-
# Scenarios

A scenario names one choice of sampling factors and filter, to be run on the common signal.  It may
leave things out and may be wrong.  A `Job` is what resolving a scenario yields: checked factors, a
checked filter, and the path of the file its record goes to.
-/
import FilterReference.Files.Path
import FilterReference.Record.Basic
import FilterReference.Signal.Lowpass

namespace FilterReference

/-- A low-pass design in place of a numerator; what is left out takes its default. -/
structure LowpassDesign where
  taps : Option Nat := none
  cutoff : Option Float := none
deriving DecidableEq, Repr

/-- A scenario, as a manifest or the command line spells it out. -/
structure Scenario where
  name : String
  down : Nat := 1
  up : Nat := 1
  isFir : Option Bool := none
  denominator : List Float := [1]
  numerator : Option (List Float) := none
  design : Option LowpassDesign := none
deriving DecidableEq, Repr

namespace Scenario

/-- The scenario that passes the signal through. -/
def passThrough (name : String) : Scenario := { name, numerator := some [1] }

/-- With a numerator, which replaces a design. -/
def withNumerator (c : Scenario) (numerator : List Float) : Scenario :=
  { c with numerator := some numerator, design := none }

/-- With a design, which replaces a numerator. -/
def withDesign (c : Scenario) (design : LowpassDesign) : Scenario :=
  { c with design := some design, numerator := none }

/-- The name of the file that the record goes to. -/
def fileName (c : Scenario) : String := c.name ++ ".json"

/-- The filter flag: where it is not given, whether there is no feedback. -/
def flag (c : Scenario) : Bool := c.isFir.getD (c.denominator.length == 1)

end Scenario

/-- A scenario that is ready to be run. -/
structure Job where
  name : String
  factors : Factors
  filter : Filter
  isFir : Bool
  output : String

/-- Runs a job on a signal; the record comes with the reports of the stages. -/
def Job.buildTraced (j : Job) (signal : Signal) :
    Except SignalError (Record × List StageEvent) :=
  Record.buildTraced signal j.factors j.filter j.isFir

def Job.build (j : Job) (signal : Signal) : Except SignalError Record :=
  Record.build signal j.factors j.filter j.isFir

end FilterReference
