/-
# Resolution of scenarios

A scenario is validated, its numerator designed if need be, and its factors and filter
checked.
-/
import FilterReference.Files.Access
import FilterReference.Scenario.Validation
import FilterReference.Toml.Reading

namespace FilterReference

inductive ManifestError where
  | unreadable (path : String) (cause : FileError)
  | unwritable (path : String) (cause : FileError)
  | notCreated (path : String) (cause : FileError)
  | parse (cause : Toml.ReadError)
  /-- An integer is too large to be written. -/
  | serialize
  | invalid (violations : Violations)
  /-- Factors, coefficients or design of a scenario are refused. -/
  | scenario (name : String) (cause : SignalError)
  | unknownScenario (name : String)
deriving DecidableEq

/-- The text of a TOML error, where the shape is at fault. -/
def Toml.ReadError.message? : Toml.ReadError → Option String
  | .malformed => none
  | .shape fault => some (fault.message citedNumbers.write)

def ManifestError.message : ManifestError → String
  | .unreadable path cause => s!"failed to read file '{path}': " ++ cause.message
  | .unwritable path cause => s!"failed to write file '{path}': " ++ cause.message
  | .notCreated path cause => s!"failed to create directory '{path}': " ++ cause.message
  | .parse _ => "failed to parse TOML"
  | .serialize => "failed to serialize TOML"
  | .invalid violations => "validation failed: " ++ violations.message
  | .scenario name cause => s!"scenario '{name}': " ++ cause.message
  | .unknownScenario name => "scenario not found: " ++ name

/-- A filter flag that does not agree with the coefficients of a scenario. -/
structure FlagWarning where
  scenario : String
  isFir : Bool
  denominatorLength : Nat
deriving DecidableEq, Repr

namespace Scenario

/-- An error of the scenario's own. -/
def fail {α : Type} (c : Scenario) (cause : SignalError) : Except ManifestError α :=
  .error (.scenario c.name cause)

/-- A fault of the scenario's own. -/
def refuse {α : Type} (c : Scenario) (fault : ScenarioFault) : Except ManifestError α :=
  .error (.invalid (.one (.invalidScenario c.name fault)))

/-- The numerator, designed for the given factors where it is not given. -/
def resolveNumerator [Trigonometry] (c : Scenario) (factors : Factors) :
    Except ManifestError (List Float) :=
  match c.numerator, c.design with
  | some numerator, none => .ok numerator
  | none, some d =>
    match Lowpass.design (d.taps.getD Lowpass.defaultTaps)
        (d.cutoff.getD (Lowpass.defaultCutoff factors)) with
    | .ok taps => .ok taps
    | .error e => c.fail e
  | some _, some _ => c.refuse .twoNumerators
  | none, none => c.refuse .noNumerator

/-- Resolves a scenario that writes into a directory, and warns of a flag that does not fit. -/
def resolveWarned [Trigonometry] (c : Scenario) (directory : String) :
    Except ManifestError (Job × List FlagWarning) :=
  match c.validate with
  | .error violations => .error (.invalid violations)
  | .ok () =>
    match Factors.make c.down c.up with
    | .error e => c.fail e
    | .ok factors => do
      let numerator ← c.resolveNumerator factors
      match Filter.make c.denominator numerator with
      | .error e => c.fail e
      | .ok filter =>
        let warnings :=
          if c.flag = filter.isFir then []
          else [⟨c.name, c.flag, filter.denominator.length⟩]
        return ({
          name := c.name
          factors
          filter
          isFir := c.flag
          output := Path.join directory c.fileName }, warnings)

/-- Resolves a scenario that writes into a directory. -/
def resolve [Trigonometry] (c : Scenario) (directory : String) : Except ManifestError Job :=
  (·.1) <$> c.resolveWarned directory

end Scenario

def resolveEach [Trigonometry] (directory : String) :
    List Scenario → Except ManifestError (List Job × List FlagWarning)
  | [] => .ok ([], [])
  | c :: rest => do
    let (job, warnings) ← c.resolveWarned directory
    let (jobs, others) ← resolveEach directory rest
    return (job :: jobs, warnings ++ others)

end FilterReference
