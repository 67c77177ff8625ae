/-
# Validation of scenarios

Validation looks for everything that is wrong, in a fixed order, before anything is run.
-/
import FilterReference.Scenario.Basic
import FilterReference.Text.Characters

namespace FilterReference

/-- What can be wrong with the fields of a scenario. -/
inductive ScenarioFault where
  | zeroDown
  | zeroUp
  | emptyDenominator
  | zeroNormalization
  | nonFiniteDenominator
  | twoNumerators
  | noNumerator
  | emptyNumerator
  | nonFiniteNumerator
  | noTaps
  | cutoffOutOfRange (cutoff : Float)
deriving DecidableEq, Repr

def ScenarioFault.message : ScenarioFault → String
  | .zeroDown => "down_sampling_factor must be at least 1"
  | .zeroUp => "up_sampling_factor must be at least 1"
  | .emptyDenominator => "'a' must not be empty"
  | .zeroNormalization => "a[0] must be non-zero"
  | .nonFiniteDenominator => "'a' contains a non-finite coefficient"
  | .twoNumerators => "both 'b' and 'design' are given"
  | .noNumerator => "one of 'b' or 'design' is required"
  | .emptyNumerator => "'b' must not be empty"
  | .nonFiniteNumerator => "'b' contains a non-finite coefficient"
  | .noTaps => "design taps must be at least 1"
  | .cutoffOutOfRange cutoff =>
    "design cutoff " ++ Layout.plain.write cutoff ++ " must lie in (0, 1)"

/-- One thing that is wrong with a manifest. -/
inductive Violation where
  | emptyManifest
  | duplicateName (name : String)
  | invalidName (name : String)
  | invalidScenario (scenario : String) (fault : ScenarioFault)
deriving DecidableEq, Repr

def Violation.message : Violation → String
  | .emptyManifest => "manifest contains no scenarios"
  | .duplicateName name => "duplicate scenario name: " ++ name
  | .invalidName name => s!"invalid scenario name '{name}': must be a non-empty file stem"
  | .invalidScenario scenario fault => s!"scenario '{scenario}': " ++ fault.message

/-- What a failed validation reports: one thing that is wrong, or several reports. -/
inductive Violations where
  | one (violation : Violation)
  | several (reports : List Violations)
deriving Repr

namespace Violations

mutual

def decEq : (v w : Violations) → Decidable (v = w)
  | one v, one w => decidable_of_iff (v = w) (by simp)
  | several vs, several ws =>
    have := decEqAll vs ws
    decidable_of_iff (vs = ws) (by simp)
  | one _, several _ | several _, one _ => isFalse nofun

def decEqAll : (vs ws : List Violations) → Decidable (vs = ws)
  | [], [] => isTrue rfl
  | v :: vs, w :: ws =>
    have := decEq v w
    have := decEqAll vs ws
    decidable_of_iff (v = w ∧ vs = ws) (by simp)
  | [], _ :: _ | _ :: _, [] => isFalse nofun

end

instance : DecidableEq Violations := decEq

mutual

/-- Everything that is wrong, in the order it was found. -/
def toList : Violations → List Violation
  | one v => [v]
  | several vs => toListAll vs

def toListAll : List Violations → List Violation
  | [] => []
  | v :: vs => v.toList ++ toListAll vs

end

def heading : String := "multiple validation errors: "

mutual

def message : Violations → String
  | one v => v.message
  | several vs => heading ++ "; ".intercalate (messages vs)

def messages : List Violations → List String
  | [] => []
  | v :: vs => v.message :: messages vs

end

/-- The reports that several are made of; a single one is its own. -/
def parts : Violations → List Violations
  | several vs => vs
  | one v => [one v]

/-- Fails if there are reports, with the only one as it is. -/
def ofList : List Violations → Except Violations Unit
  | [] => .ok ()
  | [v] => .error v
  | vs => .error (several vs)

def check (found : List Violation) : Except Violations Unit := ofList (found.map one)

end Violations

/-- A name that a file can have: one part of a path without control characters. -/
def isValidName (name : String) : Bool :=
  name != "" && name != "." && name != ".." &&
    !name.toList.any fun c => c == '/' || c == '\\' || Text.isControl c

namespace Scenario

def factorFaults (c : Scenario) : List ScenarioFault :=
  (if c.down = 0 then [.zeroDown] else []) ++ (if c.up = 0 then [.zeroUp] else [])

def denominatorFaults (c : Scenario) : List ScenarioFault :=
  (match c.denominator with
    | [] => [.emptyDenominator]
    | lead :: _ => if lead == 0 then [.zeroNormalization] else []) ++
  (if c.denominator.any (!Binary.isFinite ·) then [.nonFiniteDenominator] else [])

def coefficientFaults (numerator : List Float) : List ScenarioFault :=
  if numerator.isEmpty then [.emptyNumerator]
  else if numerator.any (!Binary.isFinite ·) then [.nonFiniteNumerator]
  else []

def cutoffFaults (cutoff : Float) : List ScenarioFault :=
  if 0 < cutoff ∧ cutoff < 1 then [] else [.cutoffOutOfRange cutoff]

def designFaults (d : LowpassDesign) : List ScenarioFault :=
  (if d.taps = some 0 then [.noTaps] else []) ++ (d.cutoff.map cutoffFaults).getD []

def numeratorFaults (c : Scenario) : List ScenarioFault :=
  match c.numerator, c.design with
  | some _, some _ => [.twoNumerators]
  | none, none => [.noNumerator]
  | some numerator, none => coefficientFaults numerator
  | none, some design => designFaults design

def violations (c : Scenario) : List Violation :=
  (if isValidName c.name then [] else [.invalidName c.name]) ++
    (c.factorFaults ++ c.denominatorFaults ++ c.numeratorFaults).map (.invalidScenario c.name)

def validate (c : Scenario) : Except Violations Unit := Violations.check c.violations

end Scenario

/-- What is wrong with scenarios that follow others with the given names. -/
def violationsAfter : List String → List Scenario → List Violation
  | _, [] => []
  | seen, c :: rest =>
    (if seen.contains c.name then [.duplicateName c.name] else []) ++ c.violations ++
      violationsAfter (c.name :: seen) rest

/-- Validates the scenarios of a manifest: there is one, names differ, and each is valid. -/
def validateAll (scenarios : List Scenario) : Except Violations Unit :=
  if scenarios.isEmpty then .error (.one .emptyManifest)
  else Violations.check (violationsAfter [] scenarios)

end FilterReference
