/-
# Manifests

A manifest lists scenarios, and may name the signal they are run on and the directory their records
go to.  Relative paths in a manifest that was loaded from a file are seen from the directory of that
file.
-/
import FilterReference.Scenario.Factory
import FilterReference.Scenario.Text

namespace FilterReference

/-- A list of scenarios with optional paths. -/
structure Manifest where
  input : Option String := none
  outputDirectory : Option String := none
  scenarios : List Scenario := []
  /-- The directory of the file it was loaded from. -/
  base : Option String := none
deriving DecidableEq, Repr

namespace Manifest

/-- A path in a manifest, seen from the working directory. -/
def resolvePath (m : Manifest) (path : String) : String :=
  match m.base with
  | some base => Path.join base path
  | none => path

def inputPath (m : Manifest) : Option String := m.input.map m.resolvePath

def outputPath (m : Manifest) : Option String := m.outputDirectory.map m.resolvePath

def get? (m : Manifest) (name : String) : Option Scenario :=
  m.scenarios.find? (·.name = name)

/-- Keeps the scenarios with the given names, in the order of the manifest.  The first name that no
scenario has is an error. -/
def select (m : Manifest) (names : List String) : Except ManifestError Manifest :=
  match names.find? fun n => !m.scenarios.any (·.name = n) with
  | some missing => .error (.unknownScenario missing)
  | none => .ok { m with scenarios := m.scenarios.filter fun c => names.contains c.name }

def validate (m : Manifest) : Except Violations Unit := validateAll m.scenarios

def resolveWarned [Trigonometry] (m : Manifest) (directory : String) :
    Except ManifestError (List Job × List FlagWarning) :=
  match m.validate with
  | .error violations => .error (.invalid violations)
  | .ok () => resolveEach directory m.scenarios

/-- Validates and resolves all scenarios. -/
def resolve [Trigonometry] (m : Manifest) (directory : String) : Except ManifestError (List Job) :=
  (·.1) <$> m.resolveWarned directory

end Manifest

def Factory.manifest : Manifest := { scenarios := Factory.scenarios }

end FilterReference
