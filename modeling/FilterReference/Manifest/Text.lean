/-
# Manifests in TOML

A manifest is a document with an optional `input`, an optional `output_dir`, and its scenarios as
tables `[[scenario]]`; other entries are ignored.  It is loaded from and saved to files.
-/
import FilterReference.Files.Access
import FilterReference.Manifest.Basic

namespace FilterReference

open Toml

namespace Manifest

def step (m : Manifest) (key : String) (v : Toml) : Except ShapeFault Manifest := do
  if key = "input" then return { m with input := some (← readString wantedPath v) }
  else if key = "output_dir" then
    return { m with outputDirectory := some (← readString wantedPath v) }
  else if key = "scenario" then
    return { m with scenarios := ← readList Scenario.ofToml v }
  else return m

def ofEntries (entries : List (String × Toml)) : Except ShapeFault Manifest :=
  entries.foldlM (fun m e => m.step e.1 e.2) {}

def parse (s : String) : Except ManifestError Manifest :=
  match Toml.parse? s with
  | none => .error (.parse .malformed)
  | some entries =>
    match ofEntries entries with
    | .ok m => .ok m
    | .error fault => .error (.parse (.shape fault))

def scenarioHeader : List Char := "[[scenario]]\n".toList

def pathLine (key : String) (path : Option String) : List Char :=
  optionalLine key (fun p : String => stringChars p.toList) path

/-- The lines of the scenarios; an empty line comes before every header but one that starts the
text. -/
def scenarioLines : Bool → List Scenario → List Char
  | _, [] => []
  | atStart, c :: rest =>
    (if atStart then [] else ['\n']) ++ scenarioHeader ++ c.lines "scenario.design" ++
      scenarioLines false rest

/-- The lines before the scenarios. -/
def headLines (m : Manifest) : List Char :=
  pathLine "input" m.input ++ pathLine "output_dir" m.outputDirectory

def chars (m : Manifest) : List Char :=
  m.headLines ++
    if m.scenarios.isEmpty then line "scenario" (arrayChars [])
    else scenarioLines m.headLines.isEmpty m.scenarios

def render (m : Manifest) : Except ManifestError String :=
  if m.scenarios.all (·.isWritable) then .ok (String.ofList m.chars) else .error .serialize

variable {f : Type → Type} [Monad f] [FileAccess f]

/-- Loads a manifest; its paths are seen from the directory of the file. -/
def load (path : String) : f (Except ManifestError Manifest) := do
  match ← readTextFile path with
  | .error e => return .error (.unreadable path e)
  | .ok text =>
    match parse text with
    | .error e => return .error e
    | .ok m => return .ok { m with base := Path.parent? path }

/-- Makes the directory of a file that is to be written, unless it is there. -/
def prepareDirectory (path : String) : f (Except ManifestError Unit) := do
  match Path.parent? path with
  | none => return .ok ()
  | some above =>
    if above = "" then return .ok ()
    else if ← FileAccess.isPresent above then return .ok ()
    else
      match ← FileAccess.makeDirectories above with
      | .error e => return .error (.notCreated above e)
      | .ok () => return .ok ()

/-- Saves a manifest, and makes the directory for it first. -/
def save (m : Manifest) (path : String) : f (Except ManifestError Unit) := do
  match ← prepareDirectory path with
  | .error e => return .error e
  | .ok () =>
    match m.render with
    | .error e => return .error e
    | .ok text =>
      match ← FileAccess.writeText path text with
      | .error e => return .error (.unwritable path e)
      | .ok () => return .ok ()

end Manifest

end FilterReference
