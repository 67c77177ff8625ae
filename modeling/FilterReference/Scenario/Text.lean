/-
# Scenarios in TOML

The fields of a scenario and of a design, read from a table or array and written as lines.
-/
import FilterReference.Scenario.Resolution
import FilterReference.Toml.Printer

namespace FilterReference

open Toml

/-! ## Reading

As a table and as an array alike, only the name has to be there.  What was found is kept in `Fields`
until all is read: a default takes the place of a field that is absent and of no other. -/

namespace LowpassDesign

def step (d : LowpassDesign) (key : String) (v : Toml) : Except ShapeFault LowpassDesign := do
  if key = "taps" then return { d with taps := some (← readCount v) }
  else if key = "cutoff" then return { d with cutoff := some (← readFloat v) }
  else return d

def ofItems (vs : List Toml) : Except ShapeFault LowpassDesign := do
  let (taps, vs) ← nextItem? readCount vs
  let (cutoff, _) ← nextItem? readFloat vs
  return { taps, cutoff }

def ofToml : Toml → Except ShapeFault LowpassDesign := readGroup "FirDesign" {} step ofItems

end LowpassDesign

namespace Scenario

structure Fields where
  name : Option String := none
  down : Option Nat := none
  up : Option Nat := none
  isFir : Option Bool := none
  denominator : Option (List Float) := none
  numerator : Option (List Float) := none
  design : Option LowpassDesign := none

def Fields.step (s : Fields) (key : String) (v : Toml) : Except ShapeFault Fields := do
  if key = "name" then return { s with name := some (← readString wantedString v) }
  else if key = "down_sampling_factor" then return { s with down := some (← readCount v) }
  else if key = "up_sampling_factor" then return { s with up := some (← readCount v) }
  else if key = "is_fir" then return { s with isFir := some (← readBool v) }
  else if key = "a" then return { s with denominator := some (← readList readFloat v) }
  else if key = "b" then return { s with numerator := some (← readList readFloat v) }
  else if key = "design" then return { s with design := some (← LowpassDesign.ofToml v) }
  else return s

/-- The fields of the items of an array; only the name has to be there. -/
def Fields.ofItems (vs : List Toml) : Except ShapeFault Fields := do
  let (name, vs) ← nextItem? (readString wantedString) vs
  if name.isNone then
    .error (.wrongLength 0 (wantedStruct "ScenarioConfig" ++ " with 7 elements"))
  else
    let (down, vs) ← nextItem? readCount vs
    let (up, vs) ← nextItem? readCount vs
    let (isFir, vs) ← nextItem? readBool vs
    let (denominator, vs) ← nextItem? (readList readFloat) vs
    let (numerator, vs) ← nextItem? (readList readFloat) vs
    let (design, _) ← nextItem? LowpassDesign.ofToml vs
    return { name, down, up, isFir, denominator, numerator, design }

def Fields.toScenario (s : Fields) : Except ShapeFault Scenario :=
  match s.name with
  | none => .error (.missingField "name")
  | some name => .ok {
      name
      down := s.down.getD 1
      up := s.up.getD 1
      isFir := s.isFir
      denominator := s.denominator.getD [1]
      numerator := s.numerator
      design := s.design }

def ofToml (v : Toml) : Except ShapeFault Scenario := do
  (← readGroup "ScenarioConfig" {} Fields.step Fields.ofItems v).toScenario

def parse (s : String) : Except ManifestError Scenario :=
  match Toml.parse? s with
  | none => .error (.parse .malformed)
  | some entries =>
    match ofToml (.table entries) with
    | .ok c => .ok c
    | .error fault => .error (.parse (.shape fault))

end Scenario

/-! ## Writing -/

def LowpassDesign.lines (d : LowpassDesign) : List Char :=
  optionalLine "taps" countChars d.taps ++ optionalLine "cutoff" numbers.chars d.cutoff

namespace Scenario

/-- A header behind an empty line. -/
def headerLine (name : String) : List Char := '\n' :: '[' :: (name.toList ++ [']', '\n'])

/-- The lines of a scenario; a design is a table of the given name. -/
def lines (designName : String) (c : Scenario) : List Char :=
  line "name" (stringChars c.name.toList) ++
  line "down_sampling_factor" (countChars c.down) ++
  line "up_sampling_factor" (countChars c.up) ++
  optionalLine "is_fir" boolChars c.isFir ++
  line "a" (floatsChars c.denominator) ++
  optionalLine "b" floatsChars c.numerator ++
  (match c.design with
    | none => []
    | some d => headerLine designName ++ d.lines)

/-- All integers can be written. -/
def isWritable (c : Scenario) : Bool :=
  decide (c.down ≤ maxInteger) && decide (c.up ≤ maxInteger) &&
    match c.design with
    | some { taps := some taps, .. } => decide (taps ≤ maxInteger)
    | _ => true

def render (c : Scenario) : Except ManifestError String :=
  if c.isWritable then .ok (String.ofList (c.lines "design")) else .error .serialize

end Scenario

end FilterReference
