/-
# Requests

What the program can be asked to do, and how arguments ask for it.
-/
import FilterReference.Program.Arguments
import FilterReference.Scenario.Basic

namespace FilterReference

open Arguments

/-- Records for the scenarios of a manifest, or for the factory scenarios. -/
structure SuiteRequest where
  input : Option String
  manifest : Option String
  outputDirectory : Option String
  /-- The scenarios to run; all, if none is named. -/
  only : List String
deriving DecidableEq, Repr

/-- One record, for a scenario given by the arguments. -/
structure SingleRequest where
  input : String
  output : String
  down : Nat
  up : Nat
  denominator : Option (List Float)
  numerator : Option (List Float)
  design : LowpassDesign
  isFir : Option Bool
deriving DecidableEq, Repr

/-- A comparison of a signal with a record. -/
structure CompareRequest where
  reference : String
  candidate : String
  tolerance : Float
deriving DecidableEq, Repr

/-- Everything the program can be asked to do. -/
inductive Request where
  | suite (r : SuiteRequest)
  | single (r : SingleRequest)
  /-- Shows one factory scenario, or the list of all. -/
  | factory (name : Option String)
  | compare (r : CompareRequest)
  | info (path : String)
  | version
  | help
deriving DecidableEq, Repr

/-! ## Values

An option may be left out, and its value may be none that can be read.  Hence two options in the
results: the outer one is empty for the second case only. -/

def twoPaths? : List String → Option (String × String)
  | [p, q] => do return (← readPath? p, ← readPath? q)
  | _ => none

def optionalPath? : List String → Option (Option String)
  | [] => some none
  | [p] => (readPath? p).map some
  | _ => none

namespace Arguments.Sorted

def optional? {α : Type} (s : Sorted) (name : String) (read : String → Option α) :
    Option (Option α) :=
  match s.values name with
  | [] => some none
  | v :: _ => (read v).map some

def floats? (s : Sorted) (name : String) : Option (Option (List Float)) :=
  if s.has name then (readFloats? (s.values name)).map some else some none

/-- The truth value of an option that may stand by itself. -/
def truth? (s : Sorted) (name : String) : Option (Option Bool) :=
  if s.has name then
    match s.values name with
    | [] => some (some true)
    | v :: _ => (readTruth? v).map some
  else some none

end Arguments.Sorted

/-! ## Commands

A command has a form, by which its arguments are sorted, and a function that makes a request of
them.  Which options exclude each other is said there and not in the form, so it counts after
everything else. -/

namespace SuiteRequest

def form : CommandForm where
  positionals := [.path]
  options := [
    { name := "manifest", letter := some 'm', kind := .path },
    { name := "factory", arity := .none },
    { name := "output-dir", letter := some 'o', kind := .path },
    { name := "only", arity := .atLeastOne, repeats := true }]

def ofSorted? (s : Sorted) : Option SuiteRequest := do
  let input ← optionalPath? s.positionals
  let manifest ← s.optional? "manifest" readPath?
  let outputDirectory ← s.optional? "output-dir" readPath?
  if manifest.isSome && s.has "factory" then none
  else return { input, manifest, outputDirectory, only := s.values "only" }

end SuiteRequest

namespace SingleRequest

def form : CommandForm where
  positionals := [.path, .path]
  options := [
    { name := "down", kind := .count },
    { name := "up", kind := .count },
    { name := "b", kind := .numbers, repeats := true, negatives := true },
    { name := "taps", kind := .count },
    { name := "cutoff", kind := .number },
    { name := "a", kind := .numbers, repeats := true, negatives := true },
    { name := "fir", arity := .upToOne, kind := .truth }]

def ofSorted? (s : Sorted) : Option SingleRequest := do
  let (input, output) ← twoPaths? s.positionals
  let down ← s.optional? "down" readCount?
  let up ← s.optional? "up" readCount?
  let denominator ← s.floats? "a"
  let numerator ← s.floats? "b"
  let taps ← s.optional? "taps" readCount?
  let cutoff ← s.optional? "cutoff" (readFloat? ·.toList)
  let isFir ← s.truth? "fir"
  if numerator.isSome && (taps.isSome || cutoff.isSome) then none
  else return {
    input, output, down := down.getD 1, up := up.getD 1, denominator, numerator
    design := { taps, cutoff }, isFir }

end SingleRequest

namespace CompareRequest

def form : CommandForm where
  positionals := [.path, .path]
  options := [{ name := "tolerance", kind := .number }]

def defaultTolerance : Float := 1e-7

def ofSorted? (s : Sorted) : Option CompareRequest := do
  let (reference, candidate) ← twoPaths? s.positionals
  let tolerance ← s.optional? "tolerance" (readFloat? ·.toList)
  return { reference, candidate, tolerance := tolerance.getD defaultTolerance }

end CompareRequest

namespace Request

def factoryForm : CommandForm where
  positionals := [.text]

def ofFactoryArguments? (s : Sorted) : Option (Option String) :=
  match s.positionals with
  | [] => some none
  | [name] => some (some name)
  | _ => none

def infoForm : CommandForm where
  positionals := [.path]

def ofInfoArguments? (s : Sorted) : Option String :=
  match s.positionals with
  | [p] => readPath? p
  | _ => none

def ofCommand {α : Type} (form : CommandForm) (read : Sorted → Option α) (make : α → Request)
    (args : List String) : Except Refusal Request := do
  match read (← sort form args) with
  | some a => return make a
  | none => .error .misuse

/-- What is asked for without a command. -/
def ofLook : Look → Except Refusal Request
  | .long name none =>
    if String.ofList name = "version" then .ok .version
    else if String.ofList name = "help" then .ok .help
    else .error .misuse
  | .letters (c :: _) =>
    if c = 'V' then .ok .version else if c = 'h' then .ok .help else .error .misuse
  | _ => .error .misuse

def commandNames : List String := ["generate", "run", "scenarios", "compare", "info", "help"]

/-- What is asked for by the help command: the help of the program, or of one command. -/
def ofHelpArguments : List String → Except Refusal Request
  | [] => .ok .help
  | [name] => if commandNames.contains name then .ok .help else .error .misuse
  | _ => .error .misuse

def ofArguments : List String → Except Refusal Request
  | [] => .error .misuse
  | command :: args =>
    if command = "generate" then ofCommand SuiteRequest.form SuiteRequest.ofSorted? .suite args
    else if command = "run" then
      ofCommand SingleRequest.form SingleRequest.ofSorted? .single args
    else if command = "scenarios" then ofCommand factoryForm ofFactoryArguments? .factory args
    else if command = "compare" then
      ofCommand CompareRequest.form CompareRequest.ofSorted? .compare args
    else if command = "info" then ofCommand infoForm ofInfoArguments? .info args
    else if command = "help" then ofHelpArguments args
    else ofLook (look command.toList)

end Request

end FilterReference
