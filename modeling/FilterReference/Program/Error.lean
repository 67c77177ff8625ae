/-
# Errors of the program

Every reason for which a command fails.  It is reported by a message and, where another failure is
behind it, by the text of that failure.
-/
import FilterReference.Manifest.Text
import FilterReference.Record.Comparison
import FilterReference.Record.File
import FilterReference.Signal.Loading

namespace FilterReference

/-- Why a command fails. -/
inductive ProgramError where
  | signal (e : MalformedInput)
  | manifest (e : ManifestError)
  | readRecord (e : RecordReadError)
  | writeRecord (e : RecordWriteError)
  | noInput
  | outputDirectory (path : String) (e : FileError)
  /-- A scenario of a suite cannot be run. -/
  | suiteScenario (name : String) (e : SignalError)
  /-- A single scenario cannot be run. -/
  | pipeline (e : SignalError)
  | noFileName
  /-- A comparison is not passed. -/
  | tooLong (candidate reference : Nat)
  | exceeds (largest : Deviation) (tolerance : Float)

def ManifestError.cause? : ManifestError → Option String
  | .unreadable _ e | .unwritable _ e | .notCreated _ e => some e.message
  | .invalid violations => some violations.message
  | .scenario _ e => some e.message
  | .parse _ | .serialize | .unknownScenario _ => none

def RecordReadError.message : RecordReadError → String
  | .file path e => s!"I/O error on '{path}': " ++ e.message
  | .text path (.json _) => s!"JSON error in '{path}'"
  | .text _ (.signal e) => e.message

def RecordReadError.cause? : RecordReadError → Option String
  | .file _ e => some e.message
  | .text _ _ => none

/-- Failures of these steps name the temporary file in their own text and have none behind them. -/
def ReplaceStep.namesFile : ReplaceStep → Bool
  | .creation | .content => true
  | .permissions | .sync | .move => false

def RecordWriteError.cause? : RecordWriteError → Option String
  | .replace _ e => if e.step.namesFile then none else some e.cause.message
  | .nonFinite _ => none

namespace ProgramError

def message : ProgramError → String
  | .signal e => e.message
  | .manifest e => e.message
  | .readRecord e => e.message
  | .writeRecord e => e.message
  | .noInput => "no input signal given: pass INPUT or set 'input' in the manifest"
  | .outputDirectory path _ => s!"failed to create '{path}'"
  | .suiteScenario name _ => s!"scenario '{name}'"
  | .pipeline e => e.message
  | .noFileName => "output path has no file name"
  | .tooLong candidate reference =>
    s!"candidate has {candidate} samples but the reference only has {reference}"
  | .exceeds largest tolerance =>
    "max error " ++ Layout.scientific.write largest.amount ++ s!" at sample {largest.index} " ++
      "exceeds tolerance " ++ Layout.scientific.write tolerance

def cause? : ProgramError → Option String
  | .manifest e => e.cause?
  | .readRecord e => e.cause?
  | .writeRecord e => e.cause?
  | .outputDirectory _ e => some e.message
  | .suiteScenario _ e => some e.message
  | .signal _ | .noInput | .pipeline _ | .noFileName | .tooLong _ _ | .exceeds _ _ => none

/-- The characters of a text, with four blanks before each of its lines. -/
def indent (cs : List Char) : List Char :=
  "    ".toList ++ cs.flatMap fun c => if c = '\n' then '\n' :: "    ".toList else [c]

/-- What the program prints of an error. -/
def report (e : ProgramError) : String :=
  "Error: " ++ e.message ++
    match e.cause? with
    | some cause => "\n\nCaused by:\n" ++ String.ofList (indent cause.toList)
    | none => ""

end ProgramError

end FilterReference
