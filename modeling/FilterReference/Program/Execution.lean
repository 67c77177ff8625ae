/-
# Carrying out requests

What each request does with files, and what it prints.  A suite is planned as a whole before
anything is written: manifest, selection, signal and scenarios are settled first, then the output
directory is made, and then the records are written one after the other until one fails.
-/
import FilterReference.Program.Error
import FilterReference.Program.Request
import FilterReference.Scenario.Factory

namespace FilterReference

/-- What is printed, and why the command fails if it does. -/
structure Outcome where
  output : String := ""
  failure : Option ProgramError := none

namespace Outcome

def success (output : String) : Outcome := { output }

/-- The command fails before it prints anything. -/
def failed (e : ProgramError) : Outcome := { failure := some e }

/-- The outcome of something that may have failed. -/
def ofExcept : Except ProgramError String → Outcome
  | .ok output => success output
  | .error e => failed e

end Outcome

variable {m : Type → Type} [Monad m] [FileAccess m]

/-- Brings a failure into the errors of the program. -/
def liftError {ε α : Type} (wrap : ε → ProgramError) : Except ε α → Except ProgramError α
  | .ok a => .ok a
  | .error e => .error (wrap e)

/-! ## Suites

All that can be refused without writing anything is settled in a `Plan`.  What is left to fail is
making the directory, building a record, and writing its file. -/

/-- A suite that is ready to be run. -/
structure Plan where
  input : String
  signal : Signal
  outputDirectory : String
  jobs : List Job

/-- Keeps the named scenarios; all of them, if none is named. -/
def Manifest.selectNamed (manifest : Manifest) (names : List String) :
    Except ManifestError Manifest :=
  if names.isEmpty then .ok manifest else manifest.select names

namespace SuiteRequest

/-- The manifest of a suite, with the selected scenarios. -/
def selectedManifest (r : SuiteRequest) : m (Except ManifestError Manifest) := do
  match r.manifest with
  | none => return Factory.manifest.selectNamed r.only
  | some path =>
    match ← Manifest.load path with
    | .error e => return .error e
    | .ok manifest => return manifest.selectNamed r.only

def directory (r : SuiteRequest) (manifest : Manifest) : String :=
  (r.outputDirectory.or manifest.outputPath).getD "."

/-- Settles everything that can be settled before anything is written. -/
def plan [Trigonometry] (r : SuiteRequest) : m (Except ProgramError Plan) := do
  match ← r.selectedManifest with
  | .error e => return .error (.manifest e)
  | .ok manifest =>
    match r.input.or manifest.inputPath with
    | none => return .error .noInput
    | some input =>
      match ← Signal.load input with
      | .error e => return .error (.signal e)
      | .ok signal =>
        match manifest.resolve (r.directory manifest) with
        | .error e => return .error (.manifest e)
        | .ok jobs => return .ok { input, signal, outputDirectory := r.directory manifest, jobs }

end SuiteRequest

/-- Runs a job and writes its record. -/
def Job.run (j : Job) (signal : Signal) : m (Except ProgramError Record) := do
  match j.build signal with
  | .error e => return .error (.suiteScenario j.name e)
  | .ok record =>
    match ← record.write j.output with
    | .error e => return .error (.writeRecord e)
    | .ok () => return .ok record

/-- Runs jobs in order, up to the first that fails; each comes with its record. -/
def runJobs (signal : Signal) : List Job → m (Except ProgramError (List (Job × Record)))
  | [] => return .ok []
  | j :: rest => do
    match ← j.run signal with
    | .error e => return .error e
    | .ok record =>
      match ← runJobs signal rest with
      | .error e => return .error e
      | .ok done => return .ok ((j, record) :: done)

namespace Plan

/-- What is printed before the first job is run. -/
def heading (p : Plan) : String :=
  s!"Input:  {p.input} ({p.signal.length} samples)\n" ++
  s!"Output: {p.outputDirectory}\n" ++
  "\n"

def doneLine (j : Job) (record : Record) : String :=
  s!"  {Text.padRight nameWidth j.name} {familyName j.isFir} down={j.factors.down} " ++
    s!"up={j.factors.up} -> {record.samples.length} samples\n"

/-- What is printed when all jobs were run. -/
def closing (done : List (Job × Record)) : String :=
  s!"Wrote {done.length} reference record(s):\n" ++
    String.join (done.map fun (j, record) => doneLine j record)

/-- Makes the output directory and runs the jobs. -/
def run (p : Plan) : m Outcome := do
  match ← FileAccess.makeDirectories p.outputDirectory with
  | .error e => return .failed (.outputDirectory p.outputDirectory e)
  | .ok () =>
    match ← runJobs p.signal p.jobs with
    | .error e => return { output := p.heading, failure := some e }
    | .ok done => return .success (p.heading ++ closing done)

end Plan

def SuiteRequest.run [Trigonometry] (r : SuiteRequest) : m Outcome := do
  match ← r.plan with
  | .error e => return .failed e
  | .ok plan => plan.run

/-! ## Single scenarios

A single scenario goes the same way as those of a suite, but it has its name from the file it is
written to, and its record goes to the path that was given, whatever that name is. -/

namespace SingleRequest

/-- The scenario that the arguments spell out. -/
def scenario (r : SingleRequest) (name : String) : Scenario where
  name := name
  down := r.down
  up := r.up
  isFir := r.isFir
  denominator := r.denominator.getD [1]
  numerator := r.numerator
  design := if r.numerator.isSome then none else some r.design

/-- The scenario, resolved; its record goes to the very path that was given. -/
def job [Trigonometry] (r : SingleRequest) : Except ProgramError Job :=
  match Path.fileStem? r.output with
  | none => .error .noFileName
  | some name =>
    match (r.scenario name).resolve (Path.directory r.output) with
    | .error e => .error (.manifest e)
    | .ok j => .ok { j with output := r.output }

/-- What is printed when the record was written. -/
def closing (r : SingleRequest) (record : Record) : String :=
  s!"Wrote {record.samples.length} samples to {r.output} " ++
    s!"(down={record.down}, up={record.up}, {record.numerator.length} taps)\n"

/-- Runs a job on a signal and writes the record. -/
def runOn (r : SingleRequest) (j : Job) (signal : Signal) :
    m (Except ProgramError String) := do
  match j.build signal with
  | .error e => return .error (.pipeline e)
  | .ok record =>
    match ← record.write j.output with
    | .error e => return .error (.writeRecord e)
    | .ok () => return .ok (r.closing record)

/-- Resolves the scenario, loads the signal, and runs the job on it. -/
def run [Trigonometry] (r : SingleRequest) : m Outcome := do
  match r.job with
  | .error e => return .failed e
  | .ok j =>
    match ← Signal.load r.input with
    | .error e => return .failed (.signal e)
    | .ok signal => return .ofExcept (← r.runOn j signal)

end SingleRequest

/-! ## Looking at records and at factory scenarios

Nothing here writes.  A comparison prints what it has found before it fails, so that the deviation
can be seen also where it is too large. -/

namespace CompareRequest

/-- What is printed before the samples are compared. -/
def heading (r : CompareRequest) (record : Record) (candidate : Signal) : String :=
  s!"Reference: {r.reference} ({record.samples.length} samples)\n" ++
  s!"Candidate: {r.candidate} ({candidate.length} samples)\n"

def measured (r : CompareRequest) (largest : Deviation) : String :=
  "Max error: " ++ Layout.scientific.write largest.amount ++ s!" at sample {largest.index}\n" ++
  "Tolerance: " ++ Layout.scientific.write r.tolerance ++ "\n"

def outcome (r : CompareRequest) (heading : String) : Verdict → Outcome
  | .tooLong candidate reference =>
    { output := heading, failure := some (.tooLong candidate reference) }
  | .exceeds largest =>
    { output := heading ++ r.measured largest, failure := some (.exceeds largest r.tolerance) }
  | .passes largest => .success (heading ++ r.measured largest ++ "PASS\n")

/-- Loads record and candidate and compares them. -/
def run (r : CompareRequest) : m Outcome := do
  match ← Record.load r.reference with
  | .error e => return .failed (.readRecord e)
  | .ok record =>
    match ← Signal.load r.candidate with
    | .error e => return .failed (.signal e)
    | .ok candidate =>
      return r.outcome (r.heading record candidate) (record.compare candidate r.tolerance)

end CompareRequest

def showRecord (path : String) : m Outcome := do
  match ← Record.load path with
  | .error e => return .failed (.readRecord e)
  | .ok record =>
    match record.factors with
    | .error e => return .failed (.pipeline e)
    | .ok factors => return .success (record.summary factors path)

/-- Shows a factory scenario, or the list of all. -/
def showFactory : Option String → Outcome
  | none => .success Factory.listing
  | some name =>
    match Factory.find? name with
    | none => .failed (.manifest (.unknownScenario name))
    | some c => .ofExcept (liftError .manifest c.render)

/-! ## Requests

The exit code is 0 for success and for help that was asked for, 1 for a failure, and 2 for arguments
that make no request. -/

def versionLine : String := "refdata 0.1.0\n"

def usage : String :=
  "Usage: refdata <COMMAND>\n" ++
  "\n" ++
  "Commands:\n" ++
  "  generate   Generate reference records for a set of scenarios\n" ++
  "  run        Generate one reference record from command-line coefficients\n" ++
  "  scenarios  List built-in scenarios or print one as TOML\n" ++
  "  compare    Compare a filter output against a reference record\n" ++
  "  info       Show a summary of a reference record\n"

def Request.run [Trigonometry] : Request → m Outcome
  | .suite r => r.run
  | .single r => r.run
  | .factory name => return showFactory name
  | .compare r => r.run
  | .info path => showRecord path
  | .version => return .success versionLine
  | .help => return .success usage

/-- How the program ends: its exit code, and what it prints to both outputs. -/
structure Ending where
  code : Nat
  output : String
  complaint : String
deriving DecidableEq, Repr

def Outcome.ending (o : Outcome) : Ending :=
  match o.failure with
  | none => ⟨0, o.output, ""⟩
  | some e => ⟨1, o.output, e.report ++ "\n"⟩

def runProgram [Trigonometry] (args : List String) : m Ending := do
  match Request.ofArguments args with
  | .ok request => return (← request.run).ending
  | .error .help => return ⟨0, usage, ""⟩
  | .error .misuse => return ⟨2, "", usage⟩

end FilterReference
