/-
# Loading a signal

A signal comes from a wave file with one channel if the name of the file says so, and from a text
file otherwise.  A file without samples is no signal.
-/
import FilterReference.Files.Access
import FilterReference.Files.Path
import FilterReference.Signal.Error
import FilterReference.Signal.Text
import FilterReference.Signal.Wave

namespace FilterReference

inductive SignalFault where
  | cannotOpen (e : FileError)
  | cannotReadText (e : FileError)
  | sample (fault : SampleFault)
  | cannotReadWave (e : FileError)
  | waveHeader (fault : Wave.Fault)
  | channels (count : Nat)
  | waveSamples (fault : Wave.Fault)
  | noSamples
deriving DecidableEq, Repr

def SignalFault.message : SignalFault → String
  | .cannotOpen e => "cannot open file: " ++ e.message
  | .cannotReadText e => "row 1: " ++ e.message
  | .sample fault => fault.message
  | .cannotReadWave e => "cannot read WAV: " ++ e.message
  | .waveHeader fault => "cannot read WAV: " ++ fault.message
  | .channels count => s!"expected a mono WAV file, found {count} channels"
  | .waveSamples fault => "cannot read WAV samples: " ++ fault.message
  | .noSamples => "file contains no samples"

structure MalformedInput where
  path : String
  fault : SignalFault
deriving DecidableEq, Repr

def MalformedInput.message (e : MalformedInput) : String :=
  s!"malformed input '{e.path}': " ++ e.fault.message

namespace Signal

/-- The name of the file is that of a wave file. -/
def isWaveName (path : String) : Bool :=
  match Path.extension? path with
  | some e => e.toLower == "wav"
  | none => false

def ofTextFile (opened : Except FileError Opened) : Except SignalFault (List Float) :=
  match opened with
  | .error e => .error (.cannotOpen e)
  | .ok file =>
    match file.read with
    | .error e => .error (.cannotReadText e)
    | .ok content =>
      match Samples.ofText content with
      | .error fault => .error (.sample fault)
      | .ok xs => .ok xs

def ofWaveBytes (bytes : List UInt8) : Except SignalFault (List Float) :=
  match Wave.openBytes bytes with
  | .error fault => .error (.waveHeader fault)
  | .ok (format, count, rest) =>
    if format.channels ≠ 1 then .error (.channels format.channels)
    else
      match Wave.takeSamples format count rest with
      | .error fault => .error (.waveSamples fault)
      | .ok xs => .ok xs

def ofWaveFile (opened : Except FileError Opened) : Except SignalFault (List Float) :=
  match opened with
  | .error e => .error (.cannotReadWave e)
  | .ok file =>
    match file.read with
    | .error e => .error (.cannotReadWave e)
    | .ok content => ofWaveBytes content.toList

def ofOpened (path : String) (opened : Except FileError Opened) :
    Except MalformedInput Signal :=
  match if isWaveName path then ofWaveFile opened else ofTextFile opened with
  | .error fault => .error ⟨path, fault⟩
  | .ok [] => .error ⟨path, .noSamples⟩
  | .ok xs => .ok xs

def load {m : Type → Type} [Monad m] [FileAccess m] (path : String) :
    m (Except MalformedInput Signal) := do
  return ofOpened path (← FileAccess.openPath path)

end Signal

end FilterReference
