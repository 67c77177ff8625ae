/-
# Wave files

A wave file is a sequence of chunks behind a header.  A format chunk says how samples are stored;
the data chunk ends the header and holds the samples.  Stored are integers of 8 to 32 bits, of which
those of 8 bits are offset by 128, or single-precision numbers.  An integer sample `v` of `n` bits
stands for `v / 2 ^ (n - 1)`.
-/
import FilterReference.Binary.Double

namespace FilterReference

-- Powers are those of the core library, whatever is imported beside it.
attribute [local instance (high)] instPowNat

namespace Wave

inductive HeaderFault where
  | noRiffTag
  | noWaveTag
  | shortFormat
  | zeroChannels
  | bitsExceedContainer
  | inconsistentRate
  | partialBytes
  | zeroBits
  | formatSize
  | extendedIntegerBits
  | extendedFloatSize
  | floatBits
  | extensibleSize
  | missingFormat
  | partialSample
  | partialFrame
deriving DecidableEq, Repr

def HeaderFault.message : HeaderFault → String
  | .noRiffTag => "no RIFF tag found"
  | .noWaveTag => "no WAVE tag found"
  | .shortFormat => "invalid fmt chunk size"
  | .zeroChannels => "file contains zero channels"
  | .bitsExceedContainer => "sample bits exceeds size of sample"
  | .inconsistentRate => "inconsistent fmt chunk"
  | .partialBytes => "bits per sample is not a multiple of 8"
  | .zeroBits => "bits per sample is 0"
  | .formatSize => "unexpected fmt chunk size"
  | .extendedIntegerBits => "bits per sample is not 8 or 16"
  | .extendedFloatSize => "unexpected WAVEFORMATEX size"
  | .floatBits => "bits per sample is not 32"
  | .extensibleSize => "unexpected WAVEFORMATEXTENSIBLE size"
  | .missingFormat => "missing fmt chunk"
  | .partialSample => "data chunk length is not a multiple of sample size"
  | .partialFrame => "invalid data chunk length"

inductive Fault where
  /-- The file ends too early. -/
  | cutOff
  | header (fault : HeaderFault)
  /-- A way of storing samples that is not read. -/
  | unsupported
  /-- Samples of more than four bytes. -/
  | tooWide
deriving DecidableEq, Repr

def Fault.message : Fault → String
  | .cutOff => "Failed to read enough bytes."
  | .header fault => "Ill-formed WAVE file: " ++ fault.message
  | .unsupported => "The wave format of the file is not supported."
  | .tooWide => "The sample has more bits than the destination type."

inductive Encoding where
  | integer
  | single
deriving DecidableEq, Repr

/-- What a format chunk says. -/
structure Format where
  channels : Nat
  bits : Nat
  /-- Bytes that one sample takes. -/
  container : Nat
  encoding : Encoding
deriving DecidableEq, Repr

/-! ## Bytes -/

/-- The number that some bytes stand for, least significant first. -/
def littleEndian : List UInt8 → Nat
  | [] => 0
  | b :: rest => b.toNat + 256 * littleEndian rest

def takeBytes (n : Nat) (bytes : List UInt8) : Except Fault (List UInt8 × List UInt8) :=
  let (taken, rest) := bytes.splitAt n
  if taken.length = n then .ok (taken, rest) else .error .cutOff

/-- The next `n` bytes as a number, and the rest. -/
def takeWord (n : Nat) (bytes : List UInt8) : Except Fault (Nat × List UInt8) := do
  let (taken, rest) ← takeBytes n bytes
  return (littleEndian taken, rest)

/-- The bytes of an ASCII tag. -/
def tag (s : String) : List UInt8 := s.toList.map fun c => c.toNat.toUInt8

/-- Fails with a header fault unless a condition holds. -/
def check (condition : Bool) (fault : HeaderFault) : Except Fault Unit :=
  if condition then .ok () else .error (.header fault)

/-! ## The format chunk

A format chunk says the same thing in several places, and most of it is only compared.  The order of
the checks decides which fault is reported of a header that has more than one. -/

def integerExtension (size : Nat) (f : Format) (bytes : List UInt8) :
    Except Fault (Format × List UInt8) := do
  check (size == 16 || size == 18 || size == 40) .formatSize
  if size = 16 then return (f, bytes)
  else
    let (_, bytes) ← takeWord 2 bytes
    check (f.bits == 8 || f.bits == 16 || f.bits == 24) .extendedIntegerBits
    if size = 40 then
      let (_, bytes) ← takeBytes 22 bytes
      return (f, bytes)
    else return (f, bytes)

def singleExtension (size : Nat) (f : Format) (bytes : List UInt8) :
    Except Fault (Format × List UInt8) := do
  check (size == 16 || size == 18) .formatSize
  let bytes ←
    if size = 18 then do
      let (extra, bytes) ← takeWord 2 bytes
      check (extra == 0) .extendedFloatSize
      pure bytes
    else pure bytes
  check (f.bits == 32) .floatBits
  return ({ f with encoding := .single }, bytes)

/-- What follows the first two bytes of the identifiers of the two stored encodings. -/
def identifierTail : List UInt8 :=
  [0, 0, 0, 0, 0x10, 0, 0x80, 0, 0, 0xaa, 0, 0x38, 0x9b, 0x71]

/-- The encoding that an extensible format names. -/
def encodingOf (identifier : List UInt8) : Except Fault Encoding :=
  if identifier = 1 :: 0 :: identifierTail then .ok .integer
  else if identifier = 3 :: 0 :: identifierTail then .ok .single
  else .error .unsupported

/-- The extension of an extensible format.  A number of valid bits replaces the number of bits. -/
def extensibleExtension (size : Nat) (f : Format) (bytes : List UInt8) :
    Except Fault (Format × List UInt8) := do
  check (40 ≤ size) .formatSize
  let (extra, bytes) ← takeWord 2 bytes
  check (extra == 22) .extensibleSize
  let (valid, bytes) ← takeWord 2 bytes
  let (_, bytes) ← takeWord 4 bytes
  let (identifier, bytes) ← takeBytes 16 bytes
  let encoding ← encodingOf identifier
  return ({ f with encoding, bits := if 0 < valid then valid else f.bits }, bytes)

/-- A format chunk of `size` bytes. -/
def takeFormat (size : Nat) (bytes : List UInt8) : Except Fault (Format × List UInt8) := do
  check (16 ≤ size) .shortFormat
  let (kind, bytes) ← takeWord 2 bytes
  let (channels, bytes) ← takeWord 2 bytes
  let (rate, bytes) ← takeWord 4 bytes
  let (byteRate, bytes) ← takeWord 4 bytes
  let (frame, bytes) ← takeWord 2 bytes
  let (bits, bytes) ← takeWord 2 bytes
  check (channels != 0) .zeroChannels
  let container := frame / channels
  check (container * 8 < 2 ^ (16 : Nat) && bits ≤ container * 8) .bitsExceedContainer
  check (byteRate == frame * rate) .inconsistentRate
  check (bits % 8 == 0) .partialBytes
  check (bits != 0) .zeroBits
  let f : Format := { channels, bits, container, encoding := .integer }
  if kind = 1 then integerExtension size f bytes
  else if kind = 3 then singleExtension size f bytes
  else if kind = 0xfffe then extensibleExtension size f bytes
  else .error .unsupported

/-! ## Chunks

A chunk that says nothing about the samples is passed over by its size, with no byte between it and
the next.  Of several format chunks the last one counts. -/

/-- Goes through the chunks up to the data chunk: the format last met, the number of data bytes
announced, and the bytes from there on.  Every chunk takes one unit of fuel, and its header eight
bytes. -/
def seekData : Nat → Option Format → List UInt8 → Except Fault (Format × Nat × List UInt8)
  | 0, _, _ => .error .cutOff
  | fuel + 1, format?, bytes => do
    let (name, bytes) ← takeBytes 4 bytes
    let (size, bytes) ← takeWord 4 bytes
    if name = tag "fmt " then
      let (format, bytes) ← takeFormat size bytes
      seekData fuel (some format) bytes
    else if name = tag "fact" then
      seekData fuel format? (bytes.drop 4)
    else if name = tag "data" then
      match format? with
      | some format => return (format, size, bytes)
      | none => .error (.header .missingFormat)
    else
      let (_, bytes) ← takeBytes size bytes
      seekData fuel format? bytes

/-- A file up to its samples: format, number of samples, and the bytes from the first sample on. -/
def openBytes (bytes : List UInt8) : Except Fault (Format × Nat × List UInt8) := do
  let (riff, bytes) ← takeBytes 4 bytes
  check (riff == tag "RIFF") .noRiffTag
  let (_, bytes) ← takeWord 4 bytes
  let (wave, bytes) ← takeBytes 4 bytes
  check (wave == tag "WAVE") .noWaveTag
  let (format, size, bytes) ← seekData (bytes.length + 1) none bytes
  let count := size / format.container
  check (count * format.container == size) .partialSample
  check (count % format.channels == 0) .partialFrame
  return (format, count, bytes)

/-! ## Samples

Five pairs of bits and container are integers that can be read.  Which they are is decided sample by
sample, so a file of another pair is refused only if it has samples. -/

/-- A number of `bits` bits in two's complement. -/
def signed (bits n : Nat) : Int :=
  if n < 2 ^ (bits - 1) then n else (n : Int) - 2 ^ bits

def takeInteger (f : Format) (bytes : List UInt8) : Except Fault (Int × List UInt8) := do
  if f.container = 1 ∧ f.bits = 8 then
    let (n, bytes) ← takeWord 1 bytes
    return ((n : Int) - 128, bytes)
  else if f.container = 2 ∧ f.bits = 16 then
    let (n, bytes) ← takeWord 2 bytes
    return (signed 16 n, bytes)
  else if f.container = 3 ∧ f.bits = 24 then
    let (n, bytes) ← takeWord 3 bytes
    return (signed 24 n, bytes)
  else if f.container = 4 ∧ f.bits = 24 then
    let (n, bytes) ← takeWord 4 bytes
    return (signed 24 (n % 2 ^ (24 : Nat)), bytes)
  else if f.container = 4 ∧ f.bits = 32 then
    let (n, bytes) ← takeWord 4 bytes
    return (signed 32 n, bytes)
  else if 4 < f.container then .error .tooWide
  else .error .unsupported

/-- A stored integer as a fraction of full scale. -/
def scaled (bits : Nat) (v : Int) : Float :=
  Binary.ofQuotient (decide (v < 0)) v.natAbs (2 ^ (bits - 1))

def takeSample (f : Format) (bytes : List UInt8) : Except Fault (Float × List UInt8) := do
  match f.encoding with
  | .integer =>
    let (v, bytes) ← takeInteger f bytes
    return (scaled f.bits v, bytes)
  | .single =>
    if f.container = 4 ∧ f.bits = 32 then
      let (n, bytes) ← takeWord 4 bytes
      return (Binary.ofSingle n, bytes)
    else if 4 < f.container then .error .tooWide
    else .error .unsupported

def takeSamples (f : Format) : Nat → List UInt8 → Except Fault (List Float)
  | 0, _ => .ok []
  | count + 1, bytes => do
    let (x, bytes) ← takeSample f bytes
    let xs ← takeSamples f count bytes
    return x :: xs

end Wave

end FilterReference
