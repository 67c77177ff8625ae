/-
# Rows of delimited text

A text signal is read as rows of fields, byte by byte.  Fields are separated by commas; a row ends
at a line feed or a carriage return, and rows without a byte are passed over.  A field that begins
with a quote goes up to the next single one, commas and line ends included, a doubled quote standing
for one; what follows the closing quote still belongs to the field.  A byte order mark before the
first row is passed over.

A row knows where the reader stood when it began on it, which is right behind the byte that ended
the row before.  Lines are counted by line feeds.
-/

namespace FilterReference

/-- Where a reader stands: how many bytes lie behind it, and the number of the line. -/
structure Position where
  byte : Nat
  line : Nat
deriving DecidableEq, Repr

/-- A row of fields as they stand in the text, quotes resolved. -/
structure Row where
  start : Position
  fields : List (List UInt8)
deriving DecidableEq, Repr

namespace Row

def lineFeed : UInt8 := 0x0a

def carriageReturn : UInt8 := 0x0d

def comma : UInt8 := 0x2c

def quoteMark : UInt8 := 0x22

def byteOrderMark : List UInt8 := [0xef, 0xbb, 0xbf]

/-- The bytes that end a row. -/
def isBreak (b : UInt8) : Bool := b == lineFeed || b == carriageReturn

/-- The bytes that end a field. -/
def endsField (b : UInt8) : Bool := b == comma || isBreak b

end Row

namespace Position

def start : Position := ⟨0, 1⟩

def step (p : Position) (b : UInt8) : Position :=
  ⟨p.byte + 1, if b = Row.lineFeed then p.line + 1 else p.line⟩

end Position

namespace Row

/-! ## Reading

Every function is given the position it starts from and tells the one where it stopped, since a row
is reported by where the reader stood.  A quote means something only where a field begins, and
within the field that it has opened. -/

def skipBreaks (p : Position) : List UInt8 → Position × List UInt8
  | [] => (p, [])
  | b :: rest => if isBreak b then skipBreaks (p.step b) rest else (p, b :: rest)

def plainField (p : Position) : List UInt8 → List UInt8 × Position × List UInt8
  | [] => ([], p, [])
  | b :: rest =>
    if endsField b then ([], p, b :: rest)
    else
      let (field, q, after) := plainField (p.step b) rest
      (b :: field, q, after)

/-- A field behind its opening quote, and what follows; `escaped` says that the first byte is a
quote that follows another. -/
def quotedField (escaped : Bool) (p : Position) : List UInt8 → List UInt8 × Position × List UInt8
  | [] => ([], p, [])
  | b :: rest =>
    if b = quoteMark && !escaped then
      if rest.head? = some quoteMark then quotedField true (p.step b) rest
      else plainField (p.step b) rest
    else
      let (field, q, after) := quotedField false (p.step b) rest
      (b :: field, q, after)

def field (p : Position) : List UInt8 → List UInt8 × Position × List UInt8
  | [] => ([], p, [])
  | b :: rest =>
    if b = quoteMark then quotedField false (p.step b) rest else plainField p (b :: rest)

/-- The fields of a row, and what follows the byte that ends it.  Each further field takes one unit
of fuel, and a comma of the text. -/
def fieldsOf : Nat → Position → List UInt8 → List (List UInt8) × Position × List UInt8
  | 0, p, bytes => ([], p, bytes)
  | fuel + 1, p, bytes =>
    match field p bytes with
    | (f, q, []) => ([f], q, [])
    | (f, q, b :: rest) =>
      if b = comma then
        let (fs, r, after) := fieldsOf fuel (q.step b) rest
        (f :: fs, r, after)
      else ([f], q.step b, rest)

/-- The rows of a text, the first of them reported to start at `start`.  Each row takes one unit of
fuel, and a byte of the text. -/
def readFrom : Nat → Position → Position → List UInt8 → List Row
  | 0, _, _, _ => []
  | fuel + 1, start, p, bytes =>
    match skipBreaks p bytes with
    | (_, []) => []
    | (q, b :: rest) =>
      let (fields, r, after) := fieldsOf (fuel + 1) q (b :: rest)
      ⟨start, fields⟩ :: readFrom fuel r r after

def readAll (bytes : List UInt8) : List Row :=
  if byteOrderMark.isPrefixOf bytes then
    readFrom bytes.length .start ⟨byteOrderMark.length, 1⟩ (bytes.drop byteOrderMark.length)
  else readFrom (bytes.length + 1) .start .start bytes

end Row

end FilterReference
