/-
# Text signals

A text signal has one finite number per line.  White space around a number and lines without one
are ignored.  The first line that is anything else is reported.
-/
import FilterReference.Decimal.Literal
import FilterReference.Signal.Rows
import FilterReference.Text.Characters
import FilterReference.Text.Utf8

namespace FilterReference

open Text

inductive SampleFault where
  /-- A byte of a field belongs to no character; `index` counts the bytes of the field before it. -/
  | encoding (row : Nat) (start : Position) (field index : Nat)
  | columns (line count : Nat)
  | notNumber (line : Nat) (cell : String)
  | notFinite (line : Nat) (cell : String)
deriving DecidableEq, Repr

def SampleFault.message : SampleFault → String
  | .encoding row start field index =>
    s!"row {row}: CSV parse error: record {row - 1} (line {start.line}, field: {field}, " ++
      s!"byte: {start.byte}): invalid utf-8: invalid UTF-8 in field {field} near byte index {index}"
  | .columns line count => s!"line {line}: expected one column, found {count}"
  | .notNumber line cell => s!"line {line}: '{cell}' is not a number"
  | .notFinite line cell => s!"line {line}: '{cell}' is not a finite number"

namespace Samples

/-- White space that takes one byte. -/
def isPlainBlank (b : UInt8) : Bool :=
  b == 0x20 || b == 0x09 || b == 0x0a || b == 0x0c || b == 0x0d

/-- The characters of fields.  Plain blanks at the start of a field are dropped before its bytes are
counted; an error names the field, the first of them being field `index`, and the byte. -/
def decodeFields : Nat → List (List UInt8) → Except (Nat × Nat) (List (List Char))
  | _, [] => .ok []
  | index, field :: rest =>
    match decode (field.dropWhile isPlainBlank) with
    | .error n => .error (index, n)
    | .ok cs =>
      match decodeFields (index + 1) rest with
      | .ok others => .ok (cs :: others)
      | .error e => .error e

/-- The cells of row `number`, trimmed. -/
def cells (row : Row) (number : Nat) : Except SampleFault (List (List Char)) :=
  match decodeFields 0 row.fields with
  | .ok fields => .ok (fields.map trim)
  | .error (field, index) => .error (.encoding number row.start field index)

def ofCells (line : Nat) : List (List Char) → Except SampleFault (Option Float)
  | [[]] => .ok none
  | [cell] =>
    match readFloat? cell with
    | none => .error (.notNumber line (String.ofList cell))
    | some x =>
      if Binary.isFinite x then .ok (some x) else .error (.notFinite line (String.ofList cell))
  | cs => .error (.columns line cs.length)

/-- The samples of the rows from `number` on. -/
def ofRows : Nat → List Row → Except SampleFault (List Float)
  | _, [] => .ok []
  | number, row :: rest => do
    let sample? ← ofCells row.start.line (← cells row number)
    let samples ← ofRows (number + 1) rest
    return sample?.toList ++ samples

def ofText (content : ByteArray) : Except SampleFault (List Float) :=
  ofRows 1 (Row.readAll content.toList)

end Samples

end FilterReference
