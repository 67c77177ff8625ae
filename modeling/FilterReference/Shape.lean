/-
# Values of the wrong shape

Records, coefficients and scenarios are read from files of two formats.  What a file holds may be
well formed and still not be what is wanted; the causes and their wording are the same for both
formats, up to the notation of numbers.
-/
import FilterReference.Decimal.Layout
import FilterReference.Text.Characters

namespace FilterReference

/-- What stands in a file where something else is wanted. -/
inductive Found where
  | integer (n : Int)
  | float (x : Float)
  | boolean (b : Bool)
  | string (s : String)
  | null
  | sequence
  | map
deriving DecidableEq, Repr

/-- Words for what was found; `number` writes a double. -/
def Found.message (number : Float → String) : Found → String
  | .integer n => s!"integer `{n}`"
  | .float x => "floating point `" ++ number x ++ "`"
  | .boolean b => s!"boolean `{b}`"
  | .string s => "string " ++ Text.cite s
  | .null => "null"
  | .sequence => "sequence"
  | .map => "map"

inductive ShapeFault where
  | missingField (name : String)
  | duplicateField (name : String)
  | wrongType (found : Found) (wanted : String)
  | wrongInteger (n : Int) (wanted : String)
  | wrongLength (length : Nat) (wanted : String)
deriving DecidableEq, Repr

def ShapeFault.message (number : Float → String) : ShapeFault → String
  | .missingField name => s!"missing field `{name}`"
  | .duplicateField name => s!"duplicate field `{name}`"
  | .wrongType found wanted =>
    "invalid type: " ++ found.message number ++ ", expected " ++ wanted
  | .wrongInteger n wanted => s!"invalid value: integer `{n}`, expected {wanted}"
  | .wrongLength length wanted => s!"invalid length {length}, expected {wanted}"

def wantedCount : String := "usize"

def wantedFloat : String := "f64"

def wantedBool : String := "a boolean"

def wantedSequence : String := "a sequence"

def wantedString : String := "a string"

def wantedPath : String := "path string"

def wantedStruct (name : String) : String := "struct " ++ name

end FilterReference
