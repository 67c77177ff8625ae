/-
# Reading TOML values

What a TOML value holds, read as what is wanted.  A group of fields may be written as a table, of
which unknown entries are ignored, or as an array in the order of the fields.  Tables are gone
through in the order in which their entries were defined, and the first misfit is reported.
-/
import FilterReference.Shape
import FilterReference.Toml.Grammar

namespace FilterReference.Toml

/-- The notation of doubles in messages about TOML. -/
def citedNumbers : Layout where
  tie := .upper
  positional := fun _ => true
  keepsPoint := true
  exponentMark := Layout.bareExponent
  notANumber := "NaN"
  infinity := "inf"

/-- Why a TOML text is not what is wanted. -/
inductive ReadError where
  /-- It is not TOML, or defines something twice. -/
  | malformed
  | shape (fault : ShapeFault)
deriving DecidableEq, Repr

/-- What stands at a place where something else is wanted. -/
def found : Toml → Found
  | .string s => .string s
  | .integer n => .integer n
  | .float x => .float x
  | .boolean b => .boolean b
  | .dateTime => .map
  | .array _ => .sequence
  | .table _ => .map

/-- Refuses what stands at a place. -/
def wrongType {α : Type} (v : Toml) (wanted : String) : Except ShapeFault α :=
  .error (.wrongType (found v) wanted)

def readString (wanted : String) : Toml → Except ShapeFault String
  | .string s => .ok s
  | v => wrongType v wanted

def readCount : Toml → Except ShapeFault Nat
  | .integer n => if 0 ≤ n then .ok n.toNat else .error (.wrongInteger n wantedCount)
  | v => wrongType v wantedCount

/-- A double; integers are rounded. -/
def readFloat : Toml → Except ShapeFault Float
  | .float x => .ok x
  | .integer n => .ok (Binary.ofQuotient (decide (n < 0)) n.natAbs 1)
  | v => wrongType v wantedFloat

def readBool : Toml → Except ShapeFault Bool
  | .boolean b => .ok b
  | v => wrongType v wantedBool

def readList {α : Type} (item : Toml → Except ShapeFault α) : Toml → Except ShapeFault (List α)
  | .array vs => vs.mapM item
  | v => wrongType v wantedSequence

/-- A group of fields, from its entries or from its items. -/
def readGroup {σ : Type} (name : String) (start : σ)
    (step : σ → String → Toml → Except ShapeFault σ)
    (ofItems : List Toml → Except ShapeFault σ) : Toml → Except ShapeFault σ
  | .table entries => entries.foldlM (fun s e => step s e.1 e.2) start
  | .dateTime => .ok start
  | .array vs => ofItems vs
  | v => wrongType v (wantedStruct name)

/-- The next item of an array that stands for a group of fields, if there is one. -/
def nextItem? {α : Type} (item : Toml → Except ShapeFault α) :
    List Toml → Except ShapeFault (Option α × List Toml)
  | [] => .ok (none, [])
  | v :: rest => do return (some (← item v), rest)

end FilterReference.Toml
