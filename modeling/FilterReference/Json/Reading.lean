/-
# Reading JSON text

What a JSON tree holds, read as what is wanted.  The tree is gone through in the order of the text,
so the first fault met is the first fault of the text.  A group of fields may be written as an
object in any order, further members being passed over, or as an array in the order of the fields.
-/
import FilterReference.Json.Document
import FilterReference.Json.Value
import FilterReference.Shape

namespace FilterReference.Json

-- Powers are those of the core library, whatever is imported beside it.
attribute [local instance (high)] instPowNat

/-- Why a text is not what is wanted: it is not JSON, or it is, but not of the right shape. -/
inductive ReadError (ε : Type) where
  | syntaxFault
  | shape (fault : ShapeFault)
  /-- The shape is right, but the values are refused. -/
  | refused (cause : ε)
deriving DecidableEq

/-- The text of an error that is not one of syntax. -/
def ReadError.message? {ε : Type} (text : ε → String) : ReadError ε → Option String
  | .syntaxFault => none
  | .shape fault => some (fault.message citedNumbers.write)
  | .refused cause => some (text cause)

abbrev Reader (ε α : Type) := Except (ReadError ε) α

section Readers

variable {ε α σ : Type}

/-! ## Single values

What stands where something else is wanted is reported by its kind, a number or a string by its
content too.  So it is read first, and a fault in it comes before the fault of its place. -/

/-- The value of a number: an integer if it is written as one and fits into 64 bits, a double
otherwise. -/
def readNumeral (n : Numeral) : Reader ε (Int ⊕ Float) :=
  let digits := digitsValue 0 n.literal.whole
  if n.whole && !n.literal.negative && digits < 2 ^ (64 : Nat) then .ok (.inl digits)
  else if n.whole && n.literal.negative && 0 < digits && digits ≤ 2 ^ (63 : Nat) then
    .ok (.inl (-digits))
  else if Binary.isFinite n.literal.toFloat then .ok (.inr n.literal.toFloat)
  else .error .syntaxFault

/-- What stands at a place where something else is wanted. -/
def found : Document → Reader ε Found
  | .null => .ok .null
  | .bool b => .ok (.boolean b)
  | .number n => do
    match ← readNumeral n with
    | .inl i => return .integer i
    | .inr x => return .float x
  | .string (some s) => .ok (.string s)
  | .string none => .error .syntaxFault
  | .array _ _ => .ok .sequence
  | .object _ _ => .ok .map
  | .broken => .error .syntaxFault

/-- Refuses what stands at a place. -/
def wrongType (d : Document) (wanted : String) : Reader ε α := do
  .error (.shape (.wrongType (← found d) wanted))

/-- A count of at most 64 bits. -/
def readCount : Document → Reader ε Nat
  | .number n => do
    match ← readNumeral n with
    | .inl i =>
      if 0 ≤ i then return i.toNat
      else .error (.shape (.wrongInteger i wantedCount))
    | .inr x => .error (.shape (.wrongType (.float x) wantedCount))
  | d => wrongType d wantedCount

/-- A double; integers are rounded. -/
def readFloat : Document → Reader ε Float
  | .number n =>
    if Binary.isFinite n.literal.toFloat then .ok n.literal.toFloat else .error .syntaxFault
  | d => wrongType d wantedFloat

def readBool : Document → Reader ε Bool
  | .bool b => .ok b
  | d => wrongType d wantedBool

def readList (item : Document → Reader ε α) : Document → Reader ε (List α)
  | .array ds closed => do
    let xs ← ds.mapM item
    if closed then return xs else .error .syntaxFault
  | d => wrongType d wantedSequence

/-! ## Groups of fields

A group of fields is read by name or by position.  By name the fields come in any order, each of
them once, and that one is missing shows at the end of the object; by position it shows where the
array ends too early. -/

/-- Goes through the members of an object; `step` takes one of them. -/
def readMembers (step : σ → String → Document → Reader ε σ) :
    σ → List (Option String × Document) → Bool → Reader ε σ
  | s, [], closed => if closed then .ok s else .error .syntaxFault
  | _, (none, _) :: _, _ => .error .syntaxFault
  | s, (some key, d) :: rest, closed => do readMembers step (← step s key d) rest closed

/-- A member that may be given once. -/
def readOnce (name : String) (slot : Option α) (item : Document → Reader ε α) (d : Document) :
    Reader ε (Option α) := do
  if slot.isSome then .error (.shape (.duplicateField name))
  else return some (← item d)

def required (name : String) : Option α → Reader ε α
  | some x => .ok x
  | none => .error (.shape (.missingField name))

/-- The next item of an array that stands for a group of fields, the one at `index`. -/
def nextItem (wanted : String) (index : Nat) (item : Document → Reader ε α) :
    List Document → Bool → Reader ε (α × List Document)
  | [], true => .error (.shape (.wrongLength index wanted))
  | [], false => .error .syntaxFault
  | d :: rest, _ => do return (← item d, rest)

/-- The end of such an array. -/
def endItems : List Document → Bool → Reader ε Unit
  | [], true => .ok ()
  | _, _ => .error .syntaxFault

/-- A group of fields, from its members or from its items. -/
def readGroup (name : String) (ofMembers : List (Option String × Document) → Bool → Reader ε α)
    (ofItems : List Document → Bool → Reader ε α) : Document → Reader ε α
  | .object ms closed => ofMembers ms closed
  | .array ds closed => ofItems ds closed
  | d => wrongType d (wantedStruct name)

/-- A whole text, nothing but white space around the value. -/
def readText (read : Document → Reader ε α) (cs : List Char) : Reader ε α := do
  let (d, alone) := Document.parse cs
  let x ← read d
  if alone then return x else .error .syntaxFault

end Readers

/-! ## Any value

Where no particular shape is wanted, members are put in the order of their keys, and of several with
one key the last is kept.  Nesting is counted here and not by the parser, which takes a text of any
depth. -/

/-- Puts a member in the order of its key; one of the same key is replaced. -/
def insertMember (key : String) (v : Json) : List (String × Json) → List (String × Json)
  | [] => [(key, v)]
  | (k, w) :: rest =>
    if key < k then (key, v) :: (k, w) :: rest
    else if key = k then (key, v) :: rest
    else (k, w) :: insertMember key v rest

/-- How deeply values may be nested. -/
def maxDepth : Nat := 127

mutual

/-- The value a tree denotes, when it is nested at most `depth` deep.  Members come in the order of
their keys, and the last of several with one key counts. -/
def readValue : Nat → Document → Reader Empty Json
  | _, .null => .ok .null
  | _, .bool b => .ok (.bool b)
  | _, .number n => do
    match ← readNumeral n with
    | .inl i => return .integer i
    | .inr x => return .float x
  | _, .string (some s) => .ok (.string s)
  | _, .string none => .error .syntaxFault
  | _, .broken => .error .syntaxFault
  | 0, .array _ _ => .error .syntaxFault
  | 0, .object _ _ => .error .syntaxFault
  | depth + 1, .array ds closed => do
    let vs ← readValues depth ds
    if closed then return .array vs else .error .syntaxFault
  | depth + 1, .object ms closed => do
    let vs ← readMemberValues depth ms []
    if closed then return .object vs else .error .syntaxFault

def readValues : Nat → List Document → Reader Empty (List Json)
  | _, [] => .ok []
  | depth, d :: ds => do
    let v ← readValue depth d
    let vs ← readValues depth ds
    return v :: vs

def readMemberValues :
    Nat → List (Option String × Document) → List (String × Json) → Reader Empty (List (String × Json))
  | _, [], acc => .ok acc
  | _, (none, _) :: _, _ => .error .syntaxFault
  | depth, (some key, d) :: ms, acc => do
    let v ← readValue depth d
    readMemberValues depth ms (insertMember key v acc)

end

def parse? (s : String) : Option Json :=
  match readText (readValue maxDepth) s.toList with
  | .ok v => some v
  | .error _ => none

end FilterReference.Json
