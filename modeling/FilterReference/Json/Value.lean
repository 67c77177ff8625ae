/-
# JSON values and their layout

Values are written with four blanks of indentation per level, one item or member to a line, and
empty containers without a line break.  Integers and doubles are different numbers: a double always
shows a point or an exponent.
-/
import FilterReference.Decimal.Layout

namespace FilterReference

/-- A JSON value.  Members are written in the order they are listed. -/
inductive Json where
  | null
  | bool (b : Bool)
  | integer (n : Int)
  | float (x : Float)
  | string (s : String)
  | array (items : List Json)
  | object (members : List (String × Json))

namespace Json

/-- A natural number in at least two digits. -/
def twoDigits (n : Nat) : List Char :=
  if n < 10 then '0' :: Nat.toDigits 10 n else Nat.toDigits 10 n

/-- An exponent mark that always has a sign, its digits written by `digits`. -/
def signedExponent (digits : Nat → List Char) (e : Int) : List Char :=
  'e' :: (if e < 0 then '-' else '+') :: digits e.natAbs

/-- The notation of doubles: positional from `1e-4` up to, but not including, `1e16`, with a point
in every number, and an exponent of at least two digits with its sign otherwise. -/
def numbers : Layout where
  tie := .upper
  positional := fun e => decide (-4 ≤ e ∧ e < 16)
  keepsPoint := true
  exponentMark := signedExponent twoDigits
  notANumber := "NaN"
  infinity := "inf"

/-- The notation of doubles in messages about JSON text: positional from `1e-5` up to, but not
including, `1e16`, and an exponent with its sign otherwise. -/
def citedNumbers : Layout where
  tie := .even
  positional := fun e => decide (-5 ≤ e ∧ e < 16)
  keepsPoint := true
  exponentMark := signedExponent (Nat.toDigits 10)
  notANumber := "NaN"
  infinity := "inf"

/-- A character inside a string: quote, backslash and control characters as escapes. -/
def escapeChar (c : Char) : List Char :=
  if c = '"' then ['\\', '"']
  else if c = '\\' then ['\\', '\\']
  else if c = '\x08' then ['\\', 'b']
  else if c = '\x0c' then ['\\', 'f']
  else if c = '\n' then ['\\', 'n']
  else if c = '\r' then ['\\', 'r']
  else if c = '\t' then ['\\', 't']
  else if c.toNat < 0x20 then
    ['\\', 'u', '0', '0', Nat.digitChar (c.toNat / 16), Nat.digitChar (c.toNat % 16)]
  else [c]

def quote (s : String) : List Char :=
  '"' :: (s.toList.flatMap escapeChar ++ ['"'])

/-- A line break and the indentation of a level. -/
def newline (level : Nat) : List Char := '\n' :: List.replicate (4 * level) ' '

/-- What stands between an item and the one before it. -/
def separator (first : Bool) : List Char := if first then [] else [',']

mutual

/-- A value, whose lines after the first are indented from `level`. -/
def chars (level : Nat) : Json → List Char
  | .null => ['n', 'u', 'l', 'l']
  | .bool b => if b then ['t', 'r', 'u', 'e'] else ['f', 'a', 'l', 's', 'e']
  | .integer n => integerChars n
  | .float x => numbers.chars x
  | .string s => quote s
  | .array vs =>
    if vs.isEmpty then ['[', ']']
    else '[' :: itemChars (level + 1) true vs ++ newline level ++ [']']
  | .object ms =>
    if ms.isEmpty then ['\x7b', '\x7d']
    else '\x7b' :: memberChars (level + 1) true ms ++ newline level ++ ['\x7d']

/-- Items, each on a line of its own, with a comma before all but the first. -/
def itemChars (level : Nat) : Bool → List Json → List Char
  | _, [] => []
  | first, v :: vs =>
    separator first ++ newline level ++ chars level v ++ itemChars level false vs

/-- Members, laid out like items. -/
def memberChars (level : Nat) : Bool → List (String × Json) → List Char
  | _, [] => []
  | first, (key, v) :: ms =>
    separator first ++ newline level ++ quote key ++ ':' :: ' ' :: chars level v ++
      memberChars level false ms

end

def render (v : Json) : String := String.ofList (chars 0 v)

/-- A list of doubles as JSON has it: what is no finite number becomes `null`. -/
def ofFloats (xs : List Float) : Json :=
  .array (xs.map fun x => if Binary.isFinite x then .float x else .null)

end Json

end FilterReference
