/-
# Writing TOML

How single values are written: numbers never with an exponent, arrays of two elements and more one
element to a line, and strings in the plainest form that can hold them.
-/
import FilterReference.Toml.Table

namespace FilterReference.Toml

-- Powers are those of the core library, whatever is imported beside it.
attribute [local instance (high)] instPowNat

/-- The notation of doubles. -/
def numbers : Layout where
  tie := .upper
  positional := fun _ => true
  keepsPoint := true
  exponentMark := Layout.bareExponent
  notANumber := "nan"
  infinity := "inf"

/-- The largest integer that can be written. -/
def maxInteger : Nat := 2 ^ (63 : Nat) - 1

/-! ## Strings

Which form is chosen depends on what would have to be escaped in it.  Control characters can only
stand as escapes, which literal strings do not have, and three quotes in a row would end a string of
several lines. -/

/-- The control characters that only an escape can stand for. -/
def needsEscape (c : Char) : Bool :=
  (c.toNat < 0x20 && c != '\t' && c != '\n') || c == '\x7f'

def longestRun (q : Char) : Nat → List Char → Nat
  | n, [] => n
  | n, c :: rest => if c = q then longestRun q (n + 1) rest else max n (longestRun q 0 rest)

/-- A code point in four digits. -/
def codeEscape (c : Char) : List Char :=
  let ds := (Nat.toDigits 16 c.toNat).map Char.toUpper
  '\\' :: 'u' :: (List.replicate (4 - ds.length) '0' ++ ds)

/-- A character as an escape, or itself if it can stand so. -/
def escapeChar (c : Char) : List Char :=
  if c = '\t' then ['\\', 't']
  else if c = '\x08' then ['\\', 'b']
  else if c = '\x0c' then ['\\', 'f']
  else if c = '\r' then ['\\', 'r']
  else if c = '\n' then ['\\', 'n']
  else if c = '\\' then ['\\', '\\']
  else if c = '"' then ['\\', '"']
  else if needsEscape c then codeEscape c
  else [c]

/-- The characters between `"""`: line feeds stay, and of a run of quotes every third is
escaped; `run` quotes stand before the first character. -/
def longChars : Nat → List Char → List Char
  | _, [] => []
  | run, c :: rest =>
    if c = '"' then
      if run < 2 then '"' :: longChars (run + 1) rest else '\\' :: '"' :: longChars 0 rest
    else if c = '\n' then '\n' :: longChars 0 rest
    else escapeChar c ++ longChars 0 rest

def shortChars (cs : List Char) : List Char := cs.flatMap escapeChar

/-- Quotes of a form with several lines begin with a line end if the string has one. -/
def opening (quote : List Char) (cs : List Char) : List Char :=
  if cs.contains '\n' then quote ++ ['\n'] else quote

/-- The forms of a string, in order of preference. -/
inductive StringForm where
  | short
  | literal
  | long
  | longLiteral
  | escapedLong
  | escapedShort
deriving DecidableEq, Repr

/-- The plainest form that can hold a string. -/
def formOf (cs : List Char) : StringForm :=
  let escape := cs.any needsEscape
  let lines := cs.contains '\n'
  if !escape && !cs.contains '\\' && !cs.contains '"' && !lines then .short
  else if !escape && !cs.contains '\x27' && !lines then .literal
  else if !escape && !cs.contains '\\' && longestRun '"' 0 cs ≤ 2 then .long
  else if !escape && longestRun '\x27' 0 cs ≤ 2 then .longLiteral
  else if lines then .escapedLong
  else .escapedShort

def stringChars (cs : List Char) : List Char :=
  let quotes := ['"', '"', '"']
  let apostrophes := ['\x27', '\x27', '\x27']
  match formOf cs with
  | .short | .escapedShort => '"' :: (shortChars cs ++ ['"'])
  | .literal => '\x27' :: (cs ++ ['\x27'])
  | .long | .escapedLong => opening quotes cs ++ longChars 0 cs ++ quotes
  | .longLiteral => opening apostrophes cs ++ cs ++ apostrophes

/-! ## Arrays and lines -/

def elementLines : List (List Char) → List Char
  | [] => []
  | e :: es => ' ' :: ' ' :: ' ' :: ' ' :: (e ++ ',' :: '\n' :: elementLines es)

def arrayChars : List (List Char) → List Char
  | [] => ['[', ']']
  | [e] => '[' :: (e ++ [']'])
  | es => '[' :: '\n' :: (elementLines es ++ [']'])

def floatsChars (xs : List Float) : List Char := arrayChars (xs.map numbers.chars)

def line (key : String) (value : List Char) : List Char :=
  key.toList ++ ' ' :: '=' :: ' ' :: (value ++ ['\n'])

def optionalLine {α : Type} (key : String) (write : α → List Char) : Option α → List Char
  | some x => line key (write x)
  | none => []

def boolChars (b : Bool) : List Char := if b then ['t', 'r', 'u', 'e'] else ['f', 'a', 'l', 's', 'e']

def countChars (n : Nat) : List Char := Nat.toDigits 10 n

end FilterReference.Toml
