/-
# Paths

A path is kept as it was given and shown so.  Its parts are separated by slashes; empty parts count
for nothing, and neither does a part `.` except at the very beginning of a relative path.
-/

namespace FilterReference.Path

/-- The parts between the slashes. -/
def split : List Char → List (List Char)
  | [] => [[]]
  | c :: rest =>
    if c = '/' then [] :: split rest
    else
      match split rest with
      | [] => [[c]]
      | part :: parts => (c :: part) :: parts

def unsplit : List (List Char) → List Char
  | [] => []
  | [part] => part
  | part :: parts => part ++ '/' :: unsplit parts

/-- A path with a NUL character leads nowhere. -/
def hasNul (path : String) : Bool := path.toList.contains '\x00'

def maxBytes : Nat := 4095

def maxPartBytes : Nat := 255

def isAbsolute (path : String) : Bool := path.toList.head? == some '/'

def endsInSlash (path : String) : Bool := path.toList.getLast? == some '/'

/-- What of a path comes before its first named part: a slash, a dot, or nothing. -/
def head : List Char → List Char
  | '/' :: _ => ['/']
  | ['.'] => ['.']
  | '.' :: '/' :: _ => ['.']
  | _ => []

/-- A part that counts for nothing. -/
def isIdle (part : List Char) : Bool := part == [] || part == ['.']

/-- The parts behind the head, without idle ones at the end. -/
def body (cs : List Char) : List (List Char) :=
  (((split (cs.drop (head cs).length)).reverse).dropWhile isIdle).reverse

/-- The path without its last part. -/
def parent? (path : String) : Option String :=
  let cs := path.toList
  match (body cs).reverse with
  | _ :: before =>
    some (String.ofList (head cs ++ unsplit ((before.dropWhile isIdle).reverse)))
  | [] => if head cs = ['.'] then some "" else none

/-- The directory that the file at a path stands in. -/
def directory (path : String) : String :=
  match parent? path with
  | some above => if above = "" then "." else above
  | none => "."

/-- The last part, unless it leads upwards. -/
def fileName? (path : String) : Option String :=
  match (body path.toList).getLast? with
  | some part => if part = ['.', '.'] then none else some (String.ofList part)
  | none => none

/-- A file name before and behind its last dot; a dot that it starts with is none. -/
def splitName (name : List Char) : List Char × Option (List Char) :=
  let (after, before) := name.reverse.span (· ≠ '.')
  match before with
  | _ :: b :: bs => ((b :: bs).reverse, some after.reverse)
  | _ => (name, none)

def fileStem? (path : String) : Option String :=
  (fileName? path).map fun name => String.ofList (splitName name.toList).1

def extension? (path : String) : Option String :=
  (fileName? path).bind fun name => (splitName name.toList).2.map String.ofList

/-- A path seen from a directory. -/
def join (base path : String) : String :=
  if isAbsolute path then path
  else if base == "" || endsInSlash base then base ++ path
  else base ++ "/" ++ path

def temporaryName (n : Nat) : String :=
  let digits := Nat.toDigits 10 n
  ".tmp" ++ String.ofList (List.replicate (6 - digits.length) '0' ++ digits)

def temporaryTries : Nat := 0x10000

end FilterReference.Path
