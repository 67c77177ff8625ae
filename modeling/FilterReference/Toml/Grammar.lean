/-
# TOML text

The grammar of TOML 1.0, from characters to sections of assignments.  Every function takes the
construct at the start of a text and returns what follows it, or nothing if there is no such
construct.  `Toml.parse?` puts the sections together.
-/
import FilterReference.Decimal.Literal
import FilterReference.Text.Characters
import FilterReference.Toml.Table

namespace FilterReference.Toml

-- Powers are those of the core library, whatever is imported beside it.
attribute [local instance (high)] instPowNat

/-! ## White space and comments

There are two kinds of space: blanks within a line, and all that may stand between the items of an
array or between lines, comments included.  A comment may hold no control character but a tab, so
what follows it still has to be looked at. -/

/-- A blank or a tab. -/
def isBlank (c : Char) : Bool := c == ' ' || c == '\t'

def skipBlanks : List Char → List Char
  | [] => []
  | c :: rest => if isBlank c then skipBlanks rest else c :: rest

/-- A character of a comment: any but the control characters, of which a tab is allowed. -/
def isCommentChar (c : Char) : Bool := c == '\t' || (0x20 ≤ c.toNat && c.toNat ≠ 0x7f)

def skipComment : List Char → List Char
  | [] => []
  | c :: rest => if isCommentChar c then skipComment rest else c :: rest

/-- What follows a line end. -/
def lineBreak? : List Char → Option (List Char)
  | '\n' :: rest => some rest
  | '\r' :: '\n' :: rest => some rest
  | _ => none

/-- What follows a comment, if one stands here. -/
def skipOptionalComment : List Char → List Char
  | '#' :: rest => skipComment rest
  | cs => cs

/-- What follows the end of a line, behind blanks and a comment; the text may end too. -/
def endOfLine? (cs : List Char) : Option (List Char) :=
  match skipOptionalComment (skipBlanks cs) with
  | [] => some []
  | rest => lineBreak? rest

/-- What follows blanks, line ends and comments; `within` says that a comment has begun. -/
def skipLines (within : Bool) : List Char → Option (List Char)
  | [] => some []
  | '\n' :: rest => skipLines false rest
  | '\r' :: '\n' :: rest => skipLines false rest
  | c :: rest =>
    if within then if isCommentChar c then skipLines true rest else none
    else if isBlank c then skipLines false rest
    else if c = '#' then skipLines true rest
    else some (c :: rest)

/-- What follows blanks, line ends and comments. -/
def skipSpace (cs : List Char) : Option (List Char) := skipLines false cs

/-! ## Strings

One or two quotes right before the three that close a string belong to the string.  So the patterns
begin with five quotes in a row, and each kind of string has a reader of its own. -/

/-- A character that stands for itself in any string. -/
def isTextChar (c : Char) : Bool := isCommentChar c

def scalar? (n : Nat) : Option Char :=
  if n < 0xd800 ∨ (0xdfff < n ∧ n < 0x110000) then some (Char.ofNat n) else none

/-- What a one-letter escape stands for. -/
def shortEscape? (c : Char) : Option Char :=
  if c = '"' ∨ c = '\\' then some c
  else if c = 'b' then some '\x08'
  else if c = 't' then some '\t'
  else if c = 'n' then some '\n'
  else if c = 'f' then some '\x0c'
  else if c = 'r' then some '\r'
  else none

/-- Puts a character in front of what a construct yields. -/
def push (c : Char) (t : Option (List Char × List Char)) : Option (List Char × List Char) :=
  t.map fun (cs, rest) => (c :: cs, rest)

def basicString? : List Char → Option (List Char × List Char)
  | [] => none
  | '"' :: rest => some ([], rest)
  | '\\' :: 'u' :: a :: b :: c :: d :: rest => do
    push (← scalar? (← Text.hexValueFrom? 0 [a, b, c, d])) (basicString? rest)
  | '\\' :: 'U' :: a :: b :: c :: d :: e :: f :: g :: h :: rest => do
    push (← scalar? (← Text.hexValueFrom? 0 [a, b, c, d, e, f, g, h])) (basicString? rest)
  | '\\' :: c :: rest => do push (← shortEscape? c) (basicString? rest)
  | c :: rest => if isTextChar c && c != '\\' then push c (basicString? rest) else none

def literalString? : List Char → Option (List Char × List Char)
  | [] => none
  | '\x27' :: rest => some ([], rest)
  | c :: rest => if isTextChar c then push c (literalString? rest) else none

/-- A backslash before this text is the last visible character of its line. -/
def endsLine (cs : List Char) : Bool := (lineBreak? (skipBlanks cs)).isSome

/-- A string of several lines behind its opening quotes.  While `joining`, white space is dropped,
since a backslash has ended a line before it. -/
def longString? : Bool → List Char → Option (List Char × List Char)
  | _, [] => none
  | _, '"' :: '"' :: '"' :: '"' :: '"' :: rest => some (['"', '"'], rest)
  | _, '"' :: '"' :: '"' :: '"' :: rest => some (['"'], rest)
  | _, '"' :: '"' :: '"' :: rest => some ([], rest)
  | joining, '\r' :: '\n' :: rest =>
    if joining then longString? true rest else push '\n' (longString? false rest)
  | joining, '\n' :: rest =>
    if joining then longString? true rest else push '\n' (longString? false rest)
  | _, '\\' :: 'u' :: a :: b :: c :: d :: rest => do
    push (← scalar? (← Text.hexValueFrom? 0 [a, b, c, d])) (longString? false rest)
  | _, '\\' :: 'U' :: a :: b :: c :: d :: e :: f :: g :: h :: rest => do
    push (← scalar? (← Text.hexValueFrom? 0 [a, b, c, d, e, f, g, h])) (longString? false rest)
  | _, '\\' :: c :: rest =>
    if endsLine (c :: rest) then
      if isBlank c || c == '\n' then longString? true rest
      else
        match rest with
        | _ :: rest => longString? true rest
        | [] => none
    else do push (← shortEscape? c) (longString? false rest)
  | joining, c :: rest =>
    if joining && isBlank c then longString? true rest
    else if isTextChar c && c != '\\' then push c (longString? false rest)
    else none

/-- A literal string of several lines behind its opening quotes. -/
def longLiteral? : List Char → Option (List Char × List Char)
  | [] => none
  | '\x27' :: '\x27' :: '\x27' :: '\x27' :: '\x27' :: rest => some (['\x27', '\x27'], rest)
  | '\x27' :: '\x27' :: '\x27' :: '\x27' :: rest => some (['\x27'], rest)
  | '\x27' :: '\x27' :: '\x27' :: rest => some ([], rest)
  | '\r' :: '\n' :: rest => push '\n' (longLiteral? rest)
  | '\n' :: rest => push '\n' (longLiteral? rest)
  | c :: rest => if isTextChar c then push c (longLiteral? rest) else none

/-- What follows a line end directly behind opening quotes. -/
def skipFirstBreak (cs : List Char) : List Char := (lineBreak? cs).getD cs

/-- A string of any of the four kinds, with its quotes. -/
def string? : List Char → Option (List Char × List Char)
  | '"' :: '"' :: '"' :: rest => longString? false (skipFirstBreak rest)
  | '"' :: rest => basicString? rest
  | '\x27' :: '\x27' :: '\x27' :: rest => longLiteral? (skipFirstBreak rest)
  | '\x27' :: rest => literalString? rest
  | _ => none

/-! ## Numbers

An underscore stands between two digits or nowhere.  A double that is too large is refused here,
other than in text signals, where it is infinity. -/

/-- Digits of a base, single underscores between them, behind a first one. -/
def moreDigits? (isDigit : Char → Bool) : List Char → Option (List Char × List Char)
  | [] => some ([], [])
  | '_' :: c :: rest =>
    if isDigit c then push c (moreDigits? isDigit rest) else none
  | c :: rest =>
    if isDigit c then push c (moreDigits? isDigit rest)
    else if c = '_' then none
    else some ([], c :: rest)

def someDigits? (isDigit : Char → Bool) : List Char → Option (List Char × List Char)
  | c :: rest => if isDigit c then push c (moreDigits? isDigit rest) else none
  | [] => none

/-- The digits of a decimal integer, of which a zero can only be the only one. -/
def wholeDigits? : List Char → Option (List Char × List Char)
  | '0' :: rest => some (['0'], rest)
  | cs => someDigits? Char.isDigit cs

def fraction? : List Char → Option (Option (List Char) × List Char)
  | '.' :: rest => (someDigits? Char.isDigit rest).map fun (ds, rest) => (some ds, rest)
  | cs => some (none, cs)

def exponent? : List Char → Option (Option Int × List Char)
  | [] => some (none, [])
  | c :: rest =>
    if c = 'e' ∨ c = 'E' then
      let (negative, rest) := takeSign rest
      (someDigits? Char.isDigit rest).map fun (ds, rest) =>
        let n : Int := digitsValue 0 ds
        (some (if negative then -n else n), rest)
    else some (none, c :: rest)

/-- An integer that fits into 64 bits. -/
def integer? (n : Int) : Option Toml :=
  if -(2 ^ (63 : Nat)) ≤ n ∧ n < 2 ^ (63 : Nat) then some (.integer n) else none

/-- A number without a sign that stood before it.  One that is too large for a double is refused. -/
def decimal? (negative : Bool) (cs : List Char) : Option (Toml × List Char) := do
  let (whole, rest) ← wholeDigits? cs
  let (fraction, rest) ← fraction? rest
  let (exponent, rest) ← exponent? rest
  if fraction.isNone && exponent.isNone then
    let n : Int := digitsValue 0 whole
    return (← integer? (if negative then -n else n), rest)
  else
    let x := (Literal.mk negative whole (fraction.getD []) (exponent.getD 0)).toFloat
    if x == Binary.infinity then none else return (.float x, rest)

/-- The digits of a base, by the letter that marks it. -/
def baseOf? (c : Char) : Option (Nat × (Char → Bool)) :=
  if c = 'x' then some (16, fun c => (Text.hexValue? c).isSome)
  else if c = 'o' then some (8, fun c => '0' ≤ c && c ≤ '7')
  else if c = 'b' then some (2, fun c => c == '0' || c == '1')
  else none

def valueInBase (base : Nat) (digits : List Char) : Nat :=
  digits.foldl (fun acc c => acc * base + (Text.hexValue? c).getD 0) 0

/-- A number, infinity or a not-a-number. -/
def number? (cs : List Char) : Option (Toml × List Char) :=
  let signed := cs.head? == some '+' || cs.head? == some '-'
  let (negative, rest) := takeSign cs
  match rest with
  | 'i' :: 'n' :: 'f' :: rest =>
    some (.float (Binary.ofParts negative Binary.binary64.infinity), rest)
  | 'n' :: 'a' :: 'n' :: rest =>
    some (.float (Binary.ofParts negative Binary.binary64.notANumber), rest)
  | '0' :: c :: digits =>
    match if signed then none else baseOf? c with
    | some (base, isDigit) => do
      let (ds, rest) ← someDigits? isDigit digits
      return (← integer? (valueInBase base ds), rest)
    | none => decimal? negative rest
  | _ => decimal? negative rest

/-! ## Dates and times

Dates and times are wanted nowhere, so nothing is kept of them.  They are checked all the same,
because a text with a date that does not exist is not TOML. -/

/-- A number of two digits within bounds. -/
def twoDigits? (first last : Nat) : List Char → Option (Nat × List Char)
  | a :: b :: rest =>
    let n := digitsValue 0 [a, b]
    if a.isDigit && b.isDigit && first ≤ n && n ≤ last then some (n, rest) else none
  | _ => none

def after? (c : Char) : List Char → Option (List Char)
  | d :: rest => if c = d then some rest else none
  | [] => none

def daysIn (year month : Nat) : Nat :=
  if month = 2 then
    if year % 4 = 0 ∧ (year % 100 ≠ 0 ∨ year % 400 = 0) then 29 else 28
  else if month = 4 ∨ month = 6 ∨ month = 9 ∨ month = 11 then 30
  else 31

def time? (cs : List Char) : Option (List Char) := do
  let (_, cs) ← twoDigits? 0 23 cs
  let cs ← after? ':' cs
  let (_, cs) ← twoDigits? 0 59 cs
  let cs ← after? ':' cs
  let (_, cs) ← twoDigits? 0 60 cs
  match cs with
  | '.' :: rest =>
    match spanDigits rest with
    | ([], _) => none
    | (_, rest) => some rest
  | cs => some cs

def offset? : List Char → Option (List Char)
  | 'Z' :: rest => some rest
  | 'z' :: rest => some rest
  | c :: rest =>
    if c = '+' ∨ c = '-' then do
      let (_, cs) ← twoDigits? 0 23 rest
      let cs ← after? ':' cs
      let (_, cs) ← twoDigits? 0 59 cs
      return cs
    else some (c :: rest)
  | [] => some []

def timeOfDate? : List Char → Option (List Char)
  | c :: rest =>
    if c = 'T' ∨ c = 't' then time? rest >>= offset?
    else if c = ' ' then
      match rest with
      | d :: _ => if d.isDigit then time? rest >>= offset? else some (c :: rest)
      | [] => some (c :: rest)
    else some (c :: rest)
  | [] => some []

def date? (year : Nat) (cs : List Char) : Option (List Char) := do
  let (month, cs) ← twoDigits? 1 12 cs
  let cs ← after? '-' cs
  let (_, cs) ← twoDigits? 1 (daysIn year month) cs
  timeOfDate? cs

/-- A date or time, if the text begins like one. -/
def dateTime? (cs : List Char) : Option (Option (Toml × List Char)) :=
  let found (rest : Option (List Char)) : Option (Toml × List Char) :=
    rest.map fun rest => (.dateTime, rest)
  match spanDigits cs with
  | (ds, '-' :: rest) =>
    if ds.length = 4 then some (found (date? (digitsValue 0 ds) rest)) else none
  | (ds, ':' :: _) => if ds.length = 2 then some (found (time? cs)) else none
  | _ => none

/-! ## Keys -/

def isBareChar (c : Char) : Bool := c.isAlphanum || c == '_' || c == '-'

/-- The characters of a bare key, and what follows. -/
def spanBare : List Char → List Char × List Char
  | [] => ([], [])
  | c :: rest =>
    if isBareChar c then
      let (ks, r) := spanBare rest
      (c :: ks, r)
    else ([], c :: rest)

def keyPart? (cs : List Char) : Option (String × List Char) :=
  match cs with
  | '"' :: rest => (basicString? rest).map fun (ks, rest) => (String.ofList ks, rest)
  | '\x27' :: rest => (literalString? rest).map fun (ks, rest) => (String.ofList ks, rest)
  | _ =>
    match spanBare cs with
    | ([], _) => none
    | (ks, rest) => some (String.ofList ks, rest)

/-- How many parts a key may have, and how deeply values may be nested. -/
def maxDepth : Nat := 79

/-- A dotted key of at most so many parts, with blanks around it: what leads to the last part, and
the last part. -/
def key? : Nat → List Char → Option ((List String × String) × List Char)
  | 0, _ => none
  | parts + 1, cs => do
    let (part, rest) ← keyPart? (skipBlanks cs)
    match skipBlanks rest with
    | '.' :: rest =>
      let ((path, last), rest) ← key? parts rest
      return ((part :: path, last), rest)
    | rest => return (([], part), rest)

/-! ## Values

A value begins with a character that tells its kind, except for dates and numbers: both may begin
with digits, and what follows these decides. -/

def boolean? : List Char → Option (Toml × List Char)
  | 't' :: 'r' :: 'u' :: 'e' :: rest => some (.boolean true, rest)
  | 'f' :: 'a' :: 'l' :: 's' :: 'e' :: rest => some (.boolean false, rest)
  | _ => none

/-- A value without parts. -/
def simple? (cs : List Char) : Option (Toml × List Char) :=
  match cs with
  | [] => none
  | c :: _ =>
    if c = '"' ∨ c = '\x27' then (string? cs).map fun (s, rest) => (.string (String.ofList s), rest)
    else if c = 't' ∨ c = 'f' then boolean? cs
    else
      match dateTime? cs with
      | some taken => taken
      | none => number? cs

mutual

/-- A value, nested at most `depth` deep.  Fuel is taken by nesting and by further items, as is
text. -/
def value? : Nat → Nat → List Char → Option (Toml × List Char)
  | 0, _, _ => none
  | fuel + 1, depth, cs =>
    match cs with
    | '[' :: rest =>
      match depth, skipSpace rest with
      | 0, _ => none
      | _, none => none
      | _, some (']' :: rest) => some (.array [], rest)
      | depth + 1, some rest => do
        let (vs, rest) ← items? fuel depth rest
        return (.array vs, rest)
    | '\x7b' :: rest =>
      match depth, skipBlanks rest with
      | 0, _ => none
      | _, '\x7d' :: rest => some (.table [], rest)
      | depth + 1, rest => do
        let (as, rest) ← pairs? fuel depth rest
        return (← assembleInline as, rest)
    | cs => simple? cs

/-- One item or more, up to the closing bracket; a comma may follow the last. -/
def items? : Nat → Nat → List Char → Option (List Toml × List Char)
  | 0, _, _ => none
  | fuel + 1, depth, cs => do
    let (v, rest) ← value? fuel depth cs
    match ← skipSpace rest with
    | ']' :: rest => return ([v], rest)
    | ',' :: rest =>
      match ← skipSpace rest with
      | ']' :: rest => return ([v], rest)
      | rest =>
        let (vs, rest) ← items? fuel depth rest
        return (v :: vs, rest)
    | _ => none

/-- One assignment or more, up to the closing brace. -/
def pairs? : Nat → Nat → List Char → Option (List Assignment × List Char)
  | 0, _, _ => none
  | fuel + 1, depth, cs => do
    let ((path, key), rest) ← key? maxDepth cs
    let rest ← after? '=' rest
    let (v, rest) ← value? fuel depth (skipBlanks rest)
    match skipBlanks rest with
    | '\x7d' :: rest => return ([⟨path, key, v⟩], rest)
    | ',' :: rest =>
      let (as, rest) ← pairs? fuel depth rest
      return (⟨path, key, v⟩ :: as, rest)
    | _ => none

end

/-! ## Sections

The text behind a header goes on to the next line that begins with a bracket.  What the sections say
together, and whether they go together at all, is found out by `assemble`. -/

def assignment? (cs : List Char) : Option (Assignment × List Char) := do
  let ((path, key), rest) ← key? maxDepth cs
  let rest ← after? '=' rest
  let (v, rest) ← value? (2 * rest.length + 2) maxDepth (skipBlanks rest)
  return (⟨path, key, v⟩, ← endOfLine? rest)

def header? : List Char → Option (Header × List Char)
  | '[' :: '[' :: rest => do
    let ((path, key), rest) ← key? maxDepth rest
    let rest ← after? ']' (← after? ']' rest)
    return (.element path key, ← endOfLine? rest)
  | '[' :: rest => do
    let ((path, key), rest) ← key? maxDepth rest
    let rest ← after? ']' rest
    return (.table path key, ← endOfLine? rest)
  | _ => none

/-- The assignments up to the next header, and the text from there on.  Each takes one unit of
fuel. -/
def assignments? : Nat → List Char → Option (List Assignment × List Char)
  | 0, _ => none
  | fuel + 1, cs => do
    match ← skipSpace cs with
    | [] => return ([], [])
    | '[' :: rest => return ([], '[' :: rest)
    | rest =>
      let (a, rest) ← assignment? rest
      let (as, rest) ← assignments? fuel rest
      return (a :: as, rest)

/-- The sections from the next header on.  Each takes one unit of fuel. -/
def sections? : Nat → List Char → Option (List Section)
  | 0, _ => none
  | fuel + 1, cs =>
    match cs with
    | [] => some []
    | cs => do
      let (header, rest) ← header? cs
      let (as, rest) ← assignments? (rest.length + 1) rest
      let rest ← sections? fuel rest
      return ⟨header, as⟩ :: rest

/-- A text without a byte order mark at its start. -/
def skipMark : List Char → List Char
  | '\ufeff' :: rest => rest
  | cs => cs

def parse? (s : String) : Option (List (String × Toml)) := do
  let cs := skipMark s.toList
  let (as, rest) ← assignments? (cs.length + 1) cs
  let sections ← sections? (rest.length + 1) rest
  assemble (⟨.root, as⟩ :: sections)

end FilterReference.Toml
