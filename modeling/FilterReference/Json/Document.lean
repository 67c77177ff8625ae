/-
# JSON text as written

`Document.parse` turns any text into a tree, without deciding yet what is wanted of it.  Where the
text stops being JSON the tree ends: the innermost value is `broken`, and every list of items or
members around that place says that it is not `closed`.  A reader that goes through the tree from
left to right therefore meets the first fault of the text, be it one of syntax or of shape, first.

A number keeps its digits and a string says only whether it denotes a text at all, since a reader
may pass over a number out of range or a lone surrogate in a value it has no use for.
-/
import FilterReference.Decimal.Literal
import FilterReference.Text.Characters

namespace FilterReference.Json

/-- A number as written, and whether it has neither point nor exponent. -/
structure Numeral where
  literal : Literal
  whole : Bool
deriving DecidableEq, Repr

/-- A JSON text as a tree. -/
inductive Document where
  | null
  | bool (b : Bool)
  | number (n : Numeral)
  /-- A string; nothing if it holds an unpaired surrogate. -/
  | string (text : Option String)
  | array (items : List Document) (closed : Bool)
  | object (members : List (Option String × Document)) (closed : Bool)
  /-- No value stands here. -/
  | broken

/-! ## Tokens

A string is turned into numbers before it is joined to a text.  Two escapes can make one character,
and a surrogate without the other half is a fault only for a reader that wants the text. -/

def isSpace (c : Char) : Bool := c == ' ' || c == '\n' || c == '\t' || c == '\r'

def skipSpace : List Char → List Char
  | [] => []
  | c :: rest => if isSpace c then skipSpace rest else c :: rest

/-- The rest of a text after a given word. -/
def afterWord? : List Char → List Char → Option (List Char)
  | [], cs => some cs
  | _ :: _, [] => none
  | w :: ws, c :: cs => if w = c then afterWord? ws cs else none

/-- What a one-letter escape stands for. -/
def shortEscape? (c : Char) : Option Char :=
  if c = '"' ∨ c = '\\' ∨ c = '/' then some c
  else if c = 'b' then some '\x08'
  else if c = 'f' then some '\x0c'
  else if c = 'n' then some '\n'
  else if c = 'r' then some '\r'
  else if c = 't' then some '\t'
  else none

/-- The characters of a string as numbers, surrogates included, and the text after its closing
quote. -/
def stringUnits? : List Char → Option (List Nat × List Char)
  | [] => none
  | '"' :: rest => some ([], rest)
  | '\\' :: 'u' :: a :: b :: c :: d :: rest => do
    let n ← Text.hexQuad? a b c d
    let (units, after) ← stringUnits? rest
    return (n :: units, after)
  | '\\' :: c :: rest => do
    let e ← shortEscape? c
    let (units, after) ← stringUnits? rest
    return (e.toNat :: units, after)
  | c :: rest =>
    if c.toNat < 0x20 || c == '\\' then none
    else do
      let (units, after) ← stringUnits? rest
      return (c.toNat :: units, after)

/-- The first half of a pair. -/
def isHighSurrogate (n : Nat) : Bool := 0xd800 ≤ n && n < 0xdc00

def isLowSurrogate (n : Nat) : Bool := 0xdc00 ≤ n && n < 0xe000

/-- The text of such numbers, unless a surrogate stands alone. -/
def joinUnits? : List Nat → Option (List Char)
  | [] => some []
  | h :: l :: rest =>
    if isHighSurrogate h then
      if isLowSurrogate l then
        (joinUnits? rest).map
          (Char.ofNat (0x10000 + (h - 0xd800) * 0x400 + (l - 0xdc00)) :: ·)
      else none
    else if isLowSurrogate h then none
    else (joinUnits? (l :: rest)).map (Char.ofNat h :: ·)
  | [n] => if isHighSurrogate n || isLowSurrogate n then none else some [Char.ofNat n]

/-- The digits of an exponent, if one is written, and the rest. -/
def exponentPart? : List Char → Option (Option Int × List Char)
  | [] => some (none, [])
  | c :: rest =>
    if c = 'e' ∨ c = 'E' then
      let (negative, rest) := takeSign rest
      match spanDigits rest with
      | ([], _) => none
      | (ds, rest) =>
        let n : Int := digitsValue 0 ds
        some (some (if negative then -n else n), rest)
    else some (none, c :: rest)

/-- The digits of a fraction, if one is written, and the rest. -/
def fractionPart? : List Char → Option (Option (List Char) × List Char)
  | '.' :: rest =>
    match spanDigits rest with
    | ([], _) => none
    | (ds, rest) => some (some ds, rest)
  | cs => some (none, cs)

/-- The digits before the point, which begin with a zero only if it is the only one. -/
def wholePart? (cs : List Char) : Option (List Char × List Char) :=
  match spanDigits cs with
  | ([], _) => none
  | ('0' :: _ :: _, _) => none
  | (ds, rest) => some (ds, rest)

/-- A number after its sign, and the rest. -/
def numeral? (negative : Bool) (cs : List Char) : Option (Numeral × List Char) := do
  let (whole, rest) ← wholePart? cs
  let (fraction, rest) ← fractionPart? rest
  let (exponent, rest) ← exponentPart? rest
  return (⟨⟨negative, whole, fraction.getD [], exponent.getD 0⟩,
    fraction.isNone && exponent.isNone⟩, rest)

/-! ## Values

What is missing or out of place ends the list it stands in, and nothing behind it is read.  That is
what the option in each result is for: the text behind a value is given only if the value is whole.
-/

/-- A value without parts, which begins with `c`, and what follows if there is one. -/
def scalar (c : Char) (rest : List Char) : Document × Option (List Char) :=
  let word (d : Document) (w : List Char) : Document × Option (List Char) :=
    match afterWord? w rest with
    | some rest => (d, some rest)
    | none => (.broken, none)
  let numeral (negative : Bool) (cs : List Char) : Document × Option (List Char) :=
    match numeral? negative cs with
    | some (n, rest) => (.number n, some rest)
    | none => (.broken, none)
  if c = 'n' then word .null ['u', 'l', 'l']
  else if c = 't' then word (.bool true) ['r', 'u', 'e']
  else if c = 'f' then word (.bool false) ['a', 'l', 's', 'e']
  else if c = '"' then
    match stringUnits? rest with
    | some (units, rest) => (.string ((joinUnits? units).map String.ofList), some rest)
    | none => (.broken, none)
  else if c = '-' then numeral true rest
  else if c.isDigit then numeral false (c :: rest)
  else (.broken, none)

mutual

/-- The value at the start of a text, and what follows it if it is whole.  A level of nesting takes
two units of fuel and a further item one, and both take a character of the text at least. -/
def value : Nat → List Char → Document × Option (List Char)
  | 0, _ => (.broken, none)
  | fuel + 1, cs =>
    match skipSpace cs with
    | [] => (.broken, none)
    | c :: rest =>
      if c = '[' then
        match skipSpace rest with
        | ']' :: rest => (.array [] true, some rest)
        | rest =>
          let (ds, after) := items fuel rest
          (.array ds after.isSome, after)
      else if c = '\x7b' then
        match skipSpace rest with
        | '\x7d' :: rest => (.object [] true, some rest)
        | rest =>
          let (ms, after) := members fuel rest
          (.object ms after.isSome, after)
      else scalar c rest

/-- One item or more, up to the closing bracket. -/
def items : Nat → List Char → List Document × Option (List Char)
  | 0, _ => ([], none)
  | fuel + 1, cs =>
    match value fuel cs with
    | (d, none) => ([d], none)
    | (d, some rest) =>
      match skipSpace rest with
      | ']' :: rest => ([d], some rest)
      | ',' :: rest =>
        match skipSpace rest with
        | ']' :: _ => ([d], none)
        | rest =>
          let (ds, after) := items fuel rest
          (d :: ds, after)
      | _ => ([d], none)

/-- One member or more, up to the closing brace. -/
def members : Nat → List Char → List (Option String × Document) × Option (List Char)
  | 0, _ => ([], none)
  | fuel + 1, cs =>
    match skipSpace cs with
    | '"' :: rest =>
      match stringUnits? rest with
      | none => ([], none)
      | some (units, rest) =>
        let key := (joinUnits? units).map String.ofList
        match skipSpace rest with
        | ':' :: rest =>
          match value fuel rest with
          | (d, none) => ([(key, d)], none)
          | (d, some rest) =>
            match skipSpace rest with
            | '\x7d' :: rest => ([(key, d)], some rest)
            | ',' :: rest =>
              let (ms, after) := members fuel rest
              ((key, d) :: ms, after)
            | _ => ([(key, d)], none)
        | _ => ([(key, .broken)], none)
    | _ => ([], none)

end

/-- A text as a tree, and whether nothing but white space follows it. -/
def Document.parse (cs : List Char) : Document × Bool :=
  match value (2 * cs.length + 2) cs with
  | (d, none) => (d, false)
  | (d, some rest) => (d, (skipSpace rest).isEmpty)

end FilterReference.Json
