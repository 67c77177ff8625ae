/-
# Command-line arguments

A command takes positional arguments and options.  An option is given by its long name behind two
dashes, or by a letter behind one, and its value stands behind an equals sign, directly behind the
letter, or in the next argument.  An argument that starts with a dash is never a value by itself,
except for a single dash and, where an option admits them, plain negative numbers.  Behind `--`
everything is positional.

Arguments are taken from left to right, and every value is checked when it is taken, so that of
misuse and a request for help the one that is met first counts.
-/
import FilterReference.Program.Value

namespace FilterReference.Arguments

/-- How many values follow an option. -/
inductive Arity where
  | none
  | one
  | upToOne
  | atLeastOne
deriving DecidableEq, Repr

/-- Whether an option may have this many values. -/
def Arity.admits : Arity → Nat → Bool
  | .none, n => n == 0
  | .one, n => n == 1
  | .upToOne, n => n ≤ 1
  | .atLeastOne, n => 1 ≤ n

/-- Whether an option with this many values may take one more. -/
def Arity.takesMore : Arity → Nat → Bool
  | .none, _ => false
  | .one, n => n == 0
  | .upToOne, n => n == 0
  | .atLeastOne, _ => true

structure OptionForm where
  name : String
  letter : Option Char := none
  arity : Arity := .one
  /-- What each of its values has to be. -/
  kind : ValueKind := .text
  /-- Whether it may be given several times. -/
  repeats : Bool := false
  /-- Whether a plain negative number may be its value. -/
  negatives : Bool := false
deriving Repr

/-- What a command takes. -/
structure CommandForm where
  /-- What the positional arguments have to be, in order; there may not be more of them. -/
  positionals : List ValueKind := []
  options : List OptionForm := []
deriving Repr

/-- Why arguments are not carried out. -/
inductive Refusal where
  | misuse
  /-- Help was asked for instead. -/
  | help
deriving DecidableEq, Repr

structure Sorted where
  positionals : List String := []
  /-- Every option that was given, with its values. -/
  options : List (String × List String) := []
deriving DecidableEq, Repr

namespace Sorted

def has (s : Sorted) (name : String) : Bool := s.options.any (·.1 = name)

/-- All values of an option, however often it was given. -/
def values (s : Sorted) (name : String) : List String :=
  (s.options.filter (·.1 = name)).flatMap (·.2)

def add (s : Sorted) (form : OptionForm) (values : List String) : Except Refusal Sorted :=
  if form.arity.admits values.length && values.all form.kind.admits &&
      (form.repeats || !s.has form.name) then
    .ok { s with options := s.options ++ [(form.name, values)] }
  else .error .misuse

/-- Adds the next positional argument of a command. -/
def addPositional (s : Sorted) (form : CommandForm) (arg : String) : Except Refusal Sorted :=
  match form.positionals[s.positionals.length]? with
  | some kind =>
    if kind.admits arg then .ok { s with positionals := s.positionals ++ [arg] }
    else .error .misuse
  | none => .error .misuse

end Sorted

/-! ## Single arguments

What an argument looks like depends on its characters alone.  Which options there are, and whether
one of them is still waiting for a value, comes in only when arguments are sorted. -/

/-- What an argument looks like. -/
inductive Look where
  | plain
  /-- Two dashes by themselves. -/
  | escape
  /-- Two dashes, a name, and a value if there is an equals sign. -/
  | long (name : List Char) (value : Option (List Char))
  /-- One dash and something behind it. -/
  | letters (cs : List Char)
deriving DecidableEq, Repr

/-- A text before and behind the first equals sign. -/
def splitEquals : List Char → List Char × Option (List Char)
  | [] => ([], none)
  | c :: rest =>
    if c = '=' then ([], some rest)
    else
      let (name, value) := splitEquals rest
      (c :: name, value)

def look : List Char → Look
  | '-' :: '-' :: [] => .escape
  | '-' :: '-' :: rest =>
    let (name, value) := splitEquals rest
    .long name value
  | '-' :: c :: rest => .letters (c :: rest)
  | _ => .plain

/-- Digits with at most one point, which is not the first character, before at most one exponent,
which is not empty; `seenPoint` and `seenMark` tell what came before. -/
def isNumberTail (seenPoint seenMark : Bool) : List Char → Bool
  | [] => true
  | c :: rest =>
    if c.isDigit then isNumberTail seenPoint seenMark rest
    else if c = '.' then !seenPoint && !seenMark && isNumberTail true seenMark rest
    else if c = 'e' ∨ c = 'E' then !seenMark && !rest.isEmpty && isNumberTail seenPoint true rest
    else false

/-- What may follow the sign of a plain negative number. -/
def isPlainNumber : List Char → Bool
  | [] => false
  | c :: rest => c.isDigit && isNumberTail false false rest

/-! ## Sorting

An option may still be taking values when the next argument comes (`Pending`).  It is closed, and
its values are checked, as soon as it can take no more or an argument comes that is not one of them.
-/

/-- The option that still takes values, with those it has. -/
abbrev Pending := Option (OptionForm × List String)

/-- Ends the values of an option. -/
def close (s : Sorted) : Pending → Except Refusal Sorted
  | none => .ok s
  | some (form, values) => s.add form values

/-- Takes an argument that is no option. -/
def takePlain (form : CommandForm) (s : Sorted) (pending : Pending) (arg : String) :
    Except Refusal (Sorted × Pending) :=
  match pending with
  | none => do return (← s.addPositional form arg, none)
  | some (form, values) =>
    let values := values ++ [arg]
    if form.arity.takesMore values.length then .ok (s, some (form, values))
    else do return (← s.add form values, none)

/-- Takes an option, with its value if that was in the same argument. -/
def takeOption (s : Sorted) (form : OptionForm) (value : Option (List Char)) :
    Except Refusal (Sorted × Pending) :=
  match value with
  | some cs =>
    if form.arity = .none then .error .misuse
    else do return (← s.add form [String.ofList cs], none)
  | none =>
    if form.arity = .none then do return (← s.add form [], none)
    else .ok (s, some (form, []))

def takeLong (forms : List OptionForm) (s : Sorted) (name : List Char)
    (value : Option (List Char)) : Except Refusal (Sorted × Pending) :=
  match forms.find? (·.name = String.ofList name) with
  | some form => takeOption s form value
  | none =>
    .error (if name = ['h', 'e', 'l', 'p'] ∧ value = none then .help else .misuse)

/-- What stands behind the letter of an option with a value, an equals sign left out. -/
def attached : List Char → Option (List Char)
  | [] => none
  | '=' :: cs => some cs
  | cs => some cs

def takeLetters (forms : List OptionForm) : Sorted → List Char → Except Refusal (Sorted × Pending)
  | s, [] => .ok (s, none)
  | s, c :: rest =>
    match forms.find? (·.letter = some c) with
    | some form =>
      if form.arity = .none then
        match s.add form [] with
        | .ok s => takeLetters forms s rest
        | .error e => .error e
      else takeOption s form (attached rest)
    | none => .error (if c = 'h' then .help else .misuse)

/-- Whether letters are a value of the option that takes values. -/
def isNegativeValue (pending : Pending) (letters : List Char) : Bool :=
  match pending with
  | some (form, _) => form.negatives && isPlainNumber letters
  | none => false

/-- Sorts the arguments that follow those already sorted. -/
def sortFrom (form : CommandForm) : Sorted → Pending → List String → Except Refusal Sorted
  | s, pending, [] => close s pending
  | s, pending, arg :: rest =>
    match look arg.toList with
    | .escape => do rest.foldlM (·.addPositional form ·) (← close s pending)
    | .long name value => do
      let (s, pending) ← takeLong form.options (← close s pending) name value
      sortFrom form s pending rest
    | .letters cs =>
      if isNegativeValue pending cs then do
        let (s, pending) ← takePlain form s pending arg
        sortFrom form s pending rest
      else do
        let (s, pending) ← takeLetters form.options (← close s pending) cs
        sortFrom form s pending rest
    | .plain => do
      let (s, pending) ← takePlain form s pending arg
      sortFrom form s pending rest

def sort (form : CommandForm) (args : List String) : Except Refusal Sorted :=
  sortFrom form {} none args

end FilterReference.Arguments
