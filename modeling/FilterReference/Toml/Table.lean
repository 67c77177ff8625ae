/-
# Values and tables

A value of a TOML text is of one of the kinds of `Toml`.  Tables are the kind that is not read in
one place.

A TOML text defines its tables piece by piece: by headers, by headers of tables below them, and by
dotted keys.  A `Tree` is a table under construction, which remembers how each table came to be,
because that decides what may still be added to it:

* a table with a header of its own, like one written inline, is complete;
* a table that only lies on the way to such a header may still get its own;
* a table made by dotted keys may be extended by further dotted keys, and by headers below it.
-/
import FilterReference.Decimal.Layout

namespace FilterReference

/-- A TOML value.  The entries of a table are in the order in which they were defined.  Dates and
times are told apart from other values, but nothing reads them. -/
inductive Toml where
  | string (s : String)
  | integer (n : Int)
  | float (x : Float)
  | boolean (b : Bool)
  | dateTime
  | array (items : List Toml)
  | table (entries : List (String × Toml))

namespace Toml

/-- How a table came to be. -/
inductive Origin where
  /-- By a header of its own. -/
  | header
  /-- On the way to a table with a header. -/
  | implied
  /-- On the way to a dotted key. -/
  | dotted
deriving DecidableEq, Repr

/-- A value under construction. -/
inductive Tree where
  | leaf (v : Toml)
  | table (origin : Origin) (entries : List (String × Tree))
  /-- The tables of an array of tables; the last of them is open. -/
  | tables (elements : List (List (String × Tree)))

abbrev Entries := List (String × Tree)

def lookUp? (key : String) (es : Entries) : Option Tree := (es.find? (·.1 = key)).map (·.2)

/-- The entries with another tree for a key that is there. -/
def replaceEntry (key : String) (t : Tree) (es : Entries) : Entries :=
  es.map fun e => if e.1 = key then (key, t) else e

def removeEntry (key : String) (es : Entries) : Entries := es.filter (·.1 ≠ key)

/-- Changes the last element of a list. -/
def changeLast? {α : Type} (f : α → Option α) : List α → Option (List α)
  | [] => none
  | [x] => (f x).map ([·])
  | x :: y :: rest => (changeLast? f (y :: rest)).map (x :: ·)

/-- Adds a key below a dotted path.  `here` is the origin of the table reached so far, `top` says
that it is the one the path starts from. -/
def addDotted (key : String) (v : Toml) :
    List String → Bool → Origin → Entries → Option Entries
  | [], top, here, es =>
    if (top || here == .dotted) && (lookUp? key es).isNone then some (es ++ [(key, .leaf v)])
    else none
  | p :: path, _, _, es =>
    match lookUp? p es with
    | none => do
      let below ← addDotted key v path false .dotted []
      return es ++ [(p, .table .dotted below)]
    | some (.leaf _) => none
    | some (.table origin below) => do
      if origin = .header then none
      else
        let below ← addDotted key v path false origin below
        return replaceEntry p (.table origin below) es
    | some (.tables elements) => do
      let elements ← changeLast? (addDotted key v path false .header) elements
      return replaceEntry p (.tables elements) es

/-- Changes the table that a path of header keys leads to, making those on the way. -/
def changeAt (f : Entries → Option Entries) : List String → Entries → Option Entries
  | [], es => f es
  | p :: path, es =>
    match lookUp? p es with
    | none => do
      let below ← changeAt f path []
      return es ++ [(p, .table .implied below)]
    | some (.leaf _) => none
    | some (.table origin below) => do
      let below ← changeAt f path below
      return replaceEntry p (.table origin below) es
    | some (.tables elements) => do
      let elements ← changeLast? (changeAt f path) elements
      return replaceEntry p (.tables elements) es

/-- A key with its path, and its value. -/
structure Assignment where
  path : List String
  key : String
  value : Toml

/-- Adds assignments to a table in order. -/
def assign (es : Entries) (assignments : List Assignment) : Option Entries :=
  assignments.foldlM (fun es a => addDotted a.key a.value a.path true .header es) es

/-- The header of a section: of the table at the beginning, of a table, or of a further element of
an array of tables. -/
inductive Header where
  | root
  | table (path : List String) (key : String)
  | element (path : List String) (key : String)

/-- A header with the assignments below it. -/
structure Section where
  header : Header
  assignments : List Assignment

def addSection (es : Entries) (s : Section) : Option Entries :=
  match s.header with
  | .root => assign es s.assignments
  | .table path key =>
    changeAt (fun es =>
      match lookUp? key es with
      | none => do return es ++ [(key, .table .header (← assign [] s.assignments))]
      | some (.table .implied below) => do
        return removeEntry key es ++ [(key, .table .header (← assign below s.assignments))]
      | some _ => none) path es
  | .element path key =>
    changeAt (fun es =>
      match lookUp? key es with
      | none => do return es ++ [(key, .tables [← assign [] s.assignments])]
      | some (.tables elements) => do
        return replaceEntry key (.tables (elements ++ [← assign [] s.assignments])) es
      | some _ => none) path es

mutual

/-- The value of a finished tree. -/
def Tree.toToml : Tree → Toml
  | .leaf v => v
  | .table _ es => .table (Tree.entriesToToml es)
  | .tables elements => .array (Tree.elementsToToml elements)

def Tree.entriesToToml : List (String × Tree) → List (String × Toml)
  | [] => []
  | (key, t) :: rest => (key, t.toToml) :: Tree.entriesToToml rest

/-- The elements of a finished array of tables. -/
def Tree.elementsToToml : List (List (String × Tree)) → List Toml
  | [] => []
  | es :: rest => .table (Tree.entriesToToml es) :: Tree.elementsToToml rest

end

/-- The table that the sections of a text define, unless one of them redefines something. -/
def assemble (sections : List Section) : Option (List (String × Toml)) :=
  (sections.foldlM addSection []).map Tree.entriesToToml

/-- The table that assignments within braces define. -/
def assembleInline (assignments : List Assignment) : Option Toml :=
  (assign [] assignments).map fun es => .table (Tree.entriesToToml es)

end Toml

end FilterReference
