/-
# A file system as a value

A `Store` holds files and directories by the names that lead to them from a working directory.  That
directory, those above it and the root are there from the start, and nothing else is.  Paths lead
through a store part by part: every part but the last has to be a directory.
-/
import FilterReference.Files.Access
import FilterReference.Files.Path

namespace FilterReference

/-- A file or a directory, with its permission bits. -/
inductive Node where
  | file (content : ByteArray) (mode : Nat)
  | directory (mode : Nat)

def Node.mode : Node → Nat
  | .file _ mode => mode
  | .directory mode => mode

def Node.newFileMode : Nat := 0o644

def Node.newDirectoryMode : Nat := 0o755

/-- Files and directories, each at its place: the names that lead to it from the working directory,
the name `..` once for every directory upwards, or from the root, whose own name is `/`. -/
structure Store where
  entries : List (List String × Node) := []

namespace Store

/-- The working directory or one above it. -/
def isAncestor (place : List String) : Bool := place.all (· = "..")

/-- What stands at a place. -/
def find? (s : Store) (place : List String) : Option Node :=
  match s.entries.find? (·.1 = place) with
  | some (_, node) => some node
  | none =>
    if isAncestor place || place = ["/"] then some (.directory Node.newDirectoryMode) else none

def isDirectory (s : Store) (place : List String) : Bool :=
  match s.find? place with
  | some (.directory _) => true
  | _ => false

/-- Puts a node at a place, in the stead of what stood there. -/
def put (s : Store) (place : List String) (node : Node) : Store :=
  if s.entries.any (·.1 = place) then
    { s with entries := s.entries.map fun e => if e.1 = place then (place, node) else e }
  else { s with entries := s.entries ++ [(place, node)] }

def erase (s : Store) (place : List String) : Store :=
  { s with entries := s.entries.filter (·.1 ≠ place) }

/-- What stands below the working directory. -/
def below (s : Store) : List (List String × Node) :=
  s.entries.filter fun (place, _) =>
    match place.head? with
    | none => false
    | some name => name ≠ ".." && name ≠ "/"

/-! ## Walking along a path

A path is walked from the root or from the working directory, one part after the other.  Every step
has to start from a directory, but what stands at the place it leads to is only looked at by the
next one: whether anything stands at the end is left to the operations. -/

/-- The place above a place; nothing is above the root. -/
def above (place : List String) : List String :=
  if isAncestor place then place ++ [".."]
  else if place = ["/"] then place
  else place.dropLast

def stepInto (s : Store) (place : List String) (part : String) :
    Except FileError (List String) :=
  match s.find? place with
  | none => .error .notFound
  | some (.file _ _) => .error .notADirectory
  | some (.directory _) =>
    if part = "" ∨ part = "." then .ok place
    else if part = ".." then .ok (above place)
    else if Path.maxPartBytes < part.utf8ByteSize then .error .nameTooLong
    else .ok (place ++ [part])

/-- The parts of a path that can be walked along, the root among them. -/
def partsOf (path : String) : Except FileError (List String) :=
  if Path.hasNul path then .error .nulInPath
  else if path = "" then .error .notFound
  else if Path.maxBytes < path.utf8ByteSize then .error .nameTooLong
  else
    let parts := (Path.split path.toList).map String.ofList
    .ok (if Path.isAbsolute path then "/" :: parts else parts)

/-- The place that parts lead to. -/
def walk (s : Store) : List String → Except FileError (List String)
  | "/" :: parts => parts.foldlM s.stepInto ["/"]
  | parts => parts.foldlM s.stepInto []

/-- The place a path leads to; nothing need stand there. -/
def locate (s : Store) (path : String) : Except FileError (List String) := do
  s.walk (← partsOf path)

def lookUp (s : Store) (path : String) : Except FileError (List String × Node) := do
  let place ← s.locate path
  match s.find? place with
  | some node => return (place, node)
  | none => .error .notFound

/-! ## Operations

An operation gives a store, or an error and no store, so one that fails has changed nothing.
`makeDirectories` is the exception: it is made of several operations, and what it has made before it
fails is still there. -/

def openPath (s : Store) (path : String) : Except FileError Opened := do
  match ← s.lookUp path with
  | (_, .file content _) => return .file content
  | (_, .directory _) => return .directory

/-- The permissions of what a path leads to. -/
def mode? (s : Store) (path : String) : Option Nat :=
  match s.lookUp path with
  | .ok (_, node) => some node.mode
  | .error _ => none

def leadsToDirectory (s : Store) (path : String) : Bool :=
  match s.locate path with
  | .ok place => s.isDirectory place
  | .error _ => false

/-- Parts without the empty ones at their end, which slashes there leave. -/
def withoutEmptyEnd (parts : List String) : List String :=
  (parts.reverse.dropWhile (· = "")).reverse

def makeDirectory (s : Store) (path : String) : Except FileError Store := do
  let place ← s.walk (withoutEmptyEnd (← partsOf path))
  if (s.find? place).isSome then .error .alreadyExists
  else return s.put place (.directory Node.newDirectoryMode)

/-- Makes a directory and, where one is missing above it, that first. -/
def makeDirectoriesFrom : Nat → String → Store → Except FileError Unit × Store
  | 0, _, s => (.error .notFound, s)
  | fuel + 1, path, s =>
    if path = "" then (.ok (), s)
    else
      match s.makeDirectory path with
      | .ok s => (.ok (), s)
      | .error e =>
        if e ≠ .notFound then (if s.leadsToDirectory path then .ok () else .error e, s)
        else
          match Path.parent? path with
          | none => (.error .notFound, s)
          | some above =>
            match makeDirectoriesFrom fuel above s with
            | (.error e, s) => (.error e, s)
            | (.ok (), s) =>
              match s.makeDirectory path with
              | .ok s => (.ok (), s)
              | .error e => (if s.leadsToDirectory path then .ok () else .error e, s)

def makeDirectories (s : Store) (path : String) : Except FileError Unit × Store :=
  makeDirectoriesFrom (path.length + 1) path s

/-- A file at a place with a new content; it keeps its permissions if it was there. -/
def putContent (s : Store) (place : List String) (content : ByteArray) :
    Except FileError Store :=
  match s.find? place with
  | some (.directory _) => .error .isADirectory
  | some (.file _ mode) => .ok (s.put place (.file content mode))
  | none => .ok (s.put place (.file content Node.newFileMode))

/-- Writes a file in place.  What a slash follows is taken for a directory as soon as the way to it
is known, whatever it is. -/
def writeFile (s : Store) (path : String) (content : ByteArray) : Except FileError Store := do
  let parts := withoutEmptyEnd (← partsOf path)
  if Path.endsInSlash path then
    let _ ← s.walk (parts.dropLast ++ ["."])
    .error .isADirectory
  else s.putContent (← s.walk parts) content

/-- The last part names nothing new: it is the root, or leads back to where it stands or above. -/
def leadsBack (parts : List String) : Bool :=
  match parts.getLast? with
  | some part => part == "." || part == ".." || part == "/"
  | none => false

/-- Makes an empty file with the first of some names for temporary files that is free in a
directory. -/
def makeTemporaryFrom (s : Store) (directory : String) :
    Nat → Nat → Except FileError (String × Store)
  | 0, _ => .error .alreadyExists
  | tries + 1, n => do
    let path := Path.join directory (Path.temporaryName n)
    let place ← s.locate path
    if (s.find? place).isSome then s.makeTemporaryFrom directory tries (n + 1)
    else return (path, s.put place (.file .empty Node.newFileMode))

def makeTemporary (s : Store) (directory : String) : Except FileError (String × Store) :=
  s.makeTemporaryFrom directory Path.temporaryTries 0

/-- Gives a file that is there a new content. -/
def fillFile (s : Store) (path : String) (content : ByteArray) : Except FileError Store := do
  match ← s.lookUp path with
  | (place, .file _ mode) => return s.put place (.file content mode)
  | (_, .directory _) => .error .isADirectory

def moveFile (s : Store) (source path : String) : Except FileError Store := do
  match ← s.lookUp source with
  | (_, .directory _) => .error .isADirectory
  | (start, .file content mode) =>
    let parts := withoutEmptyEnd (← partsOf path)
    let place ← s.walk parts
    if leadsBack parts then .error .busy
    else if Path.endsInSlash path then .error .notADirectory
    else if s.isDirectory place then .error .isADirectory
    else return (s.erase start).put place (.file content mode)

def removeFile (s : Store) (path : String) : Except FileError Store := do
  match ← s.lookUp path with
  | (place, .file _ _) => return s.erase place
  | (_, .directory _) => .error .isADirectory

/-- Sets the permissions of what a path leads to; higher bits of the mode are no permissions. -/
def setMode (s : Store) (path : String) (mode : Nat) : Except FileError Store := do
  let permissions := mode % 0o1000
  match ← s.lookUp path with
  | (place, .file content _) => return s.put place (.file content permissions)
  | (place, .directory _) => return s.put place (.directory permissions)

/-- A node by its path from the working directory, that of a directory with a slash. -/
def pathOf (place : List String) (node : Node) : String :=
  match node with
  | .file _ _ => "/".intercalate place
  | .directory _ => "/".intercalate place ++ "/"

/-- The paths of all files and directories below the working directory, sorted. -/
def paths (s : Store) : List String :=
  (s.below.map fun e => pathOf e.1 e.2).mergeSort (· ≤ ·)

end Store

/-! ## Access to a store

A store is carried along as a state.  This is where an operation that fails gets the store back that
it was given. -/

/-- Runs an operation that leaves the store as it is when it fails. -/
def Store.attempt {ε : Type} (run : Store → Except ε Store) : StateM Store (Except ε Unit) :=
  fun s =>
    match run s with
    | .ok s => (.ok (), s)
    | .error e => (.error e, s)

instance : FileAccess (StateM Store) where
  openPath path := fun s => (s.openPath path, s)
  isPresent path := fun s => ((s.lookUp path).isOk, s)
  makeDirectories path := fun s => s.makeDirectories path
  writeText path text := Store.attempt (·.writeFile path text.toUTF8)
  makeTemporary directory := fun s =>
    match s.makeTemporary directory with
    | .ok (path, s) => (.ok path, s)
    | .error e => (.error e, s)
  permissions? path := fun s => (s.mode? path, s)
  setPermissions path mode := Store.attempt (·.setMode path mode)
  fill path text := Store.attempt (·.fillFile path text.toUTF8)
  -- What a store holds is stored.
  sync _ := return .ok ()
  move source path := Store.attempt (·.moveFile source path)
  removeFile path := Store.attempt (·.removeFile path)

end FilterReference
