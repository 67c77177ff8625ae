/-
# Access to files

What the program needs of a file system.  Everything it does with files is written against these
operations, so that it runs on the real system and on a `Store` alike.
-/
import FilterReference.Files.Path

namespace FilterReference

/-- Why an operation on a file or directory fails. -/
inductive FileError where
  | notFound
  | notADirectory
  | isADirectory
  | alreadyExists
  /-- The path ends in a dot, which nothing can take the place of. -/
  | busy
  /-- The path holds a NUL character. -/
  | nulInPath
  /-- The path, or a part of it, is too long. -/
  | nameTooLong
  /-- The content is no text. -/
  | invalidText
  /-- Any other failure, by the text the system gives. -/
  | other (text : String)
deriving DecidableEq, Repr

def FileError.message : FileError → String
  | .notFound => "No such file or directory (os error 2)"
  | .notADirectory => "Not a directory (os error 20)"
  | .isADirectory => "Is a directory (os error 21)"
  | .alreadyExists => "File exists (os error 17)"
  | .busy => "Device or resource busy (os error 16)"
  | .nulInPath => "file name contained an unexpected NUL byte"
  | .nameTooLong => "File name too long (os error 36)"
  | .invalidText => "stream did not contain valid UTF-8"
  | .other text => text

/-- What a path leads to when it is opened for reading.  A directory can be opened, but not
read. -/
inductive Opened where
  | file (content : ByteArray)
  | directory

def Opened.read : Opened → Except FileError ByteArray
  | .file content => .ok content
  | .directory => .error .isADirectory

/-- The operations on files, in a monad of effects. -/
class FileAccess (m : Type → Type) where
  /-- Opens a path for reading. -/
  openPath : String → m (Except FileError Opened)
  /-- Whether a path leads anywhere. -/
  isPresent : String → m Bool
  /-- Makes a directory and the directories above it. -/
  makeDirectories : String → m (Except FileError Unit)
  /-- Writes a text in place. -/
  writeText : String → String → m (Except FileError Unit)
  /-- Makes an empty file in a directory, under a name that nothing there has, and gives its path. -/
  makeTemporary : String → m (Except FileError String)
  /-- The permissions of what a path leads to, where the system tells them. -/
  permissions? : String → m (Option Nat)
  setPermissions : String → Nat → m (Except FileError Unit)
  /-- Gives a file that was just made its text, whatever its permissions are by now. -/
  fill : String → String → m (Except FileError Unit)
  /-- Waits until a file is stored. -/
  sync : String → m (Except FileError Unit)
  /-- Moves a file to a path, in the place of a file that stands there, at once. -/
  move : String → String → m (Except FileError Unit)
  removeFile : String → m (Except FileError Unit)

/-! ## Replacing a file

A file is replaced by another that is written beside it and moved, so that nobody finds half of a
text.  Only the last step changes what stands at the path.  When a step fails, the temporary file is
removed, and whether that works is not asked. -/

inductive ReplaceStep where
  | creation
  | permissions
  | content
  | sync
  | move
deriving DecidableEq, Repr

/-- The step that fails when a file is replaced, and the failure of the file system behind it. -/
structure ReplaceError where
  step : ReplaceStep
  cause : FileError
deriving DecidableEq, Repr

section Replace

variable {m : Type → Type} [Monad m] [FileAccess m]

/-- Runs steps up to the first that fails. -/
def runSteps : List (ReplaceStep × m (Except FileError Unit)) → m (Except ReplaceError Unit)
  | [] => return .ok ()
  | (step, action) :: rest => do
    match ← action with
    | .error cause => return .error { step, cause }
    | .ok () => runSteps rest

/-- Hands the permissions of what stands at a path on to another file. -/
def handOnPermissions (path temporary : String) : m (Except FileError Unit) := do
  match ← FileAccess.permissions? path with
  | some mode => FileAccess.setPermissions temporary mode
  | none => return .ok ()

/-- The steps from an empty temporary file on. -/
def replaceSteps (temporary path text : String) :
    List (ReplaceStep × m (Except FileError Unit)) := [
  (.permissions, handOnPermissions path temporary),
  (.content, FileAccess.fill temporary text),
  (.sync, FileAccess.sync temporary),
  (.move, FileAccess.move temporary path)]

/-- Replaces a file by one with a new text, which has its permissions if they are told. -/
def replaceText (path text : String) : m (Except ReplaceError Unit) := do
  match ← FileAccess.makeTemporary (Path.directory path) with
  | .error cause => return .error { step := .creation, cause }
  | .ok temporary =>
    match ← runSteps (replaceSteps temporary path text) with
    | .ok () => return .ok ()
    | .error e =>
      let _ ← FileAccess.removeFile (m := m) temporary
      return .error e

end Replace

/-- The text of a file, which has to be UTF-8. -/
def readTextFile {m : Type → Type} [Monad m] [FileAccess m] (path : String) :
    m (Except FileError String) := do
  let opened ← FileAccess.openPath path
  return do
    let content ← (← opened).read
    match String.fromUTF8? content with
    | some s => .ok s
    | none => .error .invalidText

end FilterReference
