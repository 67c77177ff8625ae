/-
# Record files

A record file is replaced as a whole: the text is rendered first, and a record that cannot be
rendered touches no file.  A file that is read has to hold a usable record.
-/
import FilterReference.Files.Access
import FilterReference.Record.Text

namespace FilterReference

inductive RecordWriteError where
  | nonFinite (e : NonFinite)
  | replace (path : String) (e : ReplaceError)
deriving DecidableEq, Repr

def RecordWriteError.message : RecordWriteError → String
  | .nonFinite e => e.message
  | .replace path e => s!"I/O error on '{path}': " ++ e.cause.message

inductive RecordReadError where
  | file (path : String) (e : FileError)
  | text (path : String) (e : Record.TextError)
deriving DecidableEq

namespace Record

variable {m : Type → Type} [Monad m] [FileAccess m]

def write (r : Record) (path : String) : m (Except RecordWriteError Unit) := do
  match r.render with
  | .error e => return .error (.nonFinite e)
  | .ok text =>
    match ← replaceText path text with
    | .error e => return .error (.replace path e)
    | .ok () => return .ok ()

def load (path : String) : m (Except RecordReadError Record) := do
  match ← readTextFile path with
  | .error e => return .error (.file path e)
  | .ok text =>
    match read text with
    | .error e => return .error (.text path e)
    | .ok r => return .ok r

end Record

end FilterReference
