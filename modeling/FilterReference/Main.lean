/-
# The command line

The program on the file system of the machine.  Where the runtime cannot do what the program asks
for, it is said at the operation.
-/
import FilterReference.Program.Execution

namespace FilterReference

/-- The number of a failure; some operations give it negated. -/
def systemCode (code : UInt32) : UInt32 := if code < 0x80000000 then code else 0 - code

/-- The failure that an error of the system stands for. -/
def FileError.ofSystem : IO.Error → FileError
  | .noFileOrDirectory _ _ _ => .notFound
  | .alreadyExists _ _ _ => .alreadyExists
  | .resourceBusy _ _ => .busy
  | .inappropriateType _ code _ =>
    if systemCode code = 21 then .isADirectory else .notADirectory
  | .invalidArgument name code details =>
    if systemCode code = 36 then .nameTooLong
    else if name.any Path.hasNul then .nulInPath
    else .other (toString (IO.Error.invalidArgument name code details))
  | e => .other (toString e)

/-- Runs an action and names its failure. -/
def attemptAction {α : Type} (action : IO α) : IO (Except FileError α) := do
  match ← action.toBaseIO with
  | .ok a => return .ok a
  | .error e => return .error (.ofSystem e)

/-- Opens a path and reads what it leads to. -/
def openOnDisk (path : String) : IO (Except FileError Opened) := do
  match ← attemptAction (IO.FS.readBinFile path) with
  | .ok content => return .ok (.file content)
  | .error .isADirectory => return .ok .directory
  | .error e => return .error e

/-- Makes an empty file with a random name, or with another one if such a file is there. -/
def makeTemporaryOnDisk (directory : String) : Nat → IO (Except FileError String)
  | 0 => return .error .alreadyExists
  | tries + 1 => do
    let path := Path.join directory (Path.temporaryName (← IO.rand 0 999999))
    match ← attemptAction (IO.FS.Handle.mk path .writeNew) with
    | .ok _ => return .ok path
    | .error .alreadyExists => makeTemporaryOnDisk directory tries
    | .error e => return .error e

/-- What three bits of a mode allow. -/
def accessRight (bits : Nat) : IO.AccessRight where
  read := bits.testBit 2
  write := bits.testBit 1
  execution := bits.testBit 0

def fileRight (mode : Nat) : IO.FileRight where
  user := accessRight (mode / 0o100)
  group := accessRight (mode / 0o10)
  other := accessRight mode

instance : FileAccess IO where
  openPath := openOnDisk
  isPresent path := return (← openOnDisk path).isOk
  makeDirectories path := attemptAction (IO.FS.createDirAll path)
  writeText path text := attemptAction (IO.FS.writeFile path text)
  makeTemporary directory := makeTemporaryOnDisk directory Path.temporaryTries
  -- The runtime tells no permissions, so a file that is replaced gets those of a new one.
  permissions? _ := return none
  setPermissions path mode := attemptAction (IO.setAccessRights path (fileRight mode))
  fill path text := attemptAction (IO.FS.writeFile path text)
  -- The runtime has no call for it; the text is with the system once the file is closed.
  sync _ := return .ok ()
  move source path := attemptAction (IO.FS.rename source path)
  removeFile path := attemptAction (IO.FS.removeFile path)

end FilterReference

/-- Runs the program on its arguments. -/
def main (args : List String) : IO UInt32 := do
  let ending ← FilterReference.runProgram args
  IO.print ending.output
  IO.eprint ending.complaint
  return UInt32.ofNat ending.code
