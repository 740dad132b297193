namespace PageHealth.Files

inductive FileError where
  | notFound
  | alreadyThere
  | notFolder
  | isFolder
  | other (message : String)
  deriving DecidableEq

def FileError.message : FileError → String
  | notFound => "No such file or directory (os error 2)"
  | alreadyThere => "File exists (os error 17)"
  | notFolder => "Not a directory (os error 20)"
  | isFolder => "Is a directory (os error 21)"
  | other message => message

/-- A file is replaced in steps, so that nobody ever sees half of it: a new file is opened beside it and
written, and when that is complete it takes the old one's place. -/
inductive ReplaceError where
  | opening (cause : FileError)
  | writing (cause : FileError)
  | finishing (cause : FileError)
  deriving DecidableEq

class Machine (m : Type → Type) where
  isThere : String → m Bool
  read : String → m (Except FileError ByteArray)
  /-- Creates a folder and those it lies in, as far as they are missing. -/
  createFolder : String → m (Except FileError Unit)
  replace : String → ByteArray → m (Except ReplaceError Unit)
  input : m (Except FileError ByteArray)
  now : m String
  /-- A running count of nanoseconds. -/
  clock : m Nat

inductive TextError where
  | unreadable (cause : FileError)
  | notText
  deriving DecidableEq

def TextError.message : TextError → String
  | unreadable cause => cause.message
  | notText => "stream did not contain valid UTF-8"

def textOf (bytes : ByteArray) : Except TextError String :=
  match String.fromUTF8? bytes with
  | some text => .ok text
  | none => .error .notText

variable {m : Type → Type} [Monad m] [Machine m]

def readText (path : String) : m (Except TextError String) := do
  match ← Machine.read path with
  | .ok bytes => return textOf bytes
  | .error cause => return .error (.unreadable cause)

end PageHealth.Files
