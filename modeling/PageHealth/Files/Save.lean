import PageHealth.Files.Machine
import PageHealth.Files.Path

namespace PageHealth.Files

inductive SaveError where
  | folder (path : String) (cause : FileError)
  | opening (path : String) (cause : FileError)
  | writing (cause : FileError)
  | finishing (cause : FileError)
  deriving DecidableEq

def SaveError.message (subject : String) : SaveError → String
  | folder path cause => "Failed to create directory at " ++ path ++ ": " ++ cause.message
  | opening path cause => "Failed to open atomic write file at " ++ path ++ ": " ++ cause.message
  | writing cause => "Failed to serialize " ++ subject ++ ": " ++ cause.message
  | finishing cause => "Failed to save " ++ subject ++ ": " ++ cause.message

variable {m : Type → Type} [Monad m] [Machine m]

def ensureParent (path : String) : m (Except SaveError Unit) := do
  match parent? path with
  | none | some "" => return .ok ()
  | some parent =>
    if ← Machine.isThere parent then return .ok ()
    else return (← Machine.createFolder parent).mapError (.folder parent)

def save (path text : String) : m (Except SaveError Unit) := do
  match ← ensureParent path with
  | .error e => return .error e
  | .ok () =>
    match ← Machine.replace path text.toUTF8 with
    | .error (.opening cause) => return .error (.opening path cause)
    | .error (.writing cause) => return .error (.writing cause)
    | .error (.finishing cause) => return .error (.finishing cause)
    | .ok () => return .ok ()

end PageHealth.Files
