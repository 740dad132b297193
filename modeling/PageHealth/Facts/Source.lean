import PageHealth.Facts.Json
import PageHealth.Files.Machine

namespace PageHealth

open Files (Machine FileError TextError)

inductive FactsError where
  | unopened (path : String) (cause : FileError)
  | unreadable (path : String) (cause : FileError)
  | malformed (path : String) (cause : Json.ReadError)
  | inputUnreadable (cause : TextError)
  | inputMalformed (cause : Json.ReadError)

def notAnObject (cause : Json.ReadError) : String := "Facts must be a JSON object: " ++ cause.message

def FactsError.message : FactsError → String
  | unopened path cause => "Failed to open facts file at " ++ path ++ ": " ++ cause.message
  | unreadable path cause =>
    "Failed to parse facts: " ++ path ++ " is not a JSON object: " ++ cause.message
  | malformed path cause =>
    "Failed to parse facts: " ++ path ++ " is not a JSON object: " ++ cause.message
  | inputUnreadable cause => cause.message
  | inputMalformed cause => notAnObject cause

/-- The facts in what was read of a file. A folder can be opened like a file, but not read. -/
def Facts.ofFile (path : String) :
    Except FileError ByteArray → Except FactsError (Facts Binary64)
  | .error .isFolder => .error (.unreadable path .isFolder)
  | .error cause => .error (.unopened path cause)
  | .ok bytes => (Facts.ofBytes bytes).mapError (.malformed path)

def Facts.ofInput (bytes : ByteArray) : Except FactsError (Facts Binary64) :=
  match Files.textOf bytes with
  | .error cause => .error (.inputUnreadable cause)
  | .ok text => (Facts.ofJson text).mapError .inputMalformed

variable {m : Type → Type} [Monad m] [Machine m]

def Facts.load (path : String) : m (Except FactsError (Facts Binary64)) := do
  return Facts.ofFile path (← Machine.read path)

/-- A hyphen stands for the standard input. -/
def Facts.loadFrom (source : String) : m (Except FactsError (Facts Binary64)) := do
  if source = "-" then
    match ← Machine.input with
    | .ok bytes => return Facts.ofInput bytes
    | .error cause => return .error (.inputUnreadable (.unreadable cause))
  else Facts.load source

end PageHealth
