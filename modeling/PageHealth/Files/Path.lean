import PageHealth.Text

namespace PageHealth.Files

def segments (path : String) : List String := (splitAt '/' path.toList).map String.ofList

def isAbsolute (path : String) : Bool := path.toList.head? = some '/'

def staysInPlace (segment : String) : Bool := segment = "" || segment = "."

def fileName? (path : String) : Option String :=
  match ((segments path).filter fun s => !staysInPlace s).getLast? with
  | some ".." | none => none
  | some name => some name

/-- What follows the last point of a name, unless the point is its first character. -/
def extension? (path : String) : Option String := do
  let name ← fileName? path
  let reversed := name.toList.reverse
  match reversed.dropWhile (· ≠ '.') with
  | _ :: _ :: _ => some (String.ofList (reversed.takeWhile (· ≠ '.')).reverse)
  | _ => none

def trimSlashes : List Char → List Char
  | '/' :: c :: rest => trimSlashes (c :: rest)
  | '.' :: '/' :: rest => trimSlashes ('/' :: rest)
  | cs => cs

/-- The path of the folder that a path lies in. A single name lies in the empty path, and the root
lies nowhere. -/
def parent? (path : String) : Option String :=
  match trimSlashes path.toList.reverse with
  | [] | ['/'] => none
  | cs => some (String.ofList (trimSlashes (cs.dropWhile (· ≠ '/'))).reverse)

def inside (folder name : String) : String :=
  if folder = "" ∨ folder.toList.getLast? = some '/' then folder ++ name
  else folder ++ "/" ++ name

end PageHealth.Files
