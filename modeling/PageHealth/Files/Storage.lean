import PageHealth.Files.Machine
import PageHealth.Files.Path

namespace PageHealth.Files

inductive Entry where
  | folder
  | file (content : ByteArray)

abbrev Place := List String

/-- What there is at each place; at the root there is always a folder. -/
structure Storage where
  entries : List (Place × Entry)

namespace Storage

def empty : Storage := ⟨[]⟩

def entry? (storage : Storage) (place : Place) : Option Entry :=
  if place.isEmpty then some .folder
  else (storage.entries.find? fun e => e.1 = place).map Prod.snd

def put (storage : Storage) (place : Place) (entry : Entry) : Storage :=
  ⟨(place, entry) :: storage.entries.filter fun e => e.1 ≠ place⟩

def remove (storage : Storage) (place : Place) : Storage :=
  ⟨storage.entries.filter fun e => !place.isPrefixOf e.1⟩

def step (storage : Storage) (place : Place) (segment : String) : Except FileError Place :=
  match storage.entry? place with
  | none => .error .notFound
  | some (.file _) => .error .notFolder
  | some .folder =>
    if staysInPlace segment then .ok place
    else if segment = ".." then .ok place.dropLast
    else .ok (place ++ [segment])

def locate (storage : Storage) (folder : Place) (path : String) : Except FileError Place :=
  if path = "" then .error .notFound
  else (segments path).foldlM storage.step (if isAbsolute path then [] else folder)

def isThere (storage : Storage) (folder : Place) (path : String) : Bool :=
  match storage.locate folder path with
  | .ok place => (storage.entry? place).isSome
  | .error _ => false

def read (storage : Storage) (folder : Place) (path : String) : Except FileError ByteArray := do
  match storage.entry? (← storage.locate folder path) with
  | none => .error .notFound
  | some .folder => .error .isFolder
  | some (.file content) => .ok content

def createAlong (storage : Storage) (place : Place) :
    List String → Except FileError Unit × Storage
  | [] => (.ok (), storage)
  | segment :: rest =>
    if staysInPlace segment then storage.createAlong place rest
    else if segment = ".." then storage.createAlong place.dropLast rest
    else
      let place := place ++ [segment]
      match storage.entry? place with
      | some .folder => storage.createAlong place rest
      | some (.file _) => (.error (if rest.isEmpty then .alreadyThere else .notFolder), storage)
      | none => (storage.put place .folder).createAlong place rest

def createFolder (storage : Storage) (folder : Place) (path : String) :
    Except FileError Unit × Storage :=
  if path = "" then (.error .notFound, storage)
  else storage.createAlong (if isAbsolute path then [] else folder) (segments path)

def locateParent (storage : Storage) (folder : Place) (path : String) :
    Except FileError Place := do
  let parent := (parent? path).getD ""
  let place ← if parent = "" then .ok folder else storage.locate folder parent
  storage.step place "."

def replace (storage : Storage) (folder : Place) (path : String) (content : ByteArray) :
    Except ReplaceError Unit × Storage :=
  match fileName? path, storage.locateParent folder path with
  | none, _ => (.error (.opening .isFolder), storage)
  | _, .error cause => (.error (.opening cause), storage)
  | some name, .ok parent =>
    let place := parent ++ [name]
    match storage.entry? place with
    | some .folder => (.error (.finishing .isFolder), storage)
    | _ => (.ok (), storage.put place (.file content))

end Storage

/-- A machine in memory: its files, the folder that relative paths start from, what it has for
standard input, and the moment at which it stands still. -/
structure World where
  storage : Storage
  folder : Place
  input : ByteArray
  now : String

def World.change {β : Type} (f : Storage → Place → β × Storage) : StateM World β := do
  let world ← get
  let (result, storage) := f world.storage world.folder
  set { world with storage := storage }
  return result

instance : Machine (StateM World) where
  isThere path := do
    let world ← get
    return world.storage.isThere world.folder path
  read path := do
    let world ← get
    return world.storage.read world.folder path
  createFolder path := World.change fun storage folder => storage.createFolder folder path
  replace path content := World.change fun storage folder => storage.replace folder path content
  input := return .ok (← get).input
  now := return (← get).now
  clock := return 0

end PageHealth.Files
