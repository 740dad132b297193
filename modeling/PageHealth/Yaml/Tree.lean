namespace PageHealth.Yaml

inductive Fault where
  | unclosedText
  | invalidEscape
  | unclosedCollection
  | missingSeparator
  | misplaced
  | invalidTag
  | invalidHeader
  | invalidMarker
  | secondDocument
  | unknownName
  | tooDeep
  | keyNotText
  | notMergeable
  | wrongKind (want : String)
  | unknownField (name : String)
  | duplicateField (name : String)
  | missingField (name : String)
  deriving DecidableEq

def Fault.message : Fault → String
  | unclosedText => "a quoted text is not closed"
  | invalidEscape => "invalid escape in a quoted text"
  | unclosedCollection => "a bracket is not closed"
  | missingSeparator => "expected a comma or a closing bracket"
  | misplaced => "unexpected text or indentation"
  | invalidTag => "invalid tag or anchor"
  | invalidHeader => "invalid header of a block of text"
  | invalidMarker => "invalid document marker"
  | secondDocument => "more than one document"
  | unknownName => "reference to an unknown anchor"
  | tooDeep => "nested too deep"
  | keyNotText => "a key must be text"
  | notMergeable => "only mappings can be merged"
  | wrongKind want => "expected " ++ want
  | unknownField name => "unknown field " ++ name
  | duplicateField name => "duplicate field " ++ name
  | missingField name => "missing field " ++ name

inductive Tag where
  | text
  | boolean
  | integer
  | double
  | null
  | other
  deriving DecidableEq

/-- What a document stands for. A plain scalar is one that is not quoted, so that its spelling
decides its kind. -/
inductive Node where
  | scalar (plain : Bool) (tag : Option Tag) (text : String)
  | sequence (items : List Node)
  | mapping (members : List (String × Node))

inductive Tree where
  | scalar (plain : Bool) (tag : Option Tag) (text : String)
  | sequence (items : List Tree)
  | mapping (members : List (Tree × Tree))
  | anchored (name : String) (tree : Tree)
  | reference (name : String)

def Tree.empty : Tree := .scalar true none ""

abbrev Anchors := List (String × Node)

def Node.isMergeKey : Node → Bool
  | .scalar true none "<<" => true
  | _ => false

def Node.keyText : Node → Except Fault String
  | .scalar _ _ text => .ok text
  | _ => .error .keyNotText

def Node.mergeSources : Node → Except Fault (List (String × Node))
  | .mapping members => .ok members
  | .sequence items => do
    let sources ← items.mapM fun
      | .mapping members => .ok members
      | _ => .error .notMergeable
    return sources.flatten
  | .scalar true none "" => .ok []
  | _ => .error .notMergeable

/-- Members are taken over only where the key is not there yet. -/
def mergeInto (members : List (String × Node)) (sources : List (String × Node)) :
    List (String × Node) :=
  sources.foldl
    (fun members source =>
      if members.any fun m => m.1 = source.1 then members else members ++ [source])
    members

def membersOf (entries : List (Node × Node)) : Except Fault (List (String × Node)) := do
  let (merges, own) := entries.partition fun entry => entry.1.isMergeKey
  let members ← own.mapM fun entry => do return (← entry.1.keyText, entry.2)
  let sources ← merges.mapM fun entry => entry.2.mergeSources
  return mergeInto members sources.flatten

namespace Tree

mutual

/-- The node that a tree stands for. A reference stands for the last node before it that has the
name and is complete. -/
def resolve (anchors : Anchors) : Tree → Except Fault (Node × Anchors)
  | scalar plain tag text => .ok (.scalar plain tag text, anchors)
  | sequence items => do
    let (items, anchors) ← resolveItems anchors items
    return (.sequence items, anchors)
  | mapping members => do
    let (entries, anchors) ← resolveMembers anchors members
    return (.mapping (← membersOf entries), anchors)
  | anchored name tree => do
    let (node, anchors) ← tree.resolve anchors
    return (node, (name, node) :: anchors)
  | reference name =>
    match anchors.find? fun anchor => anchor.1 = name with
    | some anchor => .ok (anchor.2, anchors)
    | none => .error .unknownName

def resolveItems (anchors : Anchors) : List Tree → Except Fault (List Node × Anchors)
  | [] => .ok ([], anchors)
  | tree :: rest => do
    let (node, anchors) ← tree.resolve anchors
    let (nodes, anchors) ← resolveItems anchors rest
    return (node :: nodes, anchors)

def resolveMembers (anchors : Anchors) :
    List (Tree × Tree) → Except Fault (List (Node × Node) × Anchors)
  | [] => .ok ([], anchors)
  | (key, value) :: rest => do
    let (key, anchors) ← key.resolve anchors
    let (value, anchors) ← value.resolve anchors
    let (entries, anchors) ← resolveMembers anchors rest
    return ((key, value) :: entries, anchors)

end

end Tree

end PageHealth.Yaml
