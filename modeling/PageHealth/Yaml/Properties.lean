import PageHealth.Yaml.Line
import PageHealth.Yaml.Tree

namespace PageHealth.Yaml

def isFlowMark (c : Char) : Bool := [',', '[', ']', '\x7b', '\x7d'].contains c

def isNameChar (c : Char) : Bool := !isSpace c && !isFlowMark c

structure Properties where
  anchor : Option String
  tag : Option Tag

def Tag.ofName (name : List Char) : Tag :=
  match String.ofList name with
  | "!str" | "<tag:yaml.org,2002:str>" => .text
  | "!bool" | "<tag:yaml.org,2002:bool>" => .boolean
  | "!int" | "<tag:yaml.org,2002:int>" => .integer
  | "!float" | "<tag:yaml.org,2002:float>" => .double
  | "!null" | "<tag:yaml.org,2002:null>" => .null
  | _ => .other

def takeName (cs : List Char) : List Char × List Char :=
  (cs.takeWhile isNameChar, cs.dropWhile isNameChar)

/-- A tag may enclose a name in angle brackets, commas included. -/
def takeTag : List Char → List Char × List Char
  | '<' :: rest =>
    let inside := rest.takeWhile (· ≠ '>')
    let (more, rest) := takeName (rest.dropWhile (· ≠ '>'))
    ('<' :: inside ++ more, rest)
  | cs => takeName cs

def Properties.readOne (properties : Properties) (cs : List Char) :
    Except Fault (Properties × List Char) :=
  match properties, cs with
  | ⟨none, tag⟩, '&' :: rest =>
    match takeName rest with
    | ([], _) => .error .invalidTag
    | (name, rest) => .ok (⟨some (String.ofList name), tag⟩, skipSpaces rest)
  | ⟨anchor, none⟩, '!' :: rest =>
    let (name, rest) := takeTag rest
    .ok (⟨anchor, some (.ofName name)⟩, skipSpaces rest)
  | properties, cs => .ok (properties, cs)

def Properties.read (cs : List Char) : Except Fault (Properties × List Char) := do
  let (properties, cs) ← Properties.readOne ⟨none, none⟩ cs
  properties.readOne cs

def Properties.isEmpty (properties : Properties) : Bool :=
  properties.anchor.isNone && properties.tag.isNone

def Tree.withProperties (properties : Properties) (tree : Tree) : Tree :=
  let tagged :=
    match tree, properties.tag with
    | .scalar plain _ text, some tag => .scalar plain (some tag) text
    | tree, _ => tree
  match properties.anchor with
  | some name => .anchored name tagged
  | none => tagged

def readReference (properties : Properties) (cs : List Char) :
    Except Fault (Tree × List Char) :=
  match takeName cs with
  | ([], _) => .error .invalidTag
  | (name, rest) =>
    if properties.isEmpty then .ok (.reference (String.ofList name), rest)
    else .error .invalidTag

end PageHealth.Yaml
