import PageHealth.Yaml.Block
import PageHealth.Yaml.Flow

/-! From the lines of a YAML text to its tree. Nesting is by indentation: what belongs to a mapping or
list is indented more than the column where the mapping or list starts. -/
namespace PageHealth.Yaml

def implicitKey? (cs : List Char) : Option (Tree × List Char) := do
  let (properties, here) ← (Properties.read cs).toOption
  let (tree, rest) ←
    match here with
    | '*' :: rest => (readReference properties rest).toOption
    | c :: rest =>
      if c = '"' ∨ c = '\'' then do
        let (text, rest) ← (readQuoted (c = '"') 0 ⟨rest, []⟩).toOption
        some (Tree.withProperties properties (.scalar false none (String.ofList text)), rest.here)
      else if startsPlain false here then
        let (text, rest) := cutPlain false false here
        some (Tree.withProperties properties (.scalar true none (String.ofList (trimEnd text))), rest)
      else none
    | [] => none
  match skipSpaces rest with
  | ':' :: rest => if startsSpace rest then some (tree, rest) else none
  | _ => none

def closed (properties : Properties) (tree : Tree) (rest : Rest) :
    Except Fault (Tree × List Line) :=
  if endsLine rest.here then .ok (tree.withProperties properties, rest.below)
  else .error .misplaced

def leaf (fuel least : Nat) (properties : Properties) (rest : Rest) :
    Except Fault (Tree × List Line) :=
  match rest.here with
  | [] => .error .misplaced
  | c :: here =>
    if c = '|' ∨ c = '>' then do
      let header ← BlockHeader.read (c = '>') here
      let (text, below) ← header.readText least rest.below
      closed properties (.scalar false none (String.ofList text)) ⟨[], below⟩
    else if c = '"' ∨ c = '\'' then do
      let (text, rest) ← readQuoted (c = '"') least ⟨here, rest.below⟩
      closed properties (.scalar false none (String.ofList text)) rest
    else if c = '[' ∨ c = '\x7b' then do
      let (tree, rest) ← flowNode fuel least rest
      closed properties tree rest
    else if c = '*' then do
      let (tree, here) ← readReference properties here
      closed ⟨none, none⟩ tree ⟨here, rest.below⟩
    else if startsPlain false rest.here then
      let (text, rest) := readPlain false least rest
      closed properties (.scalar true none (String.ofList text)) rest
    else .error .misplaced

mutual

/-- The node on the lines below, if they are indented enough; the items of a list may be indented
less than other nodes. -/
def nodeBelow (fuel least leastItem : Nat) (lines : List Line) : Except Fault (Tree × List Line) :=
  match fuel with
  | 0 => .error .tooDeep
  | fuel + 1 =>
    match dropIdle lines with
    | [] => .ok (Tree.empty, [])
    | line :: below =>
      if least ≤ line.indent ∨ (leastItem ≤ line.indent ∧ line.isItem) then
        if line.isItem then blockItems fuel line.indent [] (line :: below)
        else if line.isKey ∨ (implicitKey? line.text).isSome then
          blockMembers fuel line.indent [] (line :: below)
        else nodeHere fuel least least ⟨skipSpaces line.text, below⟩
      else .ok (Tree.empty, line :: below)

def nodeHere (fuel least leastItem : Nat) (rest : Rest) : Except Fault (Tree × List Line) :=
  match fuel with
  | 0 => .error .tooDeep
  | fuel + 1 => do
    let (properties, here) ← Properties.read rest.here
    if here.isEmpty ∨ here.head? = some '#' then
      let (tree, below) ← nodeBelow fuel least leastItem rest.below
      return (tree.withProperties properties, below)
    else leaf fuel least properties ⟨here, rest.below⟩

def blockItems (fuel column : Nat) (items : List Tree) (lines : List Line) :
    Except Fault (Tree × List Line) :=
  match fuel with
  | 0 => .error .tooDeep
  | fuel + 1 =>
    match dropIdle lines with
    | [] => .ok (.sequence items.reverse, [])
    | line :: below =>
      if column < line.indent then .error .misplaced
      else if line.indent < column ∨ !line.isItem then
        .ok (.sequence items.reverse, line :: below)
      else do
        let (item, below) ← nodeBelow fuel (column + 1) (column + 1) (line.afterMark :: below)
        blockItems fuel column (item :: items) below

def blockMembers (fuel column : Nat) (members : List (Tree × Tree)) (lines : List Line) :
    Except Fault (Tree × List Line) :=
  match fuel with
  | 0 => .error .tooDeep
  | fuel + 1 =>
    match dropIdle lines with
    | [] => .ok (.mapping members.reverse, [])
    | line :: below =>
      if column < line.indent then .error .misplaced
      else if line.indent < column then .ok (.mapping members.reverse, line :: below)
      else do
        let (member, below) ← blockMember fuel column line below
        blockMembers fuel column (member :: members) below

def blockMember (fuel column : Nat) (line : Line) (below : List Line) :
    Except Fault ((Tree × Tree) × List Line) :=
  match fuel with
  | 0 => .error .tooDeep
  | fuel + 1 =>
    if line.isKey then do
      let (key, below) ← nodeBelow fuel (column + 1) (column + 1) (line.afterMark :: below)
      match dropIdle below with
      | line :: below =>
        if line.indent = column ∧ line.isKeyValue then do
          let (value, below) ← nodeBelow fuel (column + 1) column (line.afterMark :: below)
          return ((key, value), below)
        else return ((key, Tree.empty), line :: below)
      | [] => return ((key, Tree.empty), [])
    else
      match implicitKey? line.text with
      | none => .error .misplaced
      | some (key, here) => do
        let (value, below) ← nodeHere fuel (column + 1) column ⟨skipSpaces here, below⟩
        return ((key, value), below)

end

/-- Enough for every nested or further node that so many characters can spell. -/
def fuelFor (lines : List Line) : Nat :=
  4 * lines.foldl (fun n line => n + line.text.length + 2) 2

def Line.afterMarker? (mark : Char) (line : Line) : Option (List Char) :=
  match line.indent, line.text with
  | 0, a :: b :: c :: rest =>
    if a = mark ∧ b = mark ∧ c = mark ∧ startsSpace rest then some rest else none
  | _, _ => none

def Line.isMarker (line : Line) : Bool :=
  (line.afterMarker? '-').isSome || (line.afterMarker? '.').isSome

def Line.isDirective (line : Line) : Bool := line.indent = 0 && line.text.head? = some '%'

def Line.isPrologue (line : Line) : Bool :=
  line.isIdle || line.isDirective || (line.afterMarker? '.').any endsLine

def endsText : List Line → Except Fault Unit
  | [] => .ok ()
  | line :: below =>
    if line.isIdle then endsText below
    else
      match line.afterMarker? '.' with
      | some rest => if endsLine rest then endsText below else .error .invalidMarker
      | none => .error .secondDocument

def readBody (fuel : Nat) (opening : Option (List Char)) (lines : List Line) :
    Except Fault Tree := do
  let body := lines.takeWhile fun line => !line.isMarker
  let (tree, below) ←
    match opening with
    | some here => nodeHere fuel 0 0 ⟨skipSpaces here, body⟩
    | none => nodeBelow fuel 0 0 body
  if !(dropIdle below).isEmpty then throw .misplaced
  endsText (lines.dropWhile fun line => !line.isMarker)
  return tree

def readDocument (lines : List Line) : Except Fault Tree :=
  let fuel := fuelFor lines
  let start := lines.dropWhile Line.isPrologue
  match start.head?.bind (Line.afterMarker? '-') with
  | some here => readBody fuel (some here) (start.drop 1)
  | none =>
    if (lines.takeWhile Line.isPrologue).any Line.isDirective then .error .invalidMarker
    else readBody fuel none start

def Node.ofChars (cs : List Char) : Except Fault Node := do
  let tree ← readDocument (linesOf cs)
  return (← tree.resolve []).1

end PageHealth.Yaml
