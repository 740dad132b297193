import PageHealth.Yaml.Quoted

namespace PageHealth.Yaml

/-- The first line that says something; inside a collection it is indented by at least so much. -/
def nextFlowLine (least : Nat) : List Line → Except Fault Rest
  | [] => .error .unclosedCollection
  | line :: below =>
    if line.isIdle then nextFlowLine least below
    else if line.indent < least then .error .misplaced
    else .ok ⟨skipSpaces line.text, below⟩

def flowNext (least : Nat) (rest : Rest) : Except Fault Rest :=
  match skipSpaces rest.here with
  | [] => nextFlowLine least rest.below
  | '#' :: text =>
    if startsSpace rest.here then nextFlowLine least rest.below else .ok ⟨'#' :: text, rest.below⟩
  | text => .ok ⟨text, rest.below⟩

def endsMember (cs : List Char) : Bool := cs.head? = some ',' || cs.head? = some '\x7d'

def endsFlowNode (cs : List Char) : Bool := cs.head?.any [',', ':', ']', '\x7d'].contains

mutual

def flowNode (fuel least : Nat) (rest : Rest) : Except Fault (Tree × Rest) :=
  match fuel with
  | 0 => .error .tooDeep
  | fuel + 1 => do
    let (properties, here) ← Properties.read rest.here
    let rest ← flowNext least ⟨here, rest.below⟩
    if !properties.isEmpty && endsFlowNode rest.here then
      return (Tree.empty.withProperties properties, rest)
    match rest.here with
    | '[' :: here => do
      let (tree, rest) ← flowItems fuel least [] ⟨here, rest.below⟩
      return (tree.withProperties properties, rest)
    | '\x7b' :: here => do
      let (tree, rest) ← flowMembers fuel least [] ⟨here, rest.below⟩
      return (tree.withProperties properties, rest)
    | '*' :: here => do
      let (tree, here) ← readReference properties here
      return (tree, ⟨here, rest.below⟩)
    | c :: here =>
      if c = '"' ∨ c = '\'' then do
        let (text, rest) ← readQuoted (c = '"') least ⟨here, rest.below⟩
        return (Tree.withProperties properties (.scalar false none (String.ofList text)), rest)
      else if startsPlain true rest.here then
        let (text, rest) := readPlain true least rest
        return (Tree.withProperties properties (.scalar true none (String.ofList text)), rest)
      else .error .misplaced
    | [] => .error .misplaced

def flowItems (fuel least : Nat) (items : List Tree) (rest : Rest) : Except Fault (Tree × Rest) :=
  match fuel with
  | 0 => .error .tooDeep
  | fuel + 1 => do
    let rest ← flowNext least rest
    match rest.here with
    | ']' :: here => return (.sequence items.reverse, ⟨here, rest.below⟩)
    | _ => do
      let (item, rest) ← flowNode fuel least rest
      let rest ← flowNext least rest
      match rest.here with
      | ',' :: here => flowItems fuel least (item :: items) ⟨here, rest.below⟩
      | ']' :: here => return (.sequence (item :: items).reverse, ⟨here, rest.below⟩)
      | _ => .error .missingSeparator

/-- The members up to the closing brace, after those already read in reverse. A member without a
colon has no value. -/
def flowMembers (fuel least : Nat) (members : List (Tree × Tree)) (rest : Rest) :
    Except Fault (Tree × Rest) :=
  match fuel with
  | 0 => .error .tooDeep
  | fuel + 1 => do
    let rest ← flowNext least rest
    match rest.here with
    | '\x7d' :: here => return (.mapping members.reverse, ⟨here, rest.below⟩)
    | _ => do
      let marked := Line.isKey ⟨0, rest.here⟩
      let rest ← flowNext least (if marked then ⟨rest.here.drop 1, rest.below⟩ else rest)
      let (key, rest) ← flowNode fuel least rest
      let rest ← flowNext least rest
      let (value, rest) ← flowValue fuel least rest
      match rest.here with
      | ',' :: here => flowMembers fuel least ((key, value) :: members) ⟨here, rest.below⟩
      | '\x7d' :: here => return (.mapping ((key, value) :: members).reverse, ⟨here, rest.below⟩)
      | _ => .error .missingSeparator

def flowValue (fuel least : Nat) (rest : Rest) : Except Fault (Tree × Rest) :=
  match fuel with
  | 0 => .error .tooDeep
  | fuel + 1 =>
    match rest.here with
    | ':' :: here => do
      let rest ← flowNext least ⟨here, rest.below⟩
      if endsMember rest.here then return (Tree.empty, rest)
      let (value, rest) ← flowNode fuel least rest
      return (value, ← flowNext least rest)
    | _ => .ok (Tree.empty, rest)

end

end PageHealth.Yaml
