import PageHealth.Yaml.Properties

namespace PageHealth.Yaml

def isIndicator (c : Char) : Bool :=
  isFlowMark c || ['#', '&', '*', '!', '|', '>', '\'', '"', '%', '@', '\x60'].contains c

/-- Whether plain text starts here. A hyphen, question mark or colon starts it only together with
what follows. -/
def startsPlain (flow : Bool) : List Char → Bool
  | [] => false
  | c :: rest =>
    if c = '-' ∨ c = '?' ∨ c = ':' then !startsSpace rest && !(flow && rest.head?.any isFlowMark)
    else !isSpace c && !isIndicator c

def endsPlain (flow afterSpace : Bool) (c : Char) (rest : List Char) : Bool :=
  (c = ':' && (startsSpace rest || (flow && rest.head?.any isFlowMark))) ||
    (c = '#' && afterSpace) || (flow && isFlowMark c)

def cutPlain (flow afterSpace : Bool) : List Char → List Char × List Char
  | [] => ([], [])
  | c :: rest =>
    if endsPlain flow afterSpace c rest then ([], c :: rest)
    else
      let (taken, left) := cutPlain flow (isSpace c) rest
      (c :: taken, left)

/-- How a line break and the empty lines after it are read inside a scalar that is not a block. -/
def foldedBreak (emptyLines : Nat) : List Char :=
  if emptyLines = 0 then [' '] else List.replicate emptyLines '\n'

def dropComment : List Char → List Char
  | '#' :: _ => []
  | cs => cs

def continuePlain (flow : Bool) (least emptyLines : Nat) : List Line → List Char × Rest
  | [] => ([], ⟨[], []⟩)
  | line :: below =>
    if line.isBlank then continuePlain flow least (emptyLines + 1) below
    else if line.indent < least ∨ line.isComment then ([], ⟨[], line :: below⟩)
    else
      match cutPlain flow true (skipSpaces line.text) with
      | ([], _) => ([], ⟨[], line :: below⟩)
      | (taken, []) =>
        let (more, rest) := continuePlain flow least 0 below
        (foldedBreak emptyLines ++ trimEnd taken ++ more, rest)
      | (taken, left) => (foldedBreak emptyLines ++ trimEnd taken, ⟨dropComment left, below⟩)

def readPlain (flow : Bool) (least : Nat) (rest : Rest) : List Char × Rest :=
  match cutPlain flow false rest.here with
  | (taken, []) =>
    let (more, rest) := continuePlain flow least 0 rest.below
    (trimEnd taken ++ more, rest)
  | (taken, left) => (trimEnd taken, ⟨dropComment left, rest.below⟩)

end PageHealth.Yaml
