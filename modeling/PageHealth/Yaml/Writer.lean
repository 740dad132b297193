import PageHealth.Number.Notation
import PageHealth.Yaml.Spelling

namespace PageHealth.Yaml

def numberNotation : NumberNotation where
  plainFrom := -5
  plainBelow := 16
  pointZero := true
  mantissaPointZero := true
  exponentPlus := true
  tie := .toEven
  nan := ".nan"
  infinity := ".inf"

def Node.ofBinary64 (x : Binary64) : Node := .scalar true none (numberNotation.write x)

def Node.ofNat (n : Nat) : Node := .scalar true none (digitsText n)

def Node.ofBool (b : Bool) : Node := .scalar true none (if b then "true" else "false")

def Node.ofText (text : String) : Node := .scalar false none text

def spellingLines (column : Nat) (first : List Char) (bodyColumn : Nat) (spelling : Spelling) :
    List Line :=
  ⟨column, first ++ spelling.here⟩ :: spelling.below.map (Line.mk bodyColumn)

def itemLines (column : Nat) : List Line → List Line
  | [] => []
  | line :: below => ⟨column, '-' :: ' ' :: line.text⟩ :: below

namespace Node

mutual

def lines (column : Nat) : Node → List Line
  | scalar true _ text => [⟨column, text.toList⟩]
  | scalar false _ text => spellingLines column [] column (spell column text)
  | sequence [] => [⟨column, ['[', ']']⟩]
  | sequence (item :: rest) => itemsLines column (item :: rest)
  | mapping [] => [⟨column, ['\x7b', '\x7d']⟩]
  | mapping (member :: rest) => membersLines column (member :: rest)

def itemsLines (column : Nat) : List Node → List Line
  | [] => []
  | item :: rest => itemLines column (item.lines (column + 2)) ++ itemsLines column rest

/-- The lines of the members of a mapping. Nodes that need no lines of their own stand behind their
key; a list that is empty does so unless its key is at the margin. -/
def membersLines (column : Nat) : List (String × Node) → List Line
  | [] => []
  | (key, node) :: rest => memberLines column (key.toList ++ [':']) node ++ membersLines column rest

def memberLines (column : Nat) (key : List Char) : Node → List Line
  | scalar true _ text => [⟨column, key ++ ' ' :: text.toList⟩]
  | scalar false _ text =>
    spellingLines column (key ++ [' ']) (column + 2) (spell (column + 2) text)
  | sequence [] =>
    if column = 0 then [⟨column, key⟩, ⟨2, ['[', ']']⟩] else [⟨column, key ++ [' ', '[', ']']⟩]
  | mapping [] => [⟨column, key ++ [' ', '\x7b', '\x7d']⟩]
  | sequence (item :: rest) => ⟨column, key⟩ :: itemsLines (column + 2) (item :: rest)
  | mapping (member :: rest) => ⟨column, key⟩ :: membersLines (column + 2) (member :: rest)

end

end Node

def textOfLines (lines : List Line) : List Char := lines.flatMap fun line => line.chars ++ ['\n']

def Node.write (node : Node) : String := String.ofList (textOfLines (node.lines 0))

end PageHealth.Yaml
