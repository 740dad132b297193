/-! The lines of a YAML text. Indentation is counted in spaces; a tab separates but never indents. -/
namespace PageHealth.Yaml

def isSpace (c : Char) : Bool := c = ' ' || c = '\t'

def skipSpaces (cs : List Char) : List Char := cs.dropWhile isSpace

def trimEnd (cs : List Char) : List Char := (cs.reverse.dropWhile isSpace).reverse

def startsSpace : List Char → Bool
  | [] => true
  | c :: _ => isSpace c

structure Line where
  indent : Nat
  text : List Char
  deriving DecidableEq

namespace Line

def ofChars (cs : List Char) : Line :=
  ⟨(cs.takeWhile (· = ' ')).length, cs.dropWhile (· = ' ')⟩

def chars (line : Line) : List Char := List.replicate line.indent ' ' ++ line.text

def isBlank (line : Line) : Bool := (skipSpaces line.text).isEmpty

def isComment (line : Line) : Bool := (skipSpaces line.text).head? = some '#'

def isIdle (line : Line) : Bool := line.isBlank || line.isComment

def isItem (line : Line) : Bool :=
  match line.text with
  | '-' :: rest => startsSpace rest
  | _ => false

def isKey (line : Line) : Bool :=
  match line.text with
  | '?' :: rest => startsSpace rest
  | _ => false

def isKeyValue (line : Line) : Bool :=
  match line.text with
  | ':' :: rest => startsSpace rest
  | _ => false

def afterMark (line : Line) : Line :=
  let rest := line.text.drop 1
  ⟨line.indent + 1 + (rest.takeWhile isSpace).length, skipSpaces rest⟩

end Line

def dropIdle (lines : List Line) : List Line := lines.dropWhile Line.isIdle

structure Rest where
  here : List Char
  below : List Line

/-- Lines end at a line feed, a carriage return, or both in this order. The end of the last line may
be missing. -/
def cutLines : List Char → List (List Char)
  | [] => []
  | '\r' :: '\n' :: rest => [] :: cutLines rest
  | c :: rest =>
    if c = '\n' ∨ c = '\r' then [] :: cutLines rest
    else
      match cutLines rest with
      | line :: lines => (c :: line) :: lines
      | [] => [[c]]

/-- The lines of a text. A byte order mark may start it, and a null character ends it. -/
def linesOf (cs : List Char) : List Line :=
  let cs := cs.takeWhile fun c => c.toNat ≠ 0
  let cs := if cs.head? = some '\uFEFF' then cs.drop 1 else cs
  (cutLines cs).map Line.ofChars

end PageHealth.Yaml
