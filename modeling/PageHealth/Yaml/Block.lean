import PageHealth.Text
import PageHealth.Yaml.Line
import PageHealth.Yaml.Tree

/-! Blocks of text: scalars written on lines of their own below a header. A literal block keeps its
line breaks, a folded one reads them as spaces. -/
namespace PageHealth.Yaml

inductive Chomping where
  | strip
  | clip
  | keep
  deriving DecidableEq

structure BlockHeader where
  folded : Bool
  chomping : Chomping
  indentation : Option Nat
  deriving DecidableEq

def Chomping.ofChar? : Char → Option Chomping
  | '-' => some .strip
  | '+' => some .keep
  | _ => none

def indentationDigit? (c : Char) : Option Nat :=
  if '1' ≤ c ∧ c ≤ '9' then some (digitValue c) else none

def readSigns (header : BlockHeader) (chomped : Bool) : List Char → BlockHeader × List Char
  | [] => (header, [])
  | c :: rest =>
    match Chomping.ofChar? c, indentationDigit? c with
    | some chomping, _ =>
      if chomped then (header, c :: rest)
      else readSigns { header with chomping := chomping } true rest
    | none, some digit =>
      if header.indentation.isSome then (header, c :: rest)
      else readSigns { header with indentation := some digit } chomped rest
    | none, none => (header, c :: rest)

def endsLine (cs : List Char) : Bool :=
  startsSpace cs && ((skipSpaces cs).isEmpty || (skipSpaces cs).head? = some '#')

def BlockHeader.read (folded : Bool) (signs : List Char) : Except Fault BlockHeader :=
  let (header, rest) := readSigns ⟨folded, .clip, none⟩ false signs
  if endsLine rest then .ok header else .error .invalidHeader

/-- The indentation of a block without a given one is that of its first line with text. -/
def detectIndent (least : Nat) (lines : List Line) : Nat :=
  match lines.find? fun line => !line.text.isEmpty with
  | some line => max least line.indent
  | none => lines.foldl (fun widest line => max widest line.indent) least

def isBlockLine (indent : Nat) (line : Line) : Bool := line.text.isEmpty || indent ≤ line.indent

def blockText (indent : Nat) (line : Line) : List Char :=
  List.replicate (line.indent - indent) ' ' ++ line.text

/-- The line breaks between two lines with text of a folded block: lines that start with a space
keep theirs. -/
def blockBreak (before after : List Char) (emptyLines : Nat) : List Char :=
  if before.head?.any isSpace || after.head?.any isSpace then List.replicate (emptyLines + 1) '\n'
  else if emptyLines = 0 then [' ']
  else List.replicate emptyLines '\n'

def foldLines (before : List Char) (emptyLines : Nat) : List (List Char) → List Char
  | [] => []
  | [] :: rest => foldLines before (emptyLines + 1) rest
  | line :: rest => blockBreak before line emptyLines ++ line ++ foldLines line 0 rest

def foldText : List (List Char) → List Char
  | [] => []
  | [] :: rest => '\n' :: foldText rest
  | line :: rest => line ++ foldLines line 0 rest

def literalText : List (List Char) → List Char
  | [] => []
  | [line] => line
  | line :: rest => line ++ '\n' :: literalText rest

def Chomping.ending (chomping : Chomping) (textIsEmpty : Bool) (emptyLines : Nat) : List Char :=
  match chomping, textIsEmpty with
  | .strip, _ => []
  | .clip, true => []
  | .clip, false => ['\n']
  | .keep, true => List.replicate emptyLines '\n'
  | .keep, false => List.replicate (emptyLines + 1) '\n'

def BlockHeader.textOf (header : BlockHeader) (lines : List (List Char)) : List Char :=
  let content := (lines.reverse.dropWhile List.isEmpty).reverse
  let text := if header.folded then foldText content else literalText content
  text ++ header.chomping.ending content.isEmpty (lines.length - content.length)

/-- The block below a header, its text indented by at least so much. Empty lines before the text must
not be longer than its indentation. -/
def BlockHeader.readText (header : BlockHeader) (least : Nat) (below : List Line) :
    Except Fault (List Char × List Line) :=
  let indent :=
    match header.indentation with
    | some digit => least - 1 + digit
    | none => detectIndent least below
  let lines := below.takeWhile (isBlockLine indent)
  if (lines.takeWhile fun line => line.text.isEmpty).any (fun line => indent < line.indent) &&
      header.indentation.isNone then .error .misplaced
  else .ok (header.textOf (lines.map (blockText indent)), below.dropWhile (isBlockLine indent))

end PageHealth.Yaml
