import PageHealth.Text
import PageHealth.Yaml.Block
import PageHealth.Yaml.Number
import PageHealth.Yaml.Plain
import PageHealth.Yaml.Typed

/-! How a text is spelt as a scalar: plain where nothing could mistake it for something else, in
double quotes or as a block of lines where not. -/
namespace PageHealth.Yaml

def isDigitRun (cs : List Char) : Bool :=
  cs.head?.any isDigit && cs.all fun c => isDigit c || c = '_'

def isExponentEnd (cs : List Char) : Bool := (exponent? cs).isSome

def takeDigitRun (cs : List Char) : List Char × List Char :=
  let isRunChar := fun c => isDigit c || c = '_'
  (cs.takeWhile isRunChar, cs.dropWhile isRunChar)

def looksDecimal (cs : List Char) : Bool :=
  let (whole, rest) := takeDigitRun cs
  match rest with
  | '.' :: rest =>
    let (fraction, rest) := takeDigitRun rest
    (isDigitRun whole || (whole.isEmpty && isDigitRun fraction)) && isExponentEnd rest
  | rest => isDigitRun whole && isExponentEnd rest

def looksNumeric (cs : List Char) : Bool :=
  let magnitude := (splitSign cs).2
  match magnitude with
  | '0' :: c :: rest =>
    looksDecimal magnitude ||
      (c = 'x' && (digitsInBase? 16 rest).isSome) ||
      (c = 'o' && (digitsInBase? 8 rest).isSome) ||
      (c = 'b' && (digitsInBase? 2 rest).isSome)
  | magnitude => looksDecimal magnitude

def specialWords : List String :=
  ["nan", "inf", "+inf", "-inf", ".nan", "+.nan", "-.nan", ".inf", "+.inf", "-.inf"]

def isAmbiguous (cs : List Char) : Bool :=
  isNullText (String.ofList cs) || (boolean? (String.ofList (trimBlanks cs))).isSome ||
    specialWords.contains (lowerCase cs) || looksNumeric cs

def isControl (c : Char) : Bool := inRanges [(0x00, 0x1F), (0x7F, 0x9F)] c

def keepsStructure : List Char → Bool
  | ':' :: ' ' :: _ => false
  | c :: rest => c ≠ '#' && !isControl c && keepsStructure rest
  | [] => true

def startsQuoted (cs : List Char) : Bool :=
  match cs with
  | [] => true
  | c :: rest =>
    isBlank c || isIndicator c || c = ':' ||
      ((c = '-' || c = '?') && (rest.isEmpty || rest.head?.any isBlank))

/-- Text that is read back as the same text when it is written as it is. Blanks at its end are the
exception: they are written, and lost. -/
def isPlainSafe (cs : List Char) : Bool :=
  !isAmbiguous cs && !startsQuoted cs && keepsStructure cs &&
    (trimBlanks cs).getLast? ≠ some ':'

def spellChar (c : Char) : List Char :=
  match c.toNat with
  | 0x00 => ['\\', '0']
  | 0x07 => ['\\', 'a']
  | 0x08 => ['\\', 'b']
  | 0x09 => ['\\', 't']
  | 0x0A => ['\\', 'n']
  | 0x0B => ['\\', 'v']
  | 0x0C => ['\\', 'f']
  | 0x0D => ['\\', 'r']
  | 0x1B => ['\\', 'e']
  | 0x22 => ['\\', '"']
  | 0x5C => ['\\', '\\']
  | 0x85 => ['\\', 'N']
  | 0x2028 => ['\\', 'L']
  | 0x2029 => ['\\', 'P']
  | 0xFEFF => ['\\', 'u', 'F', 'E', 'F', 'F']
  | n => if isControl c then ['\\', 'x', upperHexDigit (n / 16), upperHexDigit (n % 16)] else [c]

def doubleQuoted (cs : List Char) : List Char := '"' :: cs.flatMap spellChar ++ ['"']

def wrapWidth : Nat := 80

/-- Where a text is wrapped. The line is kept in two parts, in reverse: up to the last run of spaces
that has ended, and from that run on. A line that grows too long breaks in that run, of which one
space becomes the line break; the width is then counted from where the break was noticed. When
there is no run to break in, the rest stays on one line. -/
def wrapFrom (line tail : List Char) (width : Nat) : List Char → List (List Char)
  | [] => [(tail ++ line).reverse]
  | c :: rest =>
    let (line, tail) :=
      if c ≠ ' ' ∧ tail.head? = some ' ' then (tail ++ line, [c]) else (line, c :: tail)
    if width < wrapWidth then wrapFrom line tail (width + 1) rest
    else
      match line with
      | ' ' :: line => line.reverse :: wrapFrom [] tail 0 rest
      | _ => [(tail ++ line).reverse ++ rest]

def wrap (cs : List Char) : List (List Char) := wrapFrom [] [] 0 cs

structure Spelling where
  here : List Char
  below : List (List Char)

def Spelling.inline (cs : List Char) : Spelling := ⟨cs, []⟩

def foldedBlock (cs : List Char) : Spelling := ⟨['>', '-'], wrap cs⟩

def literalSign : Nat → List Char
  | 0 => ['-']
  | 1 => []
  | _ => ['+']

/-- A literal block, or a quoted text where a block would need an indentation that has no digit. The
digit is the column of the block. -/
def literalBlock (column : Nat) (cs : List Char) : Spelling :=
  let breaks := (cs.reverse.takeWhile (· = '\n')).length
  let lines := splitAt '\n' (cs.take (cs.length - breaks))
  let indented := (lines.find? fun line => !line.isEmpty).any fun line => line.head? = some ' '
  let empty := List.replicate (breaks - 1) []
  if !indented then ⟨'|' :: literalSign breaks, lines ++ empty⟩
  else if column ≤ 9 then
    ⟨'|' :: Nat.toDigits 10 column ++ literalSign breaks, lines ++ empty⟩
  else .inline (doubleQuoted cs)

def joinLines (cs : List Char) : List Char :=
  ((cs.reverse.dropWhile (· = '\n')).reverse).map fun c => if c = '\n' then ' ' else c

def spell (column : Nat) (text : String) : Spelling :=
  let cs := text.toList
  if cs.contains '\n' then
    if wrapWidth < cs.length || isPlainSafe (joinLines cs) then literalBlock column cs
    else .inline (doubleQuoted cs)
  else if text = "." ∨ text = "#" ∨ text = "-" then .inline ('\'' :: cs ++ ['\''])
  else if isPlainSafe cs then
    if wrapWidth < cs.length then foldedBlock cs else .inline cs
  else .inline (doubleQuoted cs)

end PageHealth.Yaml
