namespace PageHealth

/-- The pieces between the separators; there is always one piece more than there are separators. -/
def splitAt (separator : Char) : List Char → List (List Char)
  | [] => [[]]
  | c :: rest =>
    if c = separator then [] :: splitAt separator rest
    else
      match splitAt separator rest with
      | piece :: pieces => (c :: piece) :: pieces
      | [] => [[c]]

def pathSegments (path : String) : List String := (splitAt '.' path.toList).map String.ofList

def hasEmptySegment (path : String) : Bool := (pathSegments path).any String.isEmpty

/-- The code points that have the White_Space property of Unicode, as closed ranges. -/
def blankRanges : List (Nat × Nat) :=
  [(0x09, 0x0D), (0x20, 0x20), (0x85, 0x85), (0xA0, 0xA0), (0x1680, 0x1680), (0x2000, 0x200A),
   (0x2028, 0x2029), (0x202F, 0x202F), (0x205F, 0x205F), (0x3000, 0x3000)]

def inRanges (ranges : List (Nat × Nat)) (c : Char) : Bool :=
  ranges.any fun r => r.1 ≤ c.toNat && c.toNat ≤ r.2

def isBlank (c : Char) : Bool := inRanges blankRanges c

def isBlankText (text : String) : Bool := text.toList.all isBlank

def trimBlanks (cs : List Char) : List Char :=
  ((cs.dropWhile isBlank).reverse.dropWhile isBlank).reverse

def isDigit (c : Char) : Bool := '0' ≤ c && c ≤ '9'

def digitValue (c : Char) : Nat := c.toNat - '0'.toNat

def takeDigits (cs : List Char) : List Char × List Char := (cs.takeWhile isDigit, cs.dropWhile isDigit)

def digitsValue (digits : List Char) : Nat := digits.foldl (fun n c => n * 10 + digitValue c) 0

def splitSign : List Char → Bool × List Char
  | '-' :: rest => (true, rest)
  | '+' :: rest => (false, rest)
  | cs => (false, cs)

def hexDigit? (c : Char) : Option Nat :=
  if isDigit c then some (digitValue c)
  else if 'a' ≤ c ∧ c ≤ 'f' then some (c.toNat - 'a'.toNat + 10)
  else if 'A' ≤ c ∧ c ≤ 'F' then some (c.toNat - 'A'.toNat + 10)
  else none

def hexNumber? (cs : List Char) : Option Nat :=
  (cs.mapM hexDigit?).map fun digits => digits.foldl (fun n d => n * 16 + d) 0

def lowerHexDigit (n : Nat) : Char := if n < 10 then Char.ofNat (48 + n) else Char.ofNat (87 + n)

def upperHexDigit (n : Nat) : Char := if n < 10 then Char.ofNat (48 + n) else Char.ofNat (55 + n)

/-- Control, format, separator, private-use and unassigned code points, and combining marks of the
general blocks. The ranges cover the blocks themselves, not marks of single scripts. -/
def hiddenRanges : List (Nat × Nat) :=
  [(0x00, 0x1F), (0x7F, 0xA0), (0xAD, 0xAD), (0x300, 0x36F), (0x378, 0x379), (0x483, 0x489),
   (0x591, 0x5BD), (0x600, 0x605), (0x610, 0x61A), (0x61C, 0x61C), (0x64B, 0x65F), (0x6DD, 0x6DD),
   (0x70F, 0x70F), (0x1680, 0x1680), (0x180B, 0x180F), (0x1AB0, 0x1AFF), (0x1DC0, 0x1DFF),
   (0x2000, 0x200F), (0x2028, 0x202F), (0x205F, 0x206F), (0x20D0, 0x20FF), (0x3000, 0x3000),
   (0xD800, 0xF8FF), (0xFE00, 0xFE0F), (0xFE20, 0xFE2F), (0xFEFF, 0xFEFF), (0xFFF0, 0xFFFB),
   (0xFFFE, 0xFFFF), (0xE0000, 0x10FFFF)]

def isHidden (c : Char) : Bool := c ≠ ' ' && inRanges hiddenRanges c

def codePointText (c : Char) : List Char := Nat.toDigits 16 c.toNat

def quoteChar (c : Char) : List Char :=
  match c with
  | '"' => ['\\', '"']
  | '\\' => ['\\', '\\']
  | '\n' => ['\\', 'n']
  | '\r' => ['\\', 'r']
  | '\t' => ['\\', 't']
  | c =>
    if c.toNat = 0 then ['\\', '0']
    else if isHidden c then ['\\', 'u', '\x7b'] ++ codePointText c ++ ['\x7d']
    else [c]

def quoteText (text : String) : String :=
  String.ofList ('"' :: text.toList.flatMap quoteChar ++ ['"'])

def isIdentifierChar (c : Char) : Bool :=
  isDigit c || ('a' ≤ c && c ≤ 'z') || ('A' ≤ c && c ≤ 'Z') || c = '-'

def isVersionNumber (digits : List Char) : Bool :=
  !digits.isEmpty && digits.all isDigit && (digits.length = 1 || digits.head? ≠ some '0') &&
    digitsValue digits < 18446744073709551616

def isReleaseIdentifier (cs : List Char) : Bool :=
  !cs.isEmpty && cs.all isIdentifierChar &&
    (!cs.all isDigit || cs.length = 1 || cs.head? ≠ some '0')

def isBuildIdentifier (cs : List Char) : Bool := !cs.isEmpty && cs.all isIdentifierChar

def cutAt (separator : Char) (cs : List Char) : List Char × Option (List Char) :=
  match cs.dropWhile (· ≠ separator) with
  | [] => (cs, none)
  | _ :: rest => (cs.takeWhile (· ≠ separator), some rest)

/-- Build metadata is cut off at the first plus sign and a pre-release at the first hyphen before
it. -/
def isSemanticVersion (text : String) : Bool :=
  let (release, build) := cutAt '+' text.toList
  let (numbers, preRelease) := cutAt '-' release
  let core := splitAt '.' numbers
  core.length = 3 && core.all isVersionNumber &&
    (preRelease.all fun cs => (splitAt '.' cs).all isReleaseIdentifier) &&
    (build.all fun cs => (splitAt '.' cs).all isBuildIdentifier)

end PageHealth
