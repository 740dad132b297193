import PageHealth.Json.Basic
import PageHealth.Text

namespace PageHealth.Json

/-- Numbers in JSON: the fewest digits that read back, positional from 0.00001 up to 10^16. There is
no number for what is not finite. -/
def numberNotation : NumberNotation where
  plainFrom := -5
  plainBelow := 16
  pointZero := true
  mantissaPointZero := false
  exponentPlus := true
  tie := .toEven
  nan := "null"
  infinity := "null"

def writeDouble (x : Binary64) : String := if x.isFinite then numberNotation.write x else "null"

def writeInteger (n : Int) : String :=
  if n < 0 then "-" ++ digitsText n.natAbs else digitsText n.natAbs

def Number.write : Number → String
  | integer value => writeInteger value
  | double value => writeDouble value

def spellChar (c : Char) : List Char :=
  if c = '"' then ['\\', '"']
  else if c = '\\' then ['\\', '\\']
  else if c = '\x08' then ['\\', 'b']
  else if c = '\t' then ['\\', 't']
  else if c = '\n' then ['\\', 'n']
  else if c = '\x0c' then ['\\', 'f']
  else if c = '\r' then ['\\', 'r']
  else if c < ' ' then ['\\', 'u', '0', '0', lowerHexDigit (c.toNat / 16), lowerHexDigit (c.toNat % 16)]
  else [c]

def writeText (text : String) : String :=
  String.ofList ('"' :: text.toList.flatMap spellChar ++ ['"'])

namespace Value

mutual

def compact : Value → String
  | null => "null"
  | bool true => "true"
  | bool false => "false"
  | number n => n.write
  | text s => writeText s
  | array items _ => "[" ++ compactItems items ++ "]"
  | object members _ => "\x7b" ++ compactMembers members ++ "\x7d"
  | broken _ => "null"

def compactItems : List Value → String
  | [] => ""
  | [item] => item.compact
  | item :: rest => item.compact ++ "," ++ compactItems rest

def compactMembers : List (String × Value) → String
  | [] => ""
  | [(key, value)] => writeText key ++ ":" ++ value.compact
  | (key, value) :: rest => writeText key ++ ":" ++ value.compact ++ "," ++ compactMembers rest

end

def newLine (depth : Nat) : String := String.ofList ('\n' :: List.replicate (2 * depth) ' ')

mutual

/-- One item or member a line; what is empty stays on its line. -/
def indented (depth : Nat) : Value → String
  | null => "null"
  | bool true => "true"
  | bool false => "false"
  | number n => n.write
  | text s => writeText s
  | array [] _ => "[]"
  | array (item :: rest) _ =>
    "[" ++ newLine (depth + 1) ++ item.indented (depth + 1) ++ indentedItems (depth + 1) rest ++
      newLine depth ++ "]"
  | object [] _ => "\x7b\x7d"
  | object ((key, value) :: rest) _ =>
    "\x7b" ++ newLine (depth + 1) ++ writeText key ++ ": " ++ value.indented (depth + 1) ++
      indentedMembers (depth + 1) rest ++ newLine depth ++ "\x7d"
  | broken _ => "null"

def indentedItems (depth : Nat) : List Value → String
  | [] => ""
  | item :: rest => "," ++ newLine depth ++ item.indented depth ++ indentedItems depth rest

def indentedMembers (depth : Nat) : List (String × Value) → String
  | [] => ""
  | (key, value) :: rest =>
    "," ++ newLine depth ++ writeText key ++ ": " ++ value.indented depth ++
      indentedMembers depth rest

end

def pretty (value : Value) : String := value.indented 0

end Value

end PageHealth.Json
