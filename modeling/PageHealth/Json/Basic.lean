import PageHealth.Number.Notation

/-! JSON documents. A text that stops being JSON still has a beginning that can be read, and a typed
reader reports the first thing that is wrong in document order; so a document is kept as far as it
could be read, together with what is wrong where it breaks off. -/
namespace PageHealth.Json

inductive Fault where
  | endInValue
  | endInText
  | endInArray
  | endInObject
  | expectedValue
  | expectedWord
  | keyNotText
  | expectedColon
  | expectedCommaOrBrace
  | expectedCommaOrBracket
  | trailingComma
  | trailingCharacters
  | invalidNumber
  | numberOutOfRange
  | invalidEscape
  | loneSurrogate
  | unpairedSurrogate
  | controlCharacter
  | invalidCodePoint
  | tooDeep
  deriving DecidableEq

def Fault.message : Fault → String
  | endInValue => "EOF while parsing a value"
  | endInText => "EOF while parsing a string"
  | endInArray => "EOF while parsing a list"
  | endInObject => "EOF while parsing an object"
  | expectedValue => "expected value"
  | expectedWord => "expected ident"
  | keyNotText => "key must be a string"
  | expectedColon => "expected `:`"
  | expectedCommaOrBrace => "expected `,` or `\x7d`"
  | expectedCommaOrBracket => "expected `,` or `]`"
  | trailingComma => "trailing comma"
  | trailingCharacters => "trailing characters"
  | invalidNumber => "invalid number"
  | numberOutOfRange => "number out of range"
  | invalidEscape => "invalid escape"
  | loneSurrogate => "lone leading surrogate in hex escape"
  | unpairedSurrogate => "unexpected end of hex escape"
  | controlCharacter => "control character (\\u0000-\\u001F) found while parsing a string"
  | invalidCodePoint => "invalid unicode code point"
  | tooDeep => "recursion limit exceeded"

/-- Whole numbers of 64 bits, signed or unsigned, are kept exactly; any other number is a double. -/
inductive Number where
  | integer (value : Int)
  | double (value : Binary64)
  deriving DecidableEq

def Number.toBinary64 : Number → Binary64
  | integer value => Binary64.ofInt value
  | double value => value

/-- An array or object that could not be read to its end holds what was read of it and the fault
at its end. -/
inductive Value where
  | null
  | bool (value : Bool)
  | number (value : Number)
  | text (value : String)
  | array (items : List Value) (fault : Option Fault)
  | object (members : List (String × Value)) (fault : Option Fault)
  | broken (fault : Fault)

namespace Value

mutual

def fault? : Value → Option Fault
  | null | bool _ | number _ | text _ => none
  | array items fault => (itemsFault? items).or fault
  | object members fault => (membersFault? members).or fault
  | broken fault => some fault

def itemsFault? : List Value → Option Fault
  | [] => none
  | item :: rest => item.fault?.or (itemsFault? rest)

def membersFault? : List (String × Value) → Option Fault
  | [] => none
  | (_, value) :: rest => value.fault?.or (membersFault? rest)

end

def isWhole (value : Value) : Bool := value.fault?.isNone

end Value

end PageHealth.Json
