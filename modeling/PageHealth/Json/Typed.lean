import PageHealth.Document.Dialect
import PageHealth.Json.Reader
import PageHealth.Json.Writer
import PageHealth.Text

namespace PageHealth.Json

/-- Whether typed reading follows a text or looks at a finished value. A finished value has no end
to miss, so the two word a few errors differently. -/
inductive Source where
  | text
  | value
  deriving DecidableEq

inductive ReadError where
  | syntaxFault (fault : Fault)
  | wrongKind (got : Value) (want : String)
  | notOneMember
  | outOfRange (got : Int) (want : String)
  | unknownField (name : String) (known : List String)
  | missingField (name : String)
  | duplicateField (name : String)
  | unknownVariant (name : String) (known : List String)
  | noAlternative (name : String)
  | wrongLength (length : Nat) (want : String)

def ticked (name : String) : String := "`" ++ name ++ "`"

def Value.describe : Value → String
  | .null => "null"
  | .bool value => "boolean " ++ ticked (if value then "true" else "false")
  | .number (.integer value) => "integer " ++ ticked (writeInteger value)
  | .number (.double value) => "floating point " ++ ticked (numberNotation.write value)
  | .text value => "string " ++ quoteText value
  | .array _ _ => "sequence"
  | .object _ _ => "map"
  | .broken fault => fault.message

def oneOf (names : List String) : String :=
  match names with
  | [a] => ticked a
  | [a, b] => ticked a ++ " or " ++ ticked b
  | names => "one of " ++ String.intercalate ", " (names.map ticked)

def ReadError.message : ReadError → String
  | syntaxFault fault => fault.message
  | wrongKind got want => "invalid type: " ++ got.describe ++ ", expected " ++ want
  | notOneMember => "invalid value: map, expected map with a single key"
  | outOfRange got want =>
    "invalid value: integer " ++ ticked (writeInteger got) ++ ", expected " ++ want
  | unknownField name known => "unknown field " ++ ticked name ++ ", expected " ++ oneOf known
  | missingField name => "missing field " ++ ticked name
  | duplicateField name => "duplicate field " ++ ticked name
  | unknownVariant name known => "unknown variant " ++ ticked name ++ ", expected " ++ oneOf known
  | noAlternative name => "data did not match any variant of untagged enum " ++ name
  | wrongLength length want =>
    "invalid length " ++ digitsText length ++ ", expected " ++ want

def mismatch {β : Type} (value : Value) (want : String) : Except ReadError β :=
  match value with
  | .broken fault => .error (.syntaxFault fault)
  | value => .error (.wrongKind value want)

def endingOf : Option Fault → Except ReadError Unit
  | none => .ok ()
  | some fault => .error (.syntaxFault fault)

def textOf : Value → Except ReadError String
  | .text value => .ok value
  | value => mismatch value "a string"

def doubleOf : Value → Except ReadError Binary64
  | .number n => .ok n.toBinary64
  | value => mismatch value "f64"

def countOf : Value → Except ReadError UInt32
  | .number (.integer n) =>
    if 0 ≤ n ∧ n < 4294967296 then .ok (UInt32.ofNat n.toNat) else .error (.outOfRange n "u32")
  | value => mismatch value "u32"

def severityNamed (name : String) : Except ReadError Severity :=
  match Severity.ofName? name with
  | some severity => .ok severity
  | none => .error (.unknownVariant name (Severity.all.map Severity.name))

/-- A fault inside a text is reported wherever a text may stand. -/
def Fault.isInText : Fault → Bool
  | .endInText | .invalidEscape | .loneSurrogate | .unpairedSurrogate | .controlCharacter => true
  | _ => false

def severityEnd (rest : List (String × Value)) (fault : Option Fault) : Except ReadError Unit :=
  match rest, fault with
  | [], none => .ok ()
  | [], some .endInObject => .error (.syntaxFault .endInObject)
  | _, _ => .error (.syntaxFault .expectedValue)

def nullOf : Value → Except ReadError Unit
  | .null => .ok ()
  | value => mismatch value "unit"

/-- A severity is a text or an object whose only member has the name for key and null for value. -/
def severityOf : Source → Value → Except ReadError Severity
  | _, .text name => severityNamed name
  | .text, .object ((name, value) :: rest) fault => do
    let severity ← severityNamed name
    nullOf value
    severityEnd rest fault
    return severity
  | .text, .object [] (some .endInObject) => .error (.syntaxFault .endInValue)
  | .text, .object [] (some fault) =>
    .error (.syntaxFault (if fault.isInText then fault else .expectedValue))
  | .text, .broken fault =>
    let reported := fault.isInText || fault = .endInValue || fault = .endInObject ||
      fault = .expectedColon
    .error (.syntaxFault (if reported then fault else .expectedValue))
  | .text, _ => .error (.syntaxFault .expectedValue)
  | .value, .object [(name, value)] _ => do
    let severity ← severityNamed name
    nullOf value
    return severity
  | .value, .object _ _ => .error .notOneMember
  | .value, value => mismatch value "string or map"

def expectedOf (value : Value) : Except ReadError (Expected Binary64) :=
  match value.fault? with
  | some fault => .error (.syntaxFault fault)
  | none =>
    match value with
    | .bool b => .ok (.bool b)
    | .number n => .ok (.number n.toBinary64)
    | .text s => .ok (.text s)
    | .array [.number a, .number b] _ => .ok (.range a.toBinary64 b.toBinary64)
    | _ => .error (.noAlternative "ConditionValue")

def itemsOf : Value → Except ReadError (Items Value ReadError)
  | .array items fault => .ok ⟨items, endingOf fault⟩
  | value => mismatch value "a sequence"

def positionalEnd (source : Source) (fields : Nat) (items : List Value) (fault : Option Fault) :
    Except ReadError Unit :=
  if fields < items.length then
    match source with
    | .text => .error (.syntaxFault .trailingCharacters)
    | .value => .error (.wrongLength items.length "fewer elements in array")
  else if items.length < fields then endingOf fault
  else
    match fault with
    | none => .ok ()
    | some .endInArray => .error (.syntaxFault .endInArray)
    | some .trailingComma => .error (.syntaxFault .trailingComma)
    | some _ => .error (.syntaxFault .trailingCharacters)

/-- A record is an object, or an array of its fields in order. -/
def recordOf (source : Source) (name : String) (fields : List String) :
    Value → Except ReadError (Record Value ReadError)
  | .object members fault => .ok ⟨members, endingOf fault, fun _ field => .missingField field⟩
  | .array items fault =>
    .ok ⟨fields.zip items, positionalEnd source fields.length items fault, fun position _ =>
      .wrongLength position
        ("struct " ++ name ++ " with " ++ digitsText fields.length ++ " elements")⟩
  | value => mismatch value ("struct " ++ name)

def dialect (source : Source) : Dialect Value ReadError where
  text := textOf
  double := doubleOf
  count := countOf
  severity := severityOf source
  expected := expectedOf
  isNull value := match value with
    | .null => true
    | _ => false
  items := itemsOf
  record := recordOf source
  unknownField := .unknownField
  duplicateField := .duplicateField

def Document.read {β : Type} (document : Document) (ofValue : Value → Except ReadError β) :
    Except ReadError β := do
  let result ← ofValue document.root
  endingOf document.trailing
  return result

end PageHealth.Json
