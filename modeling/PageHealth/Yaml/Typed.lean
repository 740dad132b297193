import PageHealth.Document.Dialect
import PageHealth.Text
import PageHealth.Yaml.Number
import PageHealth.Yaml.Tree

/-! Typed reading of YAML. Where one kind of value is wanted, the text of a scalar is read as that
kind, however it is quoted; only where several kinds are possible does the spelling decide. -/
namespace PageHealth.Yaml

def isNullText (text : String) : Bool :=
  text = "" || text = "~" || lowerCase text.toList = "null"

def Node.isNull : Node → Bool
  | .scalar true none text => isNullText text
  | .scalar _ (some .null) _ => true
  | _ => false

def Tag.admitsText : Option Tag → Bool
  | none | some .text | some .other => true
  | _ => false

def textOf : Node → Except Fault String
  | .scalar plain tag text =>
    if Tag.admitsText tag ∧ ¬ (Node.scalar plain tag text).isNull then .ok text
    else .error (.wrongKind "text")
  | _ => .error (.wrongKind "text")

def doubleOf : Node → Except Fault Binary64
  | .scalar _ _ text =>
    match double? (trimBlanks text.toList) with
    | some x => .ok x
    | none => .error (.wrongKind "a number")
  | _ => .error (.wrongKind "a number")

def countOf : Node → Except Fault UInt32
  | .scalar _ _ text =>
    match unsigned? (trimBlanks text.toList) with
    | some n =>
      if n < 4294967296 then .ok (UInt32.ofNat n) else .error (.wrongKind "a number of 32 bits")
    | none => .error (.wrongKind "a whole number")
  | _ => .error (.wrongKind "a whole number")

def severityNamed (name : String) : Except Fault Severity :=
  match Severity.ofName? name with
  | some severity => .ok severity
  | none => .error (.wrongKind "a severity")

/-- A severity is its name, or a mapping whose only member has the name for key and no value. -/
def severityOf : Node → Except Fault Severity
  | .scalar _ _ name => severityNamed name
  | .mapping [(name, value)] =>
    if value.isNull then severityNamed name else .error (.wrongKind "a severity")
  | _ => .error (.wrongKind "a severity")

def boolean? (text : String) : Option Bool :=
  let word := lowerCase text.toList
  if word = "true" ∨ word = "yes" ∨ word = "y" ∨ word = "on" then some true
  else if word = "false" ∨ word = "no" ∨ word = "n" ∨ word = "off" then some false
  else none

def specialText : Binary64 → String
  | .nan => ".nan"
  | .signed false _ => ".inf"
  | .signed true _ => "-.inf"

/-- What a plain scalar means by its spelling. A number that is not finite is kept as text. -/
def plainExpected (text : String) : Expected Binary64 :=
  match boolean? text with
  | some b => .bool b
  | none =>
    match integer? text.toList with
    | some n => .number (Binary64.ofInt n)
    | none =>
      match double? text.toList with
      | some x => if x.isFinite then .number x else .text (specialText x)
      | none => .text text

def expectedOf : Node → Except Fault (Expected Binary64)
  | .scalar _ (some .text) text => .ok (.text text)
  | .scalar plain tag text =>
    if !Tag.admitsText tag ∨ (Node.scalar plain tag text).isNull then
      .error (.wrongKind "an expected value")
    else if plain then .ok (plainExpected text)
    else .ok (.text text)
  | .sequence [.scalar true none least, .scalar true none greatest] =>
    match plainExpected least, plainExpected greatest with
    | .number a, .number b => .ok (.range a b)
    | _, _ => .error (.wrongKind "an expected value")
  | _ => .error (.wrongKind "an expected value")

def itemsOf : Node → Except Fault (Items Node Fault)
  | .sequence items => .ok ⟨items, .ok ()⟩
  | node => if node.isNull then .ok ⟨[], .ok ()⟩ else .error (.wrongKind "a list")

def recordOf : Node → Except Fault (Record Node Fault)
  | .mapping members => .ok ⟨members, .ok (), fun _ field => .missingField field⟩
  | _ => .error (.wrongKind "a mapping")

def dialect : Dialect Node Fault where
  text := textOf
  double := doubleOf
  count := countOf
  severity := severityOf
  expected := expectedOf
  isNull := Node.isNull
  items := itemsOf
  record _ _ := recordOf
  unknownField name _ := .unknownField name
  duplicateField := .duplicateField

end PageHealth.Yaml
