import PageHealth.Json.Token

/-! From tokens to a document. The reader walks the tokens once and keeps the containers that are
still open on a stack. -/
namespace PageHealth.Json

/-- A container that is still open, what it holds so far in reverse. -/
inductive Frame where
  | array (items : List Value)
  | object (members : List (String × Value))
  | member (members : List (String × Value)) (key : String)

inductive Expecting where
  | value
  | firstItem
  | firstKey
  | key
  | colon (key : String)
  | separator
  | nothing (root : Value)

structure Document where
  root : Value
  trailing : Option Fault

def depthLimit : Nat := 127

def Frame.add (value : Value) : Frame → Frame
  | array items => array (value :: items)
  | object members => object members
  | member members key => object ((key, value) :: members)

def Frame.close (fault : Option Fault) : Frame → Value
  | array items => .array items.reverse fault
  | object members => .object members.reverse fault
  | member members _ => .object members.reverse fault

def abandon (value : Value) (stack : List Frame) : Document where
  root := stack.foldl (fun inner frame => (frame.add inner).close none) value
  trailing := none

def abandonInside (fault : Fault) : List Frame → Document
  | [] => ⟨.broken fault, none⟩
  | frame :: stack => abandon (frame.close (some fault)) stack

def Expecting.endFault (stack : List Frame) : Expecting → Fault
  | value | key | nothing _ => .endInValue
  | firstItem => .endInArray
  | firstKey | colon _ => .endInObject
  | separator =>
    match stack with
    | .array _ :: _ => .endInArray
    | _ => .endInObject

def placed (value : Value) : List Frame → Expecting × List Frame
  | [] => (.nothing value, [])
  | frame :: stack => (.separator, frame.add value :: stack)

def opened (frame : Frame) (next : Expecting) (stack : List Frame) :
    Except Document (Expecting × List Frame) :=
  if stack.length < depthLimit then .ok (next, frame :: stack)
  else .error (abandon (.broken .tooDeep) stack)

def startValue (stack : List Frame) : Token → Except Document (Expecting × List Frame)
  | .text (.ok content) => .ok (placed (.text content) stack)
  | .text (.error fault) => .error (abandon (.broken fault) stack)
  | .word (.broken fault) => .error (abandon (.broken fault) stack)
  | .word value => .ok (placed value stack)
  | .mark '[' => opened (.array []) .firstItem stack
  | .mark '{' => opened (.object []) .firstKey stack
  | .mark _ => .error (abandon (.broken .expectedValue) stack)

def step (expecting : Expecting) (stack : List Frame) (token : Token) :
    Except Document (Expecting × List Frame) :=
  match expecting, stack, token with
  | .value, .array _ :: _, .mark ']' => .error (abandonInside .trailingComma stack)
  | .value, _, _ => startValue stack token
  | .firstItem, frame :: outer, .mark ']' => .ok (placed (frame.close none) outer)
  | .firstItem, _, _ => startValue stack token
  | .firstKey, frame :: outer, .mark '}' => .ok (placed (frame.close none) outer)
  | .key, _, .mark '}' => .error (abandonInside .trailingComma stack)
  | .firstKey, _, .text (.ok key) | .key, _, .text (.ok key) => .ok (.colon key, stack)
  | .firstKey, _, .text (.error fault) | .key, _, .text (.error fault) =>
    .error (abandonInside fault stack)
  | .firstKey, _, _ | .key, _, _ => .error (abandonInside .keyNotText stack)
  | .colon key, .object members :: outer, .mark ':' => .ok (.value, .member members key :: outer)
  | .colon key, .object members :: outer, _ =>
    .error (abandon (.broken .expectedColon) (.member members key :: outer))
  | .separator, .array _ :: _, .mark ',' => .ok (.value, stack)
  | .separator, .array items :: outer, .mark ']' =>
    .ok (placed ((Frame.array items).close none) outer)
  | .separator, .array _ :: _, _ => .error (abandonInside .expectedCommaOrBracket stack)
  | .separator, .object _ :: _, .mark ',' => .ok (.key, stack)
  | .separator, .object members :: outer, .mark '}' =>
    .ok (placed ((Frame.object members).close none) outer)
  | .separator, _, _ => .error (abandonInside .expectedCommaOrBrace stack)
  | .nothing root, _, _ => .error ⟨root, some .trailingCharacters⟩
  | .colon _, _, _ => .error (abandonInside .expectedColon stack)

def finish (expecting : Expecting) (stack : List Frame) : Document :=
  match expecting, stack with
  | .nothing root, _ => ⟨root, none⟩
  | .value, _ => abandon (.broken .endInValue) stack
  | .colon key, .object members :: outer =>
    abandon (.broken .endInObject) (.member members key :: outer)
  | _, _ => abandonInside (expecting.endFault stack) stack

def run (expecting : Expecting) (stack : List Frame) : List Token → Document
  | [] => finish expecting stack
  | token :: rest =>
    match step expecting stack token with
    | .ok (expecting, stack) => run expecting stack rest
    | .error document => document

def Document.ofChars (cs : List Char) : Document := run .value [] (tokens cs)

def Document.ofText (text : String) : Document := Document.ofChars text.toList

end PageHealth.Json
