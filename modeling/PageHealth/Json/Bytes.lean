import PageHealth.Json.Reader

/-! Documents given as bytes. Bytes that are no text still have a beginning that is, and where that
beginning stops the document is faulty at the latest. -/
namespace PageHealth.Json

def readableFrom (bytes : ByteArray) (start : Nat) : List Char × Nat :=
  if _inside : start < bytes.size then
    match bytes.utf8DecodeChar? start with
    | some c =>
      let (cs, stop) := readableFrom bytes (start + c.utf8Size)
      (c :: cs, stop)
    | none => ([], start)
  else ([], start)
  termination_by bytes.size - start
  decreasing_by
    have := c.utf8Size_pos
    omega

/-- A character for every byte, so that quotes and backslashes are where they were. -/
def charsOfBytes (bytes : List UInt8) : List Char :=
  bytes.map fun b => if b < 128 then Char.ofNat b.toNat else '\uFFFD'

mutual

def Value.mapFault (f : Fault → Fault) : Value → Value
  | .array items fault => .array (mapItems f items) (fault.map f)
  | .object members fault => .object (mapMembers f members) (fault.map f)
  | .broken fault => .broken (f fault)
  | value => value

def mapItems (f : Fault → Fault) : List Value → List Value
  | [] => []
  | item :: rest => item.mapFault f :: mapItems f rest

def mapMembers (f : Fault → Fault) : List (String × Value) → List (String × Value)
  | [] => []
  | (key, value) :: rest => (key, value.mapFault f) :: mapMembers f rest

end

/-- What is wrong with a text inside quotes that goes on with these bytes, of which the first is no
text: whatever else is wrong with it comes first, since it is looked at as a whole. -/
def quotedFault (bytes : List UInt8) : Fault :=
  match readText [] (charsOfBytes bytes) with
  | .ok _ => .invalidCodePoint
  | .error fault => fault

/-- The document of bytes that are no text from some position on. A text inside quotes that is open
there is faulty; anywhere else the bytes are as wrong as any unexpected character. -/
def Document.ofBroken (readable : List Char) (rest : List UInt8) : Document :=
  let document := Document.ofChars (readable ++ ['\uFFFD'])
  let atQuote := fun fault => if fault = .endInText then quotedFault rest else fault
  ⟨document.root.mapFault atQuote, document.trailing.map atQuote⟩

def Document.ofBytes (bytes : ByteArray) : Document :=
  match String.fromUTF8? bytes with
  | some text => Document.ofText text
  | none =>
    let (readable, stop) := readableFrom bytes 0
    Document.ofBroken readable (bytes.toList.drop stop)

end PageHealth.Json
