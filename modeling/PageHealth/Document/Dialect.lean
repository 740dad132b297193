import PageHealth.Catalog.Basic

/-! What a document language offers to a reader of typed structures: scalars, lists and records,
each with the language's own errors. A reader written against this interface reports the first
problem in document order, whatever the language. -/
namespace PageHealth

structure Record (N ε : Type) where
  members : List (String × N)
  ending : Except ε Unit
  missing : Nat → String → ε

structure Items (N ε : Type) where
  items : List N
  ending : Except ε Unit

structure Dialect (N ε : Type) where
  text : N → Except ε String
  double : N → Except ε Binary64
  count : N → Except ε UInt32
  severity : N → Except ε Severity
  expected : N → Except ε (Expected Binary64)
  isNull : N → Bool
  items : N → Except ε (Items N ε)
  record : String → List String → N → Except ε (Record N ε)
  unknownField : String → List String → ε
  duplicateField : String → ε

namespace Dialect

variable {N ε β σ : Type}

def list (d : Dialect N ε) (read : N → Except ε β) (node : N) : Except ε (List β) := do
  let found ← d.items node
  let items ← found.items.mapM read
  found.ending
  return items

def optional (d : Dialect N ε) (read : N → Except ε β) (node : N) : Except ε (Option β) :=
  if d.isNull node then .ok none else (read node).map some

/-- Reads the members in order into a draft of the structure. A key that is not declared or comes a
second time is an error before its value is looked at. -/
def readMembers (d : Dialect N ε) (fields : List String) (read : String → N → σ → Except ε σ) :
    List String → List (String × N) → σ → Except ε σ
  | _, [], draft => .ok draft
  | seen, (key, node) :: rest, draft =>
    if !fields.contains key then .error (d.unknownField key fields)
    else if seen.contains key then .error (d.duplicateField key)
    else do
      let draft ← read key node draft
      readMembers d fields read (key :: seen) rest draft

def readRecord (d : Dialect N ε) (name : String) (fields : List String)
    (read : String → N → σ → Except ε σ) (start : σ) (build : Record N ε → σ → Except ε β)
    (node : N) : Except ε β := do
  let record ← d.record name fields node
  let draft ← readMembers d fields read [] record.members start
  record.ending
  build record draft

end Dialect

def Record.require {N ε β : Type} (record : Record N ε) (position : Nat) (field : String) :
    Option β → Except ε β
  | some value => .ok value
  | none => .error (record.missing position field)

end PageHealth
