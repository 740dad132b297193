import PageHealth.Facts
import PageHealth.Json.Bytes
import PageHealth.Json.Typed

/-! Facts as JSON. Every kind of JSON value has its place in the tree; of several members with one
key the last stays. -/
namespace PageHealth

open Json (Value ReadError)

mutual

def Fact.ofValue : Value → Fact Binary64
  | .null => .null
  | .bool b => .bool b
  | .number n => .number n.toBinary64
  | .text s => .text s
  | .array items _ => .list (Fact.ofItems items)
  | .object members _ => .map (Members.ofList (Fact.ofMembers members))
  | .broken _ => .null

def Fact.ofItems : List Value → List (Fact Binary64)
  | [] => []
  | item :: rest => Fact.ofValue item :: Fact.ofItems rest

def Fact.ofMembers : List (String × Value) → List (String × Fact Binary64)
  | [] => []
  | (key, value) :: rest => (key, Fact.ofValue value) :: Fact.ofMembers rest

end

mutual

@[simp] theorem Fact.sorted_ofValue : (value : Value) → (Fact.ofValue value).Sorted
  | .null | .broken _ => .null
  | .bool b => .bool b
  | .number _ => .number _
  | .text s => .text s
  | .array items _ => .list (Fact.sorted_ofItems items)
  | .object members _ => .map (Members.increasing_ofList _) fun member listed =>
      Fact.sorted_ofMembers members member (Members.mem_of_mem_ofList listed)

theorem Fact.sorted_ofItems : (items : List Value) → ∀ item ∈ Fact.ofItems items, item.Sorted
  | [] => fun _ listed => nomatch listed
  | item :: rest =>
    List.forall_mem_cons.mpr ⟨Fact.sorted_ofValue item, Fact.sorted_ofItems rest⟩

theorem Fact.sorted_ofMembers :
    (members : List (String × Value)) → ∀ member ∈ Fact.ofMembers members, member.2.Sorted
  | [] => fun _ listed => nomatch listed
  | (_, value) :: rest =>
    List.forall_mem_cons.mpr ⟨Fact.sorted_ofValue value, Fact.sorted_ofMembers rest⟩

end

mutual

def Fact.toValue : Fact Binary64 → Value
  | .null => .null
  | .bool b => .bool b
  | .number n => .number (.double n)
  | .text s => .text s
  | .list items => .array (Fact.toItems items) none
  | .map members => .object (Fact.toMembers members) none

def Fact.toItems : List (Fact Binary64) → List Value
  | [] => []
  | item :: rest => item.toValue :: Fact.toItems rest

def Fact.toMembers : List (String × Fact Binary64) → List (String × Value)
  | [] => []
  | (key, value) :: rest => (key, value.toValue) :: Fact.toMembers rest

end

namespace Facts

def ofValue (value : Value) : Except ReadError (Facts Binary64) :=
  match value with
  | .object members fault =>
    match value.fault? with
    | some fault => .error (.syntaxFault fault)
    | none => .ok ⟨Members.ofList (Fact.ofMembers members), Fact.sorted_ofValue (.object members fault)⟩
  | value => Json.mismatch value "a map"

def ofJson (text : String) : Except ReadError (Facts Binary64) :=
  (Json.Document.ofText text).read ofValue

def ofBytes (bytes : ByteArray) : Except ReadError (Facts Binary64) :=
  (Json.Document.ofBytes bytes).read ofValue

def toValue (facts : Facts Binary64) : Value := .object (Fact.toMembers facts.root) none

def toJson (facts : Facts Binary64) : String := facts.toValue.compact

end Facts

end PageHealth
