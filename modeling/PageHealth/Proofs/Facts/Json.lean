import PageHealth.Facts.Source
import PageHealth.Proofs.Json.Bytes

namespace PageHealth

open Json (Value)

namespace Members

variable {β : Type} {key : String} {members : Members β}

theorem put_eq_concat (last : ∀ member ∈ members, member.1 < key) (value : β) :
    put key value members = members ++ [(key, value)] := by
  induction members with
  | nil => rfl
  | cons member rest ih =>
    obtain ⟨name, held⟩ := member
    rw [List.forall_mem_cons] at last
    have apart : name ≠ key := fun same => String.lt_irrefl key (same ▸ last.1)
    rw [put, if_neg apart, if_neg (String.lt_asymm last.1), ih last.2]
    rfl

theorem foldl_put (before members : Members β) (increasing : Increasing (before ++ members)) :
    members.foldl (fun acc m => put m.1 m.2 acc) before = before ++ members := by
  induction members generalizing before with
  | nil => rw [List.foldl_nil, List.append_nil]
  | cons member rest ih =>
    have last : ∀ other ∈ before, other.1 < member.1 := fun other listed =>
      (List.pairwise_append.mp increasing).2.2 other listed member List.mem_cons_self
    rw [List.append_cons] at increasing ⊢
    rw [List.foldl_cons, put_eq_concat last]
    exact ih _ increasing

theorem ofList_eq_self (increasing : Increasing members) : ofList members = members :=
  foldl_put [] members increasing

end Members

namespace Fact

variable {α : Type}

/-- What holds of a list or map as soon as it holds of all that is in it, and of every value without
parts, holds of every tree. -/
@[elab_as_elim, induction_eliminator]
theorem ind {motive : Fact α → Prop} (null : motive .null) (bool : ∀ b, motive (.bool b))
    (number : ∀ x, motive (.number x)) (text : ∀ s, motive (.text s))
    (list : ∀ items, (∀ item ∈ items, motive item) → motive (.list items))
    (map : ∀ members, (∀ member ∈ members, motive member.2) → motive (.map members))
    (fact : Fact α) : motive fact :=
  match fact with
  | .null => null
  | .bool b => bool b
  | .number x => number x
  | .text s => text s
  | .list items => list items fun item _ => ind null bool number text list map item
  | .map members => map members fun member _ => ind null bool number text list map member.2
  termination_by sizeOf fact
  decreasing_by
    all_goals
      have smaller := List.sizeOf_lt_of_mem ‹_›
    · simp only [Fact.list.sizeOf_spec]
      omega
    · have : sizeOf member.2 < sizeOf member := by
        cases member
        simp only [Prod.mk.sizeOf_spec]
        omega
      simp only [Fact.map.sizeOf_spec]
      omega

inductive Finite : Fact Binary64 → Prop where
  | null : Finite .null
  | bool (b : Bool) : Finite (.bool b)
  | number {x : Binary64} (finite : x.isFinite = true) : Finite (.number x)
  | text (s : String) : Finite (.text s)
  | list {items : List (Fact Binary64)} (inside : ∀ item ∈ items, Finite item) : Finite (.list items)
  | map {members : Members (Fact Binary64)} (inside : ∀ member ∈ members, Finite member.2) :
    Finite (.map members)

attribute [simp] Finite.null Finite.bool Finite.text

@[simp] theorem finite_number_iff {x : Binary64} :
    (Fact.number x).Finite ↔ x.isFinite = true :=
  ⟨fun | .number finite => finite, .number⟩

@[simp] theorem finite_list_iff {items : List (Fact Binary64)} :
    (Fact.list items).Finite ↔ ∀ item ∈ items, item.Finite :=
  ⟨fun | .list inside => inside, .list⟩

@[simp] theorem finite_map_iff {members : Members (Fact Binary64)} :
    (Fact.map members).Finite ↔ ∀ member ∈ members, member.2.Finite :=
  ⟨fun | .map inside => inside, .map⟩

mutual

/-- How many lists and maps are around the innermost value, at the place where they are most. -/
def depth : Fact α → Nat
  | .list items => itemsDepth items + 1
  | .map members => membersDepth members + 1
  | _ => 0

def itemsDepth : List (Fact α) → Nat
  | [] => 0
  | item :: rest => max item.depth (itemsDepth rest)

def membersDepth : List (String × Fact α) → Nat
  | [] => 0
  | (_, value) :: rest => max value.depth (membersDepth rest)

end

section Conversion

variable {room : Nat} {items : List (Fact α)} {members : List (String × Fact α)}

theorem itemsDepth_le_iff : itemsDepth items ≤ room ↔ ∀ item ∈ items, item.depth ≤ room := by
  induction items with
  | nil => simp [itemsDepth]
  | cons item items ih => simp [itemsDepth, ih]

theorem membersDepth_le_iff :
    membersDepth members ≤ room ↔ ∀ member ∈ members, member.2.depth ≤ room := by
  induction members with
  | nil => simp [membersDepth]
  | cons member members ih => simp [membersDepth, ih]

theorem ofItems_eq_map (items : List Value) : ofItems items = items.map ofValue := by
  induction items with
  | nil => rfl
  | cons item items ih => rw [ofItems, ih, List.map_cons]

theorem ofMembers_eq_map (members : List (String × Value)) :
    ofMembers members = members.map fun member => (member.1, ofValue member.2) := by
  induction members with
  | nil => rfl
  | cons member members ih => rw [ofMembers, ih, List.map_cons]

theorem toItems_eq_map (items : List (Fact Binary64)) : toItems items = items.map toValue := by
  induction items with
  | nil => rfl
  | cons item items ih => rw [toItems, ih, List.map_cons]

theorem toMembers_eq_map (members : List (String × Fact Binary64)) :
    toMembers members = members.map fun member => (member.1, member.2.toValue) := by
  induction members with
  | nil => rfl
  | cons member members ih => rw [toMembers, ih, List.map_cons]

end Conversion

theorem ofValue_toValue {fact : Fact Binary64} (sorted : fact.Sorted) :
    ofValue fact.toValue = fact := by
  induction sorted with
  | null | bool | number | text => rfl
  | @list items _ ih =>
    have same : items.map (ofValue ∘ toValue) = items :=
      (List.map_congr_left ih).trans (List.map_id items)
    rw [toValue, ofValue, ofItems_eq_map, toItems_eq_map, List.map_map, same]
  | @map members increasing _ ih =>
    have same : members.map (fun member => (member.1, ofValue member.2.toValue)) = members := by
      refine (List.map_congr_left fun member listed => ?_).trans (List.map_id members)
      exact Prod.ext rfl (ih member listed)
    have spelt : ofMembers (toMembers members) = members := by
      rw [ofMembers_eq_map, toMembers_eq_map, List.map_map]
      exact same
    rw [toValue, ofValue, spelt, Members.ofList_eq_self increasing]

theorem readable_ofValue (value : Value) {room : Nat} (readable : value.Readable room) :
    (ofValue value).toValue.Readable room := by
  induction value generalizing room with
  | null | bool _ | text _ => trivial
  | broken fault => exact readable.elim
  | number n => exact Json.Number.isFinite_toBinary64 readable
  | array items fault ih =>
    obtain ⟨_, some, inside⟩ := readable
    rw [ofValue, toValue, toItems_eq_map, ofItems_eq_map, List.map_map]
    refine ⟨rfl, some, Value.itemsReadable_iff.mpr (List.forall_mem_map.mpr fun item listed => ?_)⟩
    exact ih item listed (Value.itemsReadable_iff.mp inside item listed)
  | object members fault ih =>
    obtain ⟨_, some, inside⟩ := readable
    rw [ofValue, toValue, toMembers_eq_map, ofMembers_eq_map]
    refine ⟨rfl, some, Value.membersReadable_iff.mpr (List.forall_mem_map.mpr ?_)⟩
    intro member listed
    obtain ⟨source, there, rfl⟩ := List.mem_map.mp (Members.mem_of_mem_ofList listed)
    exact ih source there (Value.membersReadable_iff.mp inside source there)

theorem readable_toValue_iff (fact : Fact Binary64) {room : Nat} :
    fact.toValue.Readable room ↔ fact.Finite ∧ fact.depth ≤ room := by
  induction fact generalizing room with
  | null => exact ⟨fun _ => ⟨.null, Nat.zero_le _⟩, fun _ => trivial⟩
  | bool b => exact ⟨fun _ => ⟨.bool b, Nat.zero_le _⟩, fun _ => trivial⟩
  | text s => exact ⟨fun _ => ⟨.text s, Nat.zero_le _⟩, fun _ => trivial⟩
  | number x =>
    exact ⟨fun finite => ⟨.number finite, Nat.zero_le _⟩, fun | ⟨.number finite, _⟩ => finite⟩
  | list items ih =>
    have inside : (∀ item ∈ items, item.toValue.Readable (room - 1)) ↔
        (∀ item ∈ items, item.Finite) ∧ itemsDepth items ≤ room - 1 := by
      rw [itemsDepth_le_iff, ← forall₂_and]
      exact forall₂_congr fun item listed => ih item listed
    rw [toValue, Value.Readable, Value.itemsReadable_iff, toItems_eq_map, List.forall_mem_map, inside,
      finite_list_iff, depth]
    constructor
    · rintro ⟨_, some, finite, fits⟩
      exact ⟨finite, by omega⟩
    · rintro ⟨finite, fits⟩
      exact ⟨rfl, by omega, finite, by omega⟩
  | map members ih =>
    have inside : (∀ member ∈ members, member.2.toValue.Readable (room - 1)) ↔
        (∀ member ∈ members, member.2.Finite) ∧ membersDepth members ≤ room - 1 := by
      rw [membersDepth_le_iff, ← forall₂_and]
      exact forall₂_congr fun member listed => ih member listed
    rw [toValue, Value.Readable, Value.membersReadable_iff, toMembers_eq_map, List.forall_mem_map,
      inside, finite_map_iff, depth]
    constructor
    · rintro ⟨_, some, finite, fits⟩
      exact ⟨finite, by omega⟩
    · rintro ⟨finite, fits⟩
      exact ⟨rfl, by omega, finite, by omega⟩

end Fact

namespace Facts

def tree {α : Type} (facts : Facts α) : Fact α := .map facts.root

section Reading

variable {facts : Facts Binary64} {value : Value} {document : Json.Document} {text : String}

theorem tree_of_ofValue (read : ofValue value = .ok facts) :
    value.fault? = none ∧ facts.tree = Fact.ofValue value := by
  cases value with
  | object members fault =>
    unfold ofValue at read
    dsimp only at read
    split at read
    · cases read
    · cases read
      exact ⟨‹_›, rfl⟩
  | _ => cases read

theorem whole_of_read (read : document.read ofValue = .ok facts) :
    document.Whole ∧ facts.tree = Fact.ofValue document.root := by
  obtain ⟨found, root, ended⟩ := bind_eq_ok_iff.mp read
  obtain ⟨_, behind, same⟩ := bind_eq_ok_iff.mp ended
  cases same
  obtain ⟨faultless, tree⟩ := tree_of_ofValue root
  refine ⟨⟨faultless, ?_⟩, tree⟩
  cases trailing : document.trailing with
  | none => rfl
  | some fault =>
    rw [trailing] at behind
    cases behind

theorem sound_of_ofJson (read : ofJson text = .ok facts) :
    facts.tree.Finite ∧ facts.tree.depth ≤ Json.depthLimit := by
  obtain ⟨whole, tree⟩ := whole_of_read read
  obtain ⟨value, readable, spelt⟩ := Json.spelt_of_whole whole
  rw [Json.ofText_of_tokens readable spelt] at tree
  rw [tree, ← Fact.readable_toValue_iff]
  exact Fact.readable_ofValue value readable

theorem ofValue_toValue (faultless : facts.toValue.fault? = none) :
    ofValue facts.toValue = .ok facts := by
  have same := Fact.ofValue_toValue facts.sorted
  have root : Members.ofList (Fact.ofMembers (Fact.toMembers facts.root)) = facts.root := by
    injection same
  unfold ofValue
  rw [toValue] at faultless ⊢
  simp only [faultless, root]

theorem ofJson_toJson (finite : facts.tree.Finite) (shallow : facts.tree.depth ≤ Json.depthLimit) :
    ofJson facts.toJson = .ok facts := by
  have readable : facts.toValue.Readable Json.depthLimit :=
    (Fact.readable_toValue_iff facts.tree).mpr ⟨finite, shallow⟩
  have root := ofValue_toValue (facts.toValue.fault?_of_readable readable)
  rw [ofJson, toJson, Json.ofText_compact readable, Json.Document.read, root]
  rfl

/-- Facts are read back from JSON as they were written exactly if their numbers are finite and the text is
not nested deeper than the reader goes. -/
theorem ofJson_toJson_iff (facts : Facts Binary64) : ofJson facts.toJson = .ok facts ↔
    facts.tree.Finite ∧ facts.tree.depth ≤ Json.depthLimit := by
  constructor
  · exact sound_of_ofJson
  · rintro ⟨finite, shallow⟩
    exact ofJson_toJson finite shallow

def ofKinds : Facts Binary64 :=
  .mk
    [("", .null), ("a.b", .number (.zero true)), ("list", .list [.bool true, .list [], .map []]),
    ("map", .map [("", .map []), ("\t😀", .text "\"\\ \u001fé😀")]), ("text", .text "")]

theorem ofJson_toJson_ofKinds :
    ofKinds.tree.Finite ∧ ofKinds.tree.depth ≤ Json.depthLimit ∧
      ofJson ofKinds.toJson = .ok ofKinds := by
  have finite : ofKinds.tree.Finite := by
    have zero : (Binary64.zero true).isFinite = true := by decide
    simp [tree, ofKinds, zero]
  have shallow : ofKinds.tree.depth ≤ Json.depthLimit := by decide
  exact ⟨finite, shallow, (ofJson_toJson_iff ofKinds).mpr ⟨finite, shallow⟩⟩

end Reading

section Bytes

variable {bytes : ByteArray} {facts : Facts Binary64}

/-- Bytes that are no text hold no facts, and others hold those of their text. -/
theorem ofBytes_eq_ok_iff :
    ofBytes bytes = .ok facts ↔
      ∃ text, String.fromUTF8? bytes = some text ∧ ofJson text = .ok facts := by
  cases decoded : String.fromUTF8? bytes with
  | none =>
    refine iff_of_false (fun read => ?_) (by simp)
    exact Json.not_whole_ofBytes decoded (whole_of_read read).1
  | some text =>
    unfold ofBytes Json.Document.ofBytes
    rw [decoded]
    exact ⟨fun read => ⟨text, rfl, read⟩, fun ⟨_, same, read⟩ => Option.some.inj same ▸ read⟩

theorem ofInput_eq_ok_iff : ofInput bytes = .ok facts ↔ ofBytes bytes = .ok facts := by
  rw [ofBytes_eq_ok_iff]
  unfold ofInput Files.textOf
  cases String.fromUTF8? bytes with
  | none => simp
  | some text => simp [mapError_eq_ok_iff]

theorem ofFile_eq_ok_iff (path : String) :
    ofFile path (.ok bytes) = .ok facts ↔ ofBytes bytes = .ok facts := mapError_eq_ok_iff

theorem ofBytes_toJson (finite : facts.tree.Finite) (shallow : facts.tree.depth ≤ Json.depthLimit) :
    ofBytes facts.toJson.toUTF8 = .ok facts := by
  have decoded : String.fromUTF8? facts.toJson.toUTF8 = some facts.toJson :=
    dif_pos facts.toJson.isValidUTF8
  exact ofBytes_eq_ok_iff.mpr ⟨_, decoded, ofJson_toJson finite shallow⟩

end Bytes

end Facts

end PageHealth
