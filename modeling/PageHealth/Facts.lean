import PageHealth.Text

/-! What was measured on a page: a tree of values, reached by dot-separated paths. -/
namespace PageHealth

abbrev Members (β : Type) := List (String × β)

namespace Members

variable {β : Type}

def find? (key : String) : Members β → Option β
  | [] => none
  | (k, v) :: rest => if k = key then some v else find? key rest

def put (key : String) (value : β) : Members β → Members β
  | [] => [(key, value)]
  | (k, v) :: rest =>
    if k = key then (key, value) :: rest
    else if key < k then (key, value) :: (k, v) :: rest
    else (k, v) :: put key value rest

/-- Members given in any order; of several values under one key the last stays. -/
def ofList (members : List (String × β)) : Members β :=
  members.foldl (fun acc m => put m.1 m.2 acc) []

def Increasing (members : Members β) : Prop := members.Pairwise fun a b => a.1 < b.1

instance (members : Members β) : Decidable (Increasing members) :=
  inferInstanceAs (Decidable (List.Pairwise _ _))

variable {key : String} {value : β} {members : Members β} {member : String × β}

theorem mem_of_mem_put (listed : member ∈ put key value members) :
    member = (key, value) ∨ member ∈ members := by
  induction members with
  | nil => exact .inl (List.mem_singleton.mp listed)
  | cons first rest ih =>
    simp only [put] at listed
    split at listed
    · exact (List.mem_cons.mp listed).imp_right (List.mem_cons_of_mem _)
    · split at listed
      · exact List.mem_cons.mp listed
      · rcases List.mem_cons.mp listed with rfl | behind
        · exact .inr List.mem_cons_self
        · exact (ih behind).imp_right (List.mem_cons_of_mem _)

theorem Increasing.put (increasing : Increasing members) : Increasing (put key value members) := by
  induction members with
  | nil => exact List.pairwise_singleton _ _
  | cons member rest ih =>
    obtain ⟨name, held⟩ := member
    obtain ⟨first, others⟩ := List.pairwise_cons.mp increasing
    simp only [Members.put]
    split
    · subst name
      exact List.pairwise_cons.mpr ⟨first, others⟩
    · split
      · refine List.pairwise_cons.mpr ⟨fun member listed => ?_, increasing⟩
        rcases List.mem_cons.mp listed with rfl | behind
        · assumption
        · exact String.lt_trans ‹key < name› (first member behind)
      · refine List.pairwise_cons.mpr ⟨fun member listed => ?_, ih others⟩
        rcases mem_of_mem_put listed with rfl | behind
        · exact Std.lt_of_le_of_ne (String.not_lt.mp ‹¬ key < name›) ‹name ≠ key›
        · exact first member behind

theorem increasing_ofList (members : List (String × β)) : Increasing (ofList members) := by
  suffices ∀ before : Members β, Increasing before →
      Increasing (members.foldl (fun acc m => put m.1 m.2 acc) before) from this [] .nil
  induction members with
  | nil => exact fun before increasing => increasing
  | cons member rest ih => exact fun before increasing => ih _ increasing.put

theorem mem_of_mem_ofList {members : List (String × β)} (listed : member ∈ ofList members) :
    member ∈ members := by
  suffices ∀ before : Members β, member ∈ members.foldl (fun acc m => put m.1 m.2 acc) before →
      member ∈ before ∨ member ∈ members from (this [] listed).resolve_left List.not_mem_nil
  clear listed
  induction members with
  | nil => exact fun before => .inl
  | cons first rest ih =>
    intro before listed
    rcases ih _ listed with held | behind
    · rcases mem_of_mem_put held with rfl | old
      · exact .inr List.mem_cons_self
      · exact .inl old
    · exact .inr (List.mem_cons_of_mem _ behind)

theorem mem_of_find?_eq_some (found : find? key members = some value) : (key, value) ∈ members := by
  induction members with
  | nil => cases found
  | cons member rest ih =>
    obtain ⟨name, held⟩ := member
    simp only [find?] at found
    split at found
    · subst name
      cases found
      exact List.mem_cons_self
    · exact List.mem_cons_of_mem _ (ih found)

end Members

inductive Fact (α : Type) where
  | null
  | bool (value : Bool)
  | number (value : α)
  | text (value : String)
  | list (items : List (Fact α))
  | map (members : List (String × Fact α))

namespace Fact

variable {α : Type}

/-- Booleans and text are never read as numbers. -/
def number? : Fact α → Option α
  | .number n => some n
  | _ => none

def members : Fact α → Members (Fact α)
  | .map members => members
  | _ => []

def follow : List String → Fact α → Option (Fact α)
  | [], fact => some fact
  | key :: keys, fact => (Members.find? key fact.members).bind (follow keys)

/-- The tree with a value put where the keys lead. Maps are made on the way, and a value on the way
that is no map gives way to one. -/
def place (value : Fact α) : List String → Fact α → Fact α
  | [], _ => value
  | key :: keys, fact =>
    let child := (Members.find? key fact.members).getD (.map [])
    .map (Members.put key (place value keys child) fact.members)

inductive Sorted : Fact α → Prop where
  | null : Sorted .null
  | bool (b : Bool) : Sorted (.bool b)
  | number (x : α) : Sorted (.number x)
  | text (s : String) : Sorted (.text s)
  | list {items : List (Fact α)} (inside : ∀ item ∈ items, Sorted item) : Sorted (.list items)
  | map {members : Members (Fact α)} (increasing : members.Increasing)
      (inside : ∀ member ∈ members, Sorted member.2) : Sorted (.map members)

attribute [simp] Sorted.null Sorted.bool Sorted.number Sorted.text

@[simp] theorem sorted_list_iff {items : List (Fact α)} :
    (Fact.list items).Sorted ↔ ∀ item ∈ items, item.Sorted :=
  ⟨fun | .list inside => inside, .list⟩

@[simp] theorem sorted_map_iff {members : Members (Fact α)} :
    (Fact.map members).Sorted ↔ members.Increasing ∧ ∀ member ∈ members, member.2.Sorted :=
  ⟨fun | .map increasing inside => ⟨increasing, inside⟩, fun sorted => .map sorted.1 sorted.2⟩

theorem Sorted.members {fact : Fact α} (sorted : fact.Sorted) : (Fact.map fact.members).Sorted := by
  cases sorted with
  | map increasing inside => exact .map increasing inside
  | _ => exact .map .nil (fun _ listed => nomatch listed)

theorem Sorted.place {value fact : Fact α} {keys : List String} (new : value.Sorted)
    (sorted : fact.Sorted) : (Fact.place value keys fact).Sorted := by
  induction keys generalizing fact with
  | nil => exact new
  | cons key keys ih =>
    obtain ⟨increasing, inside⟩ := sorted_map_iff.mp sorted.members
    have child : ((Members.find? key fact.members).getD (.map [])).Sorted := by
      cases found : Members.find? key fact.members with
      | none => exact .map .nil (fun _ listed => nomatch listed)
      | some held => exact inside _ (Members.mem_of_find?_eq_some found)
    refine .map increasing.put fun member listed => ?_
    rcases Members.mem_of_mem_put listed with rfl | held
    · exact ih child
    · exact inside member held

end Fact

/-- A value whose maps have their keys in order, as they are in every tree of facts. -/
abbrev OrderedFact (α : Type) := {value : Fact α // value.Sorted}

structure Facts (α : Type) where
  root : Members (Fact α)
  sorted : (Fact.map root).Sorted := by
    -- The comparison of two keys is left to evaluation: a library may have its own normal form for it.
    simp only [Fact.sorted_map_iff, Fact.sorted_list_iff, Fact.Sorted.null, Fact.Sorted.bool,
      Fact.Sorted.number, Fact.Sorted.text, Members.Increasing, List.pairwise_cons, List.Pairwise.nil,
      List.mem_cons, List.not_mem_nil, or_false, forall_eq_or_imp, forall_eq, false_implies,
      implies_true, and_self, String.reduceLT]

namespace Facts

variable {α : Type}

def empty : Facts α := ⟨[], .map .nil (fun _ listed => nomatch listed)⟩

def isEmpty (facts : Facts α) : Bool := facts.root.isEmpty

/-- The value at a path; a null that is present is found. -/
def lookup (facts : Facts α) (path : String) : Option (Fact α) :=
  if path.isEmpty then none else Fact.follow (pathSegments path) (.map facts.root)

def insert (facts : Facts α) (path : String) (value : Fact α) (ordered : value.Sorted := by simp) :
    Facts α :=
  if hasEmptySegment path then facts
  else ⟨(Fact.place value (pathSegments path) (.map facts.root)).members,
    (ordered.place facts.sorted).members⟩

end Facts

end PageHealth
