import PageHealth.Catalog.Problem
import PageHealth.Proofs.Facts.Json
import PageHealth.Proofs.Facts.Lookup
import PageHealth.Proofs.Scoring.Conditions

/-! Paths that are empty or have an empty segment. An insertion ignores them in every tree; a look-up goes
by the keys that are there, and reaches nothing by such a path exactly if the tree has no empty key on any
way. Insertions make no empty keys, but a document may have them. -/
namespace PageHealth

variable {α : Type}

namespace Fact

theorem follow_cons_eq_some_iff {key : String} {keys : List String} {fact reached : Fact α} :
    follow (key :: keys) fact = some reached ↔
      ∃ members child, fact = .map members ∧ Members.find? key members = some child ∧
        follow keys child = some reached := by
  constructor
  · intro arrived
    obtain ⟨child, found, onward⟩ := Option.bind_eq_some_iff.mp arrived
    cases fact with
    | map members => exact ⟨members, child, rfl, found, onward⟩
    | _ => cases found
  · rintro ⟨members, child, rfl, found, onward⟩
    exact Option.bind_eq_some_iff.mpr ⟨child, found, onward⟩

end Fact

namespace Facts

/-- Nothing is found through an empty key: no map that a path leads to has one, and a map under an empty
key of the root has no member that a path could name. -/
structure Named (facts : Facts α) : Prop where
  below : ∀ path members, facts.lookup path = some (.map members) → Members.find? "" members = none
  root : ∀ members, Members.find? "" facts.root = some (.map members) →
    ∀ key, '.' ∉ key.toList → Members.find? key members = none

section Lookups

variable {facts : Facts α} {path other : String} {value : OrderedFact α} {reached : Fact α}

theorem Named.lookup_eq_none (named : facts.Named) (improper : hasEmptySegment path = true) :
    facts.lookup path = none := by
  by_contra resolved
  obtain ⟨reached, found⟩ := Option.ne_none_iff_exists'.mp resolved
  obtain ⟨present, arrived⟩ := lookup_eq_some_iff.mp found
  obtain ⟨front, back, segments, first⟩ :=
    List.eq_append_cons_of_mem (hasEmptySegment_eq_true_iff.mp improper)
  rw [segments, Fact.follow_append] at arrived
  obtain ⟨middle, there, onward⟩ := Option.bind_eq_some_iff.mp arrived
  obtain ⟨members, child, rfl, blank, further⟩ := Fact.follow_cons_eq_some_iff.mp onward
  cases front with
  | nil =>
    cases there
    cases back with
    | nil =>
      -- The path is empty, and that is not looked up at all.
      rw [eq_of_pathSegments_eq_singleton segments] at present
      cases present
    | cons key back =>
      obtain ⟨inner, grandchild, rfl, last, _⟩ := Fact.follow_cons_eq_some_iff.mp further
      have noDot : '.' ∉ key.toList := @notMem_of_mem_pathSegments path key (by simp [segments])
      rw [named.root inner blank key noDot] at last
      cases last
  | cons key front =>
    -- What stands before the first empty segment is a path of its own.
    obtain ⟨before, _, _, cut⟩ :=
      exists_path_of_pathSegments_eq_append segments (List.cons_ne_nil _ _) (List.cons_ne_nil _ _)
    have proper : hasEmptySegment before = false := by
      rw [← Bool.not_eq_true, hasEmptySegment_eq_true_iff, cut]
      exact first
    have held : facts.lookup before = .some (.map members) :=
      lookup_eq_some_iff.mpr ⟨isEmpty_eq_false_of_proper proper, cut ▸ there⟩
    rw [named.below before members held] at blank
    cases blank

theorem named_of_lookup_eq_none
    (unresolved : ∀ path, hasEmptySegment path = true → facts.lookup path = none) : facts.Named := by
  have missing {front back : String} {reached : Fact α} (blank : "" ∈ pathSegments front ++ pathSegments back)
      (arrived : Fact.follow (pathSegments front ++ pathSegments back) (.map facts.root) = some reached) :
      False := by
    have improper : hasEmptySegment (front ++ "." ++ back) = true := by
      rw [hasEmptySegment_eq_true_iff, pathSegments_append]
      exact blank
    have present : (front ++ "." ++ back).isEmpty = false := by
      rw [← Bool.not_eq_true, String.isEmpty_iff]
      intro empty
      simpa using congrArg String.length empty
    have found := lookup_eq_some_iff.mpr ⟨present, (pathSegments_append front back) ▸ arrived⟩
    rw [unresolved _ improper] at found
    cases found
  have blank : pathSegments "" = [""] := rfl
  constructor
  · intro path members held
    by_contra named
    obtain ⟨child, found⟩ := Option.ne_none_iff_exists'.mp named
    obtain ⟨_, arrived⟩ := lookup_eq_some_iff.mp held
    refine @missing path "" child (by simp [blank]) ?_
    rw [Fact.follow_append, arrived]
    exact Fact.follow_cons_eq_some_iff.mpr ⟨members, child, rfl, found, rfl⟩
  · intro members held key noDot
    by_contra named
    obtain ⟨child, found⟩ := Option.ne_none_iff_exists'.mp named
    refine @missing "" key child (by simp [blank]) ?_
    rw [blank, pathSegments_of_notMem noDot]
    refine Fact.follow_cons_eq_some_iff.mpr ⟨facts.root, .map members, rfl, held, ?_⟩
    exact Fact.follow_cons_eq_some_iff.mpr ⟨members, child, rfl, found, rfl⟩

theorem Named.insert (named : facts.Named) (path : String)
    (plain : ∀ keys, "" ∈ keys → Fact.follow keys value.1 = none) :
    (facts.insert path value.1 value.2).Named := by
  cases proper : hasEmptySegment path with
  | true => rwa [insert_of_hasEmptySegment proper]
  | false =>
    have segments : "" ∉ pathSegments path := by
      rw [← hasEmptySegment_eq_true_iff, proper]
      exact Bool.false_ne_true
    apply named_of_lookup_eq_none
    intro other improper
    have blank := hasEmptySegment_eq_true_iff.mp improper
    by_cases below : pathSegments path <+: pathSegments other
    · obtain ⟨rest, longer⟩ := below
      rw [← longer] at blank
      rw [lookup_insert_below proper longer.symm]
      exact plain rest ((List.mem_append.mp blank).resolve_left segments)
    · have notAbove : ¬ pathSegments other <+: pathSegments path :=
        fun above => segments (above.subset blank)
      rw [lookup_insert_beside proper below notAbove]
      exact named.lookup_eq_none improper

end Lookups

/-- The paths that are empty or have an empty segment are those that nothing can be put at and nothing be
found at; so a condition that is refused for an empty segment holds of no such facts. -/
structure IgnoresImproper (facts : Facts Binary64) : Prop where
  lookup : ∀ path, hasEmptySegment path = true → facts.lookup path = none
  insert : ∀ path,
    (∀ value : OrderedFact Binary64, facts.insert path value.1 value.2 = facts) ↔
      ∀ value : OrderedFact Binary64, (facts.insert path value.1 value.2).lookup path = none
  condition : ∀ place (condition : Condition Binary64),
    .emptySegment place condition.field ∈ condition.problems place → condition.holds facts = false

section Conditions

variable {facts : Facts Binary64} {path : String} {condition : Condition Binary64}

theorem hasEmptySegment_of_mem_problems {place : ConditionPlace}
    (found : .emptySegment place condition.field ∈ condition.problems place) :
    hasEmptySegment condition.field = true := by
  unfold Condition.problems at found
  split_ifs at found with _ improper
  · simp at found
  · exact improper
  · cases found

theorem insert_ignores_iff
    (unresolved : ∀ path, hasEmptySegment path = true → facts.lookup path = none) :
    (∀ value : OrderedFact Binary64, facts.insert path value.1 value.2 = facts) ↔
      ∀ value : OrderedFact Binary64, (facts.insert path value.1 value.2).lookup path = none := by
  cases proper : hasEmptySegment path with
  | true =>
    have ignored (value : OrderedFact Binary64) : facts.insert path value.1 value.2 = facts :=
      insert_of_hasEmptySegment proper value
    exact iff_of_true ignored fun value => (congrArg (Facts.lookup · path) (ignored value)).trans
      (unresolved path proper)
  | false =>
    have found (value : OrderedFact Binary64) := @lookup_insert_self _ facts path value proper
    let null : OrderedFact Binary64 := ⟨.null, .null⟩
    let yes : OrderedFact Binary64 := ⟨.bool true, .bool true⟩
    refine iff_of_false (fun ignored => ?_) fun missing => ?_
    · -- One tree cannot have two values at one path.
      have held := found null
      rw [ignored null, ← ignored yes, found yes] at held
      cases held
    · have held := missing null
      rw [found null] at held
      cases held

end Conditions

/-- Facts ignore improper paths exactly if no empty key is on any way through them, and they stay so when
values without empty keys are put in. -/
theorem ignoresImproper_iff (facts : Facts Binary64) :
    (facts.IgnoresImproper ↔ facts.Named) ∧
      (facts.Named → ∀ (path : String) (value : OrderedFact Binary64),
        (∀ keys, "" ∈ keys → Fact.follow keys value.1 = none) →
          (facts.insert path value.1 value.2).Named) := by
  refine ⟨⟨fun ignores => named_of_lookup_eq_none ignores.lookup, fun named => ?_⟩, ?_⟩
  · have unresolved (path : String) (improper : hasEmptySegment path = true) :
        facts.lookup path = none := named.lookup_eq_none improper
    refine ⟨unresolved, fun path => insert_ignores_iff unresolved, fun place condition found => ?_⟩
    have absent := unresolved condition.field (hasEmptySegment_of_mem_problems found)
    apply Condition.not_holds_of_reading?_eq_none
    unfold reading?
    rw [absent]
    rfl
  · exact fun named path value plain => named.insert path plain

theorem named_empty : (Facts.empty : Facts α).Named := by
  constructor
  · intro path members found
    obtain ⟨_, arrived⟩ := lookup_eq_some_iff.mp found
    rw [empty, Fact.follow_map_nil (pathSegments_ne_nil path)] at arrived
    cases arrived
  · intro members found
    cases found

/-- The facts that are made by these insertions ignore improper paths, and the last insertion is at one. -/
theorem ignoresImproper_iff_ofInsertions :
    (((Facts.empty.insert "page.title" (.text "Home")).insert "page.size" (.number (.ofNat 3))).insert
      "page..title" .null).IgnoresImproper := by
  have scalar (value : Fact Binary64) (leaf : value.members = []) (keys : List String)
      (blank : "" ∈ keys) : Fact.follow keys value = none := by
    obtain ⟨key, keys, rfl⟩ := List.exists_cons_of_ne_nil (List.ne_nil_of_mem blank)
    rw [Fact.follow, leaf]
    rfl
  have title := (ignoresImproper_iff _).2 named_empty "page.title" ⟨.text "Home", .text _⟩ (scalar _ rfl)
  have size := (ignoresImproper_iff _).2 title "page.size" ⟨.number (.ofNat 3), .number _⟩
    (scalar _ rfl)
  have nothing := (ignoresImproper_iff _).2 size "page..title" ⟨.null, .null⟩ (scalar _ rfl)
  exact (ignoresImproper_iff _).1.mpr nothing

def ofEmptyKey : Facts Binary64 := .mk [("title", .map [("", .number (.ofNat 1))])]

/-- The path that ends in a dot leads to the empty key of a document that has one. -/
theorem not_ignoresImproper_ofEmptyKey :
    ofJson ofEmptyKey.toJson = .ok ofEmptyKey ∧ hasEmptySegment "title." = true ∧
      ofEmptyKey.lookup "title." = some (.number (.ofNat 1)) ∧
      (Condition.mk "title." "equals" (.number (.ofNat 1))).holds ofEmptyKey = true ∧
      ¬ ofEmptyKey.IgnoresImproper := by
  have improper : hasEmptySegment "title." = true := by decide +kernel
  have found : ofEmptyKey.lookup "title." = some (.number (.ofNat 1)) := by rfl
  refine ⟨?_, improper, found, by decide +kernel, fun ignores => ?_⟩
  · have finite : (Binary64.ofNat 1).isFinite = true := by decide +kernel
    apply ofJson_toJson
    · simp [tree, ofEmptyKey, finite]
    · decide
  · rw [ignores.lookup "title." improper] at found
    cases found

end Facts

end PageHealth
