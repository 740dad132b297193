import PageHealth.Number.Binary64
import PageHealth.Proofs.Facts.Insertion

namespace PageHealth

variable {α : Type}

namespace Fact

variable {keys path : List String} {value fact : Fact α}

theorem follow_append (front back : List String) (fact : Fact α) :
    follow (front ++ back) fact = (follow front fact).bind (follow back) := by
  induction front generalizing fact with
  | nil => rfl
  | cons key front ih =>
    simp only [List.cons_append, follow, Option.bind_assoc]
    exact congrArg _ (funext ih)

theorem follow_map_nil (nonempty : path ≠ []) : follow path (.map [] : Fact α) = none := by
  obtain ⟨key, keys, rfl⟩ := List.exists_cons_of_ne_nil nonempty
  rfl

theorem follow_place_cons (step key : String) (path keys : List String) (value fact : Fact α) :
    follow (step :: path) (place value (key :: keys) fact) =
      if key = step then
        follow path (place value keys ((Members.find? key fact.members).getD (.map [])))
      else follow (step :: path) fact := by
  change (Members.find? step (Members.put key _ fact.members)).bind (follow path) = _
  rw [Members.find?_put]
  split_ifs
  · rfl
  · rfl

theorem follow_place_below (keys rest : List String) (value fact : Fact α) :
    follow (keys ++ rest) (place value keys fact) = follow rest value := by
  rw [follow_append, follow_place_self]
  rfl

theorem follow_place_above (front : List String) {back : List String} (more : back ≠ []) :
    ∃ members, follow front (place value (front ++ back) fact) = some (.map members) := by
  induction front generalizing fact with
  | nil =>
    obtain ⟨key, keys, rfl⟩ := List.exists_cons_of_ne_nil more
    exact ⟨_, rfl⟩
  | cons key front ih =>
    rw [List.cons_append, follow_place_cons, if_pos rfl]
    exact ih

/-- Two paths that part find different things, and neither sees what happens to the other. -/
theorem follow_place_beside (notBelow : ¬ keys <+: path) (notAbove : ¬ path <+: keys) :
    follow path (place value keys fact) = follow path fact := by
  induction keys generalizing path fact with
  | nil => exact absurd List.nil_prefix notBelow
  | cons key keys ih =>
    cases path with
    | nil => exact absurd List.nil_prefix notAbove
    | cons step path =>
      rw [follow_place_cons]
      split_ifs with same
      · subst same
        rw [List.prefix_cons_inj] at notBelow notAbove
        rw [ih notBelow notAbove, follow]
        cases Members.find? key fact.members with
        | some child => rfl
        | none =>
          -- A map is made here, and what is not on the way to the new value is missing from it too.
          refine follow_map_nil fun none => notAbove ?_
          rw [none]
          exact List.nil_prefix
      · rfl

end Fact

namespace Facts

variable {facts : Facts α} {path other : String} {value : OrderedFact α} {rest : List String}

theorem lookup_eq_follow (present : other.isEmpty = false) :
    facts.lookup other = Fact.follow (pathSegments other) (.map facts.root) := by
  unfold lookup
  rw [present]
  rfl

theorem isEmpty_eq_false_of_segments {front : List String} (proper : hasEmptySegment path = false)
    (here : front <+: pathSegments path) (there : front <+: pathSegments other) (some : front ≠ []) :
    other.isEmpty = false := by
  cases empty : other.isEmpty with
  | false => rfl
  | true =>
    obtain rfl := String.isEmpty_iff.mp empty
    obtain ⟨segment, more, rfl⟩ := List.exists_cons_of_ne_nil some
    have only : pathSegments "" = [""] := rfl
    rw [only, List.cons_prefix_cons] at there
    have member : "" ∈ pathSegments path := there.1 ▸ here.subset List.mem_cons_self
    exact absurd rfl ((List.any_eq_false.mp proper) "" member)

theorem lookup_insert_below (proper : hasEmptySegment path = false)
    (segments : pathSegments other = pathSegments path ++ rest) :
    (facts.insert path value.1 value.2).lookup other = Fact.follow rest value.1 := by
  have present := isEmpty_eq_false_of_segments proper (List.prefix_refl _)
    (segments ▸ List.prefix_append _ _) (pathSegments_ne_nil path)
  rw [lookup_insert proper present, segments]
  exact Fact.follow_place_below _ _ _ _

theorem lookup_insert_above (proper : hasEmptySegment path = false) (more : rest ≠ [])
    (segments : pathSegments path = pathSegments other ++ rest) :
    ∃ members, (facts.insert path value.1 value.2).lookup other = some (.map members) := by
  have present := isEmpty_eq_false_of_segments proper (segments ▸ List.prefix_append _ _)
    (List.prefix_refl _) (pathSegments_ne_nil other)
  rw [lookup_insert proper present, segments]
  exact Fact.follow_place_above _ more

theorem lookup_insert_beside (proper : hasEmptySegment path = false)
    (notBelow : ¬ pathSegments path <+: pathSegments other)
    (notAbove : ¬ pathSegments other <+: pathSegments path) :
    (facts.insert path value.1 value.2).lookup other = facts.lookup other := by
  cases present : other.isEmpty with
  | true =>
    unfold lookup
    rw [present]
    rfl
  | false =>
    rw [lookup_insert proper present, lookup_eq_follow present]
    exact Fact.follow_place_beside notBelow notAbove

/-- What every path finds after an insertion, by how its segments lie to those of the path that was
inserted at. -/
theorem lookup_insert_cases (facts : Facts α) (path other : String) (value : OrderedFact α) :
    (hasEmptySegment path = true → facts.insert path value.1 value.2 = facts) ∧
      (hasEmptySegment path = false →
        (∀ rest, pathSegments other = pathSegments path ++ rest →
          (facts.insert path value.1 value.2).lookup other = Fact.follow rest value.1) ∧
        (∀ rest, rest ≠ [] → pathSegments path = pathSegments other ++ rest →
          ∃ members, (facts.insert path value.1 value.2).lookup other = some (.map members)) ∧
        (¬ pathSegments path <+: pathSegments other → ¬ pathSegments other <+: pathSegments path →
          (facts.insert path value.1 value.2).lookup other = facts.lookup other)) := by
  constructor
  · exact fun improper => insert_of_hasEmptySegment improper value
  · intro proper
    refine ⟨?_, ?_, ?_⟩
    · exact fun rest segments => lookup_insert_below proper segments
    · exact fun rest more segments => lookup_insert_above proper more segments
    · exact lookup_insert_beside proper

def ofPage (size : Nat) (title : String) : Facts Binary64 :=
  .mk [("page", .map [("size", .number (.ofNat size)), ("title", .text title)])]

def ofLeast : OrderedFact Binary64 :=
  ⟨.map [("least", .number (.ofNat 30))], by simp [Members.Increasing]⟩

theorem lookup_insert_cases_ofPage :
    let facts := ofPage 3 "Home"
    let after := facts.insert "page.title.length" ofLeast.1 ofLeast.2
    facts.insert "page..length" .null = facts ∧
      after.lookup "page.title.length.least" = some (.number (.ofNat 30)) ∧
      (∃ members, after.lookup "page.title" = some (.map members)) ∧
      after.lookup "page.size" = some (.number (.ofNat 3)) ∧
      after.lookup "page.title.words" = none := by
  intro facts after
  have proper : hasEmptySegment "page.title.length" = false := by decide +kernel
  have found (other : String) := (lookup_insert_cases facts "page.title.length" other ofLeast).2 proper
  refine ⟨?_, ?_, ?_, ?_, ?_⟩
  · exact (lookup_insert_cases facts "page..length" "" ⟨.null, .null⟩).1 (by decide +kernel)
  · exact (found _).1 ["least"] (by decide +kernel)
  · exact (found _).2.1 ["length"] (by decide) (by decide +kernel)
  · exact (found _).2.2 (by decide +kernel) (by decide +kernel)
  · exact (found _).2.2 (by decide +kernel) (by decide +kernel)

end Facts

end PageHealth
