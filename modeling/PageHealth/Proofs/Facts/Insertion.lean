import PageHealth.Facts
import PageHealth.Proofs.Text.Split

/-! What an insertion leaves as it was. A value put where nothing was can only add members to maps, so
whatever could be looked up before and is no map is found again, above, below and beside the path. -/
namespace PageHealth

theorem Members.find?_put {β : Type} (key sought : String) (value : β) (members : Members β) :
    find? sought (put key value members) = if key = sought then some value else find? sought members := by
  induction members with
  | nil => rfl
  | cons member rest ih =>
    obtain ⟨name, old⟩ := member
    by_cases same : name = key
    · rw [put, if_pos same, same]
      simp only [find?]
      split_ifs <;> rfl
    · rw [put, if_neg same]
      by_cases before : key < name
      · rw [if_pos before]
        rfl
      · rw [if_neg before, find?, find?, ih]
        by_cases there : name = sought
        · rw [if_pos there, if_pos there, if_neg fun other => same (there.trans other.symm)]
        · rw [if_neg there, if_neg there]

variable {α : Type}

namespace Fact

def Passable (keys : List String) (fact : Fact α) : Prop :=
  ∀ front back, keys = front ++ back → back ≠ [] →
    ∀ reached, follow front fact = some reached → ∃ members, reached = .map members

theorem Passable.tail {key : String} {keys : List String} {members : Members (Fact α)}
    {child : Fact α} (passable : Passable (key :: keys) (.map members))
    (found : Members.find? key members = some child) : child.Passable keys := by
  intro front back parts more reached arrived
  apply passable (key :: front) back (by rw [parts]; rfl) more reached
  unfold follow
  rw [Fact.members, found]
  exact arrived

theorem follow_place {keys path : List String} {value fact reached : Fact α}
    (missing : follow keys fact = none) (passable : fact.Passable keys)
    (found : follow path fact = some reached) (leaf : ∀ members, reached ≠ .map members) :
    follow path (place value keys fact) = some reached := by
  induction keys generalizing path fact with
  | nil => cases missing
  | cons key keys ih =>
    obtain ⟨members, rfl⟩ := passable [] (key :: keys) rfl (List.cons_ne_nil _ _) fact rfl
    cases path with
    | nil =>
      -- What ends on the way to the missing place ends at a map.
      exact absurd (Option.some.inj found).symm (leaf members)
    | cons step path =>
      simp only [follow, place, Fact.members, Members.find?_put] at missing found ⊢
      -- Either both go on below the same child, which must be there, or they part for good.
      by_cases same : key = step
      · obtain ⟨child, there, onward⟩ := Option.bind_eq_some_iff.mp found
        rw [← same] at there
        rw [there] at missing ⊢
        rw [if_pos same]
        exact ih missing (passable.tail there) onward
      · rw [if_neg same]
        exact found

theorem map_members_place {keys : List String} (more : keys ≠ []) (value fact : Fact α) :
    Fact.map (place value keys fact).members = place value keys fact := by
  cases keys with
  | nil => exact absurd rfl more
  | cons key keys => rfl

theorem follow_place_self (keys : List String) (value fact : Fact α) :
    follow keys (place value keys fact) = some value := by
  induction keys generalizing fact with
  | nil => rfl
  | cons key keys ih =>
    simp only [follow, place, Fact.members, Members.find?_put, if_true]
    exact ih _

end Fact

namespace Facts

variable {facts : Facts α} {path other : String} {value : OrderedFact α} {reached : Fact α}

theorem lookup_eq_some_iff : facts.lookup path = some reached ↔
    path.isEmpty = false ∧ Fact.follow (pathSegments path) (.map facts.root) = some reached := by
  unfold lookup
  cases path.isEmpty <;> simp

theorem isEmpty_eq_false_of_proper (proper : hasEmptySegment path = false) : path.isEmpty = false := by
  cases empty : path.isEmpty with
  | false => rfl
  | true =>
    obtain rfl := String.isEmpty_iff.mp empty
    cases proper

theorem insert_of_hasEmptySegment (improper : hasEmptySegment path = true) (value : OrderedFact α) :
    facts.insert path value.1 value.2 = facts := by
  unfold insert
  rw [if_pos improper]

theorem map_root_insert (proper : hasEmptySegment path = false) :
    Fact.map (facts.insert path value.1 value.2).root =
      Fact.place value.1 (pathSegments path) (.map facts.root) := by
  rw [insert, if_neg (by rw [proper]; decide)]
  exact Fact.map_members_place (pathSegments_ne_nil path) _ _

theorem lookup_insert (proper : hasEmptySegment path = false) (present : other.isEmpty = false) :
    (facts.insert path value.1 value.2).lookup other =
      Fact.follow (pathSegments other) (Fact.place value.1 (pathSegments path) (.map facts.root)) := by
  rw [← map_root_insert proper]
  unfold lookup
  rw [present]
  rfl

/-- No value that a path passes through is anything but a map. -/
def Passable (facts : Facts α) (path : String) : Prop :=
  ∀ before after, path = before ++ "." ++ after →
    ∀ reached, facts.lookup before = some reached → ∃ members, reached = .map members

theorem Passable.root (passable : facts.Passable path) (proper : hasEmptySegment path = false) :
    (Fact.map facts.root).Passable (pathSegments path) := by
  intro front back parts more reached arrived
  by_cases none : front = []
  · rw [none] at arrived
    exact ⟨facts.root, (Option.some.inj arrived).symm⟩
  · obtain ⟨before, after, joined, segments⟩ := exists_path_of_pathSegments_eq_append parts none more
    apply passable before after joined reached
    have present : before.isEmpty = false := by
      apply isEmpty_eq_false_of_proper
      unfold hasEmptySegment at proper ⊢
      rw [parts, List.any_append, Bool.or_eq_false_iff] at proper
      rw [segments]
      exact proper.1
    unfold lookup
    rw [present, segments]
    exact arrived

theorem lookup_insert_self (proper : hasEmptySegment path = false) :
    (facts.insert path value.1 value.2).lookup path = some value.1 := by
  rw [lookup_insert proper (isEmpty_eq_false_of_proper proper)]
  exact Fact.follow_place_self _ _ _

theorem lookup_insert_of_lookup (proper : hasEmptySegment path = false)
    (missing : facts.lookup path = none) (passable : facts.Passable path)
    (found : facts.lookup other = some reached) (leaf : ∀ members, reached ≠ .map members) :
    (facts.insert path value.1 value.2).lookup other = some reached := by
  obtain ⟨present, arrived⟩ := lookup_eq_some_iff.mp found
  rw [lookup_insert proper present]
  have absent : Fact.follow (pathSegments path) (.map facts.root) = none := by
    unfold lookup at missing
    rw [isEmpty_eq_false_of_proper proper] at missing
    exact missing
  exact Fact.follow_place absent (passable.root proper) arrived leaf

end Facts

end PageHealth
