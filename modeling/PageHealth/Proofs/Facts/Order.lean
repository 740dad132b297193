import Mathlib.Data.List.Pairwise
import PageHealth.Proofs.Facts.Lookup

namespace PageHealth

namespace Members

variable {β : Type} {key other : String} {members : Members β}

theorem put_put_self (key : String) (old new : β) (members : Members β) :
    put key new (put key old members) = put key new members := by
  induction members with
  | nil => simp only [put, if_true]
  | cons member rest ih =>
    obtain ⟨name, held⟩ := member
    by_cases same : name = key
    · simp only [put, if_pos same, if_true]
    · by_cases before : key < name
      · simp only [put, if_neg same, if_pos before, if_true]
      · simp only [put, if_neg same, if_neg before, ih]

theorem put_eq_cons (first : ∀ member ∈ members.head?, key < member.1) (value : β) :
    put key value members = (key, value) :: members := by
  cases members with
  | nil => rfl
  | cons member rest =>
    obtain ⟨name, held⟩ := member
    have before : key < name := first _ rfl
    have apart : name ≠ key := by
      rintro rfl
      exact String.lt_irrefl _ before
    simp only [put, if_neg apart, if_pos before]

theorem lt_of_mem_head?_put {name : String} {held : β} {rest : Members β} (before : key < other)
    (first : key < name) (value : β) :
    ∀ member ∈ (put other value ((name, held) :: rest)).head?, key < member.1 := by
  intro member there
  simp only [put] at there
  split_ifs at there
  · cases there
    exact before
  · cases there
    exact before
  · cases there
    exact first

theorem put_comm_of_lt (before : key < other) (a b : β) (members : Members β) :
    put key a (put other b members) = put other b (put key a members) := by
  have notBehind : ¬ other < key := String.lt_asymm before
  have apart : key ≠ other := by
    rintro rfl
    exact notBehind before
  induction members with
  | nil => simp only [put, if_neg apart, if_neg apart.symm, if_pos before, if_neg notBehind]
  | cons member rest ih =>
    obtain ⟨name, held⟩ := member
    by_cases same : name = key
    · subst same
      simp only [put, if_true, if_neg apart, if_neg notBehind]
    · by_cases first : key < name
      · -- The smaller key goes in front, whether the greater one is there already or not.
        rw [put_eq_cons (lt_of_mem_head?_put before first b)]
        simp only [put, if_neg same, if_pos first, if_neg apart, if_neg notBehind]
      · have notHere : name ≠ other := by
          rintro rfl
          exact first before
        have notFirst : ¬ other < name := fun later => first (String.lt_trans before later)
        simp only [put, if_neg same, if_neg first, if_neg notHere, if_neg notFirst, ih]

theorem put_comm (apart : key ≠ other) (a b : β) (members : Members β) :
    put key a (put other b members) = put other b (put key a members) := by
  by_cases before : key < other
  · exact put_comm_of_lt before a b members
  · have behind : other < key := by
      by_contra notBehind
      exact apart (String.le_antisymm (String.not_lt.mp notBehind) (String.not_lt.mp before))
    exact (put_comm_of_lt behind b a members).symm

end Members

variable {α : Type}

namespace Fact

variable {keys path : List String} {fact : Fact α}

theorem place_place_self (keys : List String) (old new fact : Fact α) :
    place new keys (place old keys fact) = place new keys fact := by
  induction keys generalizing fact with
  | nil => rfl
  | cons key keys ih =>
    simp only [place, Fact.members, Members.find?_put, if_true, Option.getD_some,
      Members.put_put_self, ih]

/-- Values at paths that part are in different members of the map where the paths part. -/
theorem place_comm (notBelow : ¬ keys <+: path) (notAbove : ¬ path <+: keys) (a b : Fact α) :
    place a keys (place b path fact) = place b path (place a keys fact) := by
  induction keys generalizing path fact with
  | nil => exact absurd List.nil_prefix notBelow
  | cons key keys ih =>
    cases path with
    | nil => exact absurd List.nil_prefix notAbove
    | cons step path =>
      by_cases same : key = step
      · subst same
        rw [List.prefix_cons_inj] at notBelow notAbove
        simp only [place, Fact.members, Members.find?_put, if_true, Option.getD_some,
          Members.put_put_self, ih notBelow notAbove]
      · simp only [place, Fact.members, Members.find?_put, if_neg same, if_neg (Ne.symm same)]
        rw [Members.put_comm same]

end Fact

/-- Neither path starts with the other, segment by segment. -/
def PathsPart (path other : String) : Prop :=
  ¬ pathSegments path <+: pathSegments other ∧ ¬ pathSegments other <+: pathSegments path

/-- Values to be inserted, any two of them at paths that part. What has an empty segment in its path is
not inserted at all and may be anywhere. -/
def Independent {β : Type} (entries : List (String × β)) : Prop :=
  entries.Pairwise fun a b =>
    hasEmptySegment a.1 = false → hasEmptySegment b.1 = false → PathsPart a.1 b.1

instance (path other : String) : Decidable (PathsPart path other) :=
  inferInstanceAs (Decidable (_ ∧ _))

instance {β : Type} (entries : List (String × β)) : Decidable (Independent entries) :=
  inferInstanceAs (Decidable (List.Pairwise _ _))

namespace Facts

variable {facts : Facts α} {path other : String} {entries reordered : List (String × OrderedFact α)}

def insertAll (facts : Facts α) (entries : List (String × OrderedFact α)) : Facts α :=
  entries.foldl (fun acc entry => acc.insert entry.1 entry.2.1 entry.2.2) facts

theorem eq_of_map_root {f g : Facts α} (same : Fact.map f.root = Fact.map g.root) : f = g := by
  cases f
  cases g
  cases same
  rfl

theorem insert_insert_self (facts : Facts α) (path : String) (old new : OrderedFact α) :
    (facts.insert path old.1 old.2).insert path new.1 new.2 = facts.insert path new.1 new.2 := by
  cases proper : hasEmptySegment path with
  | true => rw [insert_of_hasEmptySegment proper old]
  | false =>
    apply eq_of_map_root
    rw [map_root_insert proper, map_root_insert proper, map_root_insert proper,
      Fact.place_place_self]

theorem insert_comm
    (apart : hasEmptySegment path = false → hasEmptySegment other = false → PathsPart path other)
    (a b : OrderedFact α) :
    (facts.insert path a.1 a.2).insert other b.1 b.2 =
      (facts.insert other b.1 b.2).insert path a.1 a.2 := by
  cases proper : hasEmptySegment path with
  | true => rw [insert_of_hasEmptySegment proper a, insert_of_hasEmptySegment proper a]
  | false =>
    cases proper' : hasEmptySegment other with
    | true => rw [insert_of_hasEmptySegment proper' b, insert_of_hasEmptySegment proper' b]
    | false =>
      obtain ⟨notBelow, notAbove⟩ := apart proper proper'
      apply eq_of_map_root
      rw [map_root_insert proper, map_root_insert proper', map_root_insert proper',
        map_root_insert proper, Fact.place_comm notAbove notBelow]

theorem insertAll_perm (independent : Independent entries) (perm : entries.Perm reordered) :
    facts.insertAll entries = facts.insertAll reordered := by
  have symmetric : Std.Symm fun a b : String × OrderedFact α =>
      hasEmptySegment a.1 = false → hasEmptySegment b.1 = false → PathsPart a.1 b.1 := by
    constructor
    intro a b apart proper proper'
    exact (apart proper' proper).symm
  apply perm.foldl_eq'
  intro a listed b listed' current
  by_cases same : a = b
  · rw [same]
  · exact insert_comm (independent.forall listed listed' same) a.2 b.2

/-- An entry might as well have been the last. -/
theorem lookup_insertAll (independent : Independent entries) {entry : String × OrderedFact α}
    (listed : entry ∈ entries) (proper : hasEmptySegment entry.1 = false) :
    (facts.insertAll entries).lookup entry.1 = some entry.2.1 := by
  obtain ⟨front, back, rfl⟩ := List.append_of_mem listed
  have last : (front ++ entry :: back).Perm (front ++ back ++ [entry]) :=
    List.perm_middle.trans (List.perm_append_singleton entry (front ++ back)).symm
  rw [insertAll_perm independent last]
  unfold insertAll
  rw [List.foldl_append]
  exact lookup_insert_self proper

theorem insertAll_filter (entries : List (String × OrderedFact α)) :
    facts.insertAll (entries.filter fun entry => !hasEmptySegment entry.1) =
      facts.insertAll entries := by
  induction entries generalizing facts with
  | nil => rfl
  | cons entry rest ih =>
    have step : facts.insertAll (entry :: rest) =
        (facts.insert entry.1 entry.2.1 entry.2.2).insertAll rest := rfl
    rw [List.filter_cons, step]
    cases improper : hasEmptySegment entry.1 with
    | true =>
      rw [insert_of_hasEmptySegment improper]
      exact ih
    | false => exact ih

/-- In whatever order independent insertions are made the tree is the same, with every value where it was
put; what has an empty segment in its path has no part in it, and a second value at a path leaves nothing
of the first. -/
theorem insertAll_reorder (facts : Facts α) :
    (∀ entries : List (String × OrderedFact α), Independent entries →
      (∀ reordered, entries.Perm reordered → facts.insertAll reordered = facts.insertAll entries) ∧
        ∀ entry ∈ entries, hasEmptySegment entry.1 = false →
          (facts.insertAll entries).lookup entry.1 = some entry.2.1) ∧
      (∀ entries : List (String × OrderedFact α),
        facts.insertAll (entries.filter fun entry => !hasEmptySegment entry.1) =
          facts.insertAll entries) ∧
      ∀ (path : String) (old new : OrderedFact α),
        (facts.insert path old.1 old.2).insert path new.1 new.2 = facts.insert path new.1 new.2 := by
  refine ⟨?_, insertAll_filter, insert_insert_self facts⟩
  intro entries independent
  constructor
  · intro reordered perm
    exact (insertAll_perm independent perm).symm
  · intro entry listed proper
    exact lookup_insertAll independent listed proper

/-- Both paths lead through the title, which is a text until one of them makes a map of it. -/
theorem insertAll_reorder_ofPage :
    let facts := ofPage 3 "Home"
    let words : String × OrderedFact Binary64 := ("page.title.words", ⟨.number (.ofNat 1), .number _⟩)
    let length := ("page.title.length", ⟨.number (.ofNat 4), .number _⟩)
    let nowhere := ("page..title", ⟨.null, .null⟩)
    facts.insertAll [length, nowhere, words] = facts.insertAll [words, length, nowhere] ∧
      (facts.insertAll [words, length, nowhere]).lookup "page.title.length" =
        some (.number (.ofNat 4)) := by
  intro facts words length nowhere
  obtain ⟨anyOrder, found⟩ :=
    (insertAll_reorder facts).1 [words, length, nowhere] (by decide +kernel)
  constructor
  · apply anyOrder
    exact (List.perm_append_singleton words [length, nowhere]).symm
  · exact found length (by simp) (by decide +kernel)

end Facts

end PageHealth
