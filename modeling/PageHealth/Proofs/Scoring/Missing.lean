import PageHealth.Proofs.Facts.Insertion
import PageHealth.Proofs.Scoring.Conditions
import PageHealth.Proofs.Scoring.Monotone

namespace PageHealth

def Facts.Keeps (f g : Facts Binary64) : Prop :=
  ∀ path reading, f.reading? path = some reading → g.reading? path = some reading

section Pages

variable {f g : Facts Binary64}

theorem Condition.holds_of_keeps (kept : f.Keeps g) {condition : Condition Binary64}
    (held : condition.holds f = true) : condition.holds g = true := by
  cases read : f.reading? condition.field with
  | none =>
    rw [not_holds_of_reading?_eq_none read] at held
    cases held
  | some reading =>
    rw [← held]
    apply holds_congr
    rw [read, kept condition.field reading read]

theorem Rule.status_of_keeps (kept : f.Keeps g) (rule : Rule Binary64) :
    (rule.status f).grade ≤ (rule.status g).grade := by
  apply Rule.status_mono
  intro placed _ held
  exact Condition.holds_of_keeps kept held

theorem Facts.keeps_insert {facts : Facts Binary64} {path : String} {value : OrderedFact Binary64}
    (proper : hasEmptySegment path = false) (missing : facts.lookup path = none)
    (passable : facts.Passable path) : facts.Keeps (facts.insert path value.1 value.2) := by
  intro other reading read
  obtain ⟨fact, found, seen⟩ := Option.bind_eq_some_iff.mp read
  have leaf (members : Members (Fact Binary64)) : fact ≠ .map members := by
    rintro rfl
    cases seen
  apply Option.bind_eq_some_iff.mpr
  exact ⟨fact, lookup_insert_of_lookup proper missing passable found leaf, seen⟩

end Pages

def Facts.emptyGroup (name : String) : Facts Binary64 := .mk [(name, .map [])]

theorem Facts.emptyGroup_passable (name path : String) : (emptyGroup name).Passable path := by
  intro before _ _ reached found
  obtain ⟨_, arrived⟩ := lookup_eq_some_iff.mp found
  cases segments : pathSegments before with
  | nil => exact absurd segments (pathSegments_ne_nil before)
  | cons key keys =>
    obtain ⟨child, there, onward⟩ := Option.bind_eq_some_iff.mp (segments ▸ arrived)
    simp only [emptyGroup, Fact.members, Members.find?, Option.ite_none_right_eq_some,
      Option.some.injEq] at there
    rw [← there.2] at onward
    cases keys with
    | nil => exact ⟨[], (Option.some.inj onward).symm⟩
    | cons next rest => cases onward

/-- The measurement is there afterwards, no rule turns out worse, and neither does the page. -/
theorem Catalog.evaluate_insert_of_missing (catalog : Catalog Binary64)
    (accepted : catalog.problems = []) (facts : Facts Binary64) (path : String)
    (proper : hasEmptySegment path = false) (missing : facts.lookup path = none)
    (passable : facts.Passable path) (value : OrderedFact Binary64) :
    (facts.insert path value.1 value.2).lookup path = some value.1 ∧
      (∀ category ∈ catalog.categories, ∀ rule ∈ category.rules,
        (rule.status facts).grade ≤ (rule.status (facts.insert path value.1 value.2)).grade) ∧
      (catalog.evaluate facts).healthScore ≤
        (catalog.evaluate (facts.insert path value.1 value.2)).healthScore := by
  have kept : facts.Keeps (facts.insert path value.1 value.2) := Facts.keeps_insert proper missing passable
  refine ⟨Facts.lookup_insert_self proper, ?_, ?_⟩
  · intro category _ rule _
    exact rule.status_of_keeps kept
  · apply (Catalog.sound_of_problems_eq_nil accepted).healthScore_mono
    intro category _ rule _
    exact rule.status_of_keeps kept

theorem Catalog.evaluate_insert_of_missing_standard :
    ((Facts.emptyGroup "title").insert "title.length" (.number (Binary64.ofNat 40))).lookup
        "title.length" = some (.number (Binary64.ofNat 40)) ∧
      (∀ category ∈ Catalog.standard.categories, ∀ rule ∈ category.rules,
        (rule.status (Facts.emptyGroup "title")).grade ≤
          (rule.status ((Facts.emptyGroup "title").insert "title.length"
            (.number (Binary64.ofNat 40)))).grade) ∧
      (Catalog.standard.evaluate (Facts.emptyGroup "title")).healthScore ≤
        (Catalog.standard.evaluate ((Facts.emptyGroup "title").insert "title.length"
          (.number (Binary64.ofNat 40)))).healthScore :=
  evaluate_insert_of_missing _ standard_problems _ _ (by decide +kernel) (by decide +kernel)
    (Facts.emptyGroup_passable _ _) ⟨_, .number _⟩

end PageHealth
