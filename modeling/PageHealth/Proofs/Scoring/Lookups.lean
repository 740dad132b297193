import PageHealth.Proofs.Scoring.Agreement
import PageHealth.Proofs.Scoring.Replacement

namespace PageHealth

theorem getElem?_flatMap {β γ : Type} (part : β → List γ) {items : List β} {item : β} {x : γ}
    {i j : Nat} (there : items[i]? = some item) (within : (part item)[j]? = some x) :
    (items.flatMap part)[((items.take i).map fun other => (part other).length).sum + j]? = some x := by
  induction items generalizing i with
  | nil => cases there
  | cons first rest ih =>
    cases i with
    | zero =>
      obtain rfl : first = item := Option.some.inj there
      have inside : j < (part first).length := (List.getElem?_eq_some_iff.mp within).1
      simpa [List.getElem?_append_left inside] using within
    | succ i =>
      have later := ih there
      simp only [List.take_succ_cons, List.map_cons, List.sum_cons, List.flatMap_cons, Nat.add_assoc]
      rw [List.getElem?_append_right (Nat.le_add_right _ _), Nat.add_sub_cancel_left]
      exact later

/-- What is looked up in an evaluation by the ids of the catalog: each category and each rule finds the entry
that stands where its own does, and nothing else is found. -/
structure Evaluation.Finds (catalog : Catalog Binary64) (facts : Facts Binary64)
    (evaluation : Evaluation Binary64) : Prop where
  category : ∀ (i : Nat) (category : Category Binary64), catalog.categories[i]? = some category →
    ∃ score, evaluation.category? category.id = some score ∧
      evaluation.categoryScores[i]? = some score ∧ score.IsOf category
  rule : ∀ (i j : Nat) (category : Category Binary64) (rule : Rule Binary64),
    catalog.categories[i]? = some category → category.rules[j]? = some rule →
      ∃ outcome, evaluation.outcome? category.id rule.id = some outcome ∧
        evaluation.outcomes[catalog.outcomeIndex ⟨i, j⟩]? = some outcome ∧
        outcome.IsOf facts (category, rule)
  category_none : ∀ id, evaluation.category? id = none ↔
    ∀ category ∈ catalog.categories, category.id ≠ id
  rule_none : ∀ categoryId id, evaluation.outcome? categoryId id = none ↔
    ∀ category ∈ catalog.categories, category.id = categoryId → ∀ rule ∈ category.rules, rule.id ≠ id

section Entries

variable {catalog : Catalog Binary64} {category : Category Binary64} {rule : Rule Binary64} {i j : Nat}

theorem Catalog.categoryScores_getElem? (facts : Facts Binary64)
    (there : catalog.categories[i]? = some category) :
    (catalog.evaluate facts).categoryScores[i]? =
      some (category.evaluate catalog.scoring facts).score := by
  rw [catalog.evaluate_categoryScores, List.getElem?_map, there]
  rfl

theorem Catalog.outcomes_getElem? (facts : Facts Binary64)
    (there : catalog.categories[i]? = some category) (listed : category.rules[j]? = some rule) :
    (catalog.evaluate facts).outcomes[catalog.outcomeIndex ⟨i, j⟩]? =
      some (catalog.outcomeOf facts (category, rule)) := by
  have within : (category.rules.map (category.outcome catalog.scoring
      (category.weight catalog.scoring) facts))[j]? =
        some (catalog.outcomeOf facts (category, rule)) := by
    rw [List.getElem?_map, listed]
    rfl
  have found := getElem?_flatMap (fun c : Category Binary64 =>
    c.rules.map (c.outcome catalog.scoring (c.weight catalog.scoring) facts)) there within
  simp only [List.length_map] at found
  rw [catalog.evaluate_outcomes]
  exact found

theorem Catalog.Sound.categoryScore_eq (sound : catalog.Sound) {facts : Facts Binary64}
    {score : CategoryScore} (member : score ∈ (catalog.evaluate facts).categoryScores) :
    (catalog.evaluate facts).category? score.id = some score := by
  apply find?_key_of_nodup CategoryScore.id _ member
  rw [catalog.ids_categoryScores]
  exact sound.ids_nodup

theorem Catalog.category?_eq_none_iff (catalog : Catalog Binary64) (facts : Facts Binary64)
    (id : String) : (catalog.evaluate facts).category? id = none ↔
      ∀ category ∈ catalog.categories, category.id ≠ id := by
  have ids := catalog.ids_categoryScores facts
  unfold Evaluation.category?
  rw [List.find?_eq_none]
  simp only [decide_eq_true_eq]
  have scores := @List.forall_mem_map _ _ CategoryScore.id (catalog.evaluate facts).categoryScores (· ≠ id)
  rw [ids, List.forall_mem_map] at scores
  exact scores.symm

theorem Catalog.outcome?_eq_none_iff (catalog : Catalog Binary64) (facts : Facts Binary64)
    (categoryId id : String) : (catalog.evaluate facts).outcome? categoryId id = none ↔
      ∀ category ∈ catalog.categories, category.id = categoryId →
        ∀ rule ∈ category.rules, rule.id ≠ id := by
  unfold Evaluation.outcome?
  rw [List.find?_eq_none, catalog.evaluate_outcomes]
  simp only [List.forall_mem_flatMap, List.forall_mem_map, Category.outcome, Bool.and_eq_true,
    decide_eq_true_eq, not_and]
  refine forall₂_congr fun category _ => ?_
  exact ⟨fun apart same rule member => apart rule member same,
    fun apart rule member same => apart same rule member⟩

end Entries

namespace Catalog

theorem evaluate_finds (catalog : Catalog Binary64) (accepted : catalog.problems = [])
    (facts : Facts Binary64) : (catalog.evaluate facts).Finds catalog facts := by
  have sound := sound_of_problems_eq_nil accepted
  constructor
  · intro i category there
    have placed := catalog.categoryScores_getElem? facts there
    refine ⟨(category.evaluate catalog.scoring facts).score, ?_, placed, rfl, rfl, rfl⟩
    exact sound.categoryScore_eq (List.mem_of_getElem? placed)
  · intro i j category rule there listed
    have placed := catalog.outcomes_getElem? facts there listed
    refine ⟨catalog.outcomeOf facts (category, rule), ?_, placed, outcomeOf_isOf⟩
    exact sound.outcome?_eq (List.mem_of_getElem? placed)
  · exact catalog.category?_eq_none_iff facts
  · exact catalog.outcome?_eq_none_iff facts

def ofTwins : Catalog Binary64 where
  version := "1.0.0"
  engine := ""
  scoring := Scoring.standard
  categories :=
    [⟨"page", "Page", 10,
      [⟨"title", .high, "", "", some [⟨"title", "equals", .text "Home"⟩], none⟩]⟩,
     ⟨"links", "Links", 0,
      [⟨"count", .low, "", "", none, some ⟨⟨"links", "gt", .number (.ofNat 3)⟩, none⟩⟩,
       ⟨"title", .medium, "", "", some [⟨"links", "equals", .bool true⟩], none⟩]⟩]

theorem evaluate_finds_ofTwins :
    let page : Facts Binary64 := Facts.empty.insert "title" (.text "Home")
    (ofTwins.evaluate page).Finds ofTwins page :=
  evaluate_finds _ (List.isEmpty_iff.mp (by decide +kernel)) _

end Catalog

end PageHealth
