import PageHealth.Proofs.Catalog.Comparison
import PageHealth.Proofs.Scoring.Locality
import PageHealth.Proofs.Scoring.Monotone

namespace PageHealth

open Binary64

section Lists

variable {β : Type} {items : List β} {change : β → β} {index : Nat}

theorem exists_of_getElem? {item : β} (found : items[index]? = some item) (change : β → β) :
    ∃ front back, items = front ++ item :: back ∧
      items.modify index change = front ++ change item :: back ∧ front.length = index := by
  obtain ⟨inside, rfl⟩ := List.getElem?_eq_some_iff.mp found
  refine ⟨items.take index, items.drop (index + 1), ?_, ?_, ?_⟩
  · rw [List.getElem_cons_drop, List.take_append_drop]
  · exact List.modify_eq_take_cons_drop inside
  · exact List.length_take_of_le (Nat.le_of_lt inside)

theorem getElem?_append_cons_of_ne {front back : List β} (a b : β) {k : Nat} (other : k ≠ front.length) :
    (front ++ a :: back)[k]? = (front ++ b :: back)[k]? := by
  rcases Nat.lt_or_gt_of_ne other with before | behind
  · rw [List.getElem?_append_left before, List.getElem?_append_left before]
  · obtain ⟨m, rfl⟩ := Nat.exists_eq_add_of_lt behind
    rw [List.getElem?_append_right (by omega), List.getElem?_append_right (by omega)]
    have later : front.length + m + 1 - front.length = m + 1 := by omega
    rw [later, List.getElem?_cons_succ, List.getElem?_cons_succ]

theorem forall₂_modify {R : β → β → Prop} (same : ∀ item ∈ items, R item item)
    (changed : ∀ item, items[index]? = some item → R (change item) item) :
    List.Forall₂ R (items.modify index change) items := by
  induction items generalizing index with
  | nil =>
    rw [List.modify_nil]
    exact .nil
  | cons item rest ih =>
    rw [List.forall_mem_cons] at same
    cases index with
    | zero =>
      rw [List.modify_zero_cons]
      exact .cons (changed item rfl) (List.forall₂_same.mpr same.2)
    | succ index =>
      rw [List.modify_succ_cons]
      exact .cons same.1 (ih same.2 changed)

end Lists

section Places

variable {α : Type}

def Rule.withModes (rule : Rule α) (checks : Option (List (Condition α)))
    (thresholds : Option (Thresholds α)) : Rule α :=
  { rule with checks := checks, thresholds := thresholds }

def Category.withModes (category : Category α) (index : Nat) (checks : Option (List (Condition α)))
    (thresholds : Option (Thresholds α)) : Category α :=
  { category with
    rules := category.rules.modify index fun rule => rule.withModes checks thresholds }

def Catalog.withModes (catalog : Catalog α) (place : RulePlace)
    (checks : Option (List (Condition α))) (thresholds : Option (Thresholds α)) : Catalog α :=
  { catalog with
    categories := catalog.categories.modify place.category fun category =>
      category.withModes place.rule checks thresholds }

def Catalog.outcomeIndex (catalog : Catalog α) (place : RulePlace) : Nat :=
  ((catalog.categories.take place.category).map fun category => category.rules.length).sum + place.rule

end Places

section Scored

variable {α : Type} [Scalar α] {catalog : Catalog α} {facts : Facts α} {place : RulePlace}
  {rule : Rule α} {checks : Option (List (Condition α))} {thresholds : Option (Thresholds α)}

def Category.scored (category : Category α) (scoring : Scoring α) (facts : Facts α) :
    List (Rule α × Outcome α) :=
  category.rules.map fun rule =>
    (rule, category.outcome scoring (category.weight scoring) facts rule)

def Catalog.scored (catalog : Catalog α) (facts : Facts α) : List (Rule α × Outcome α) :=
  catalog.categories.flatMap fun category => category.scored catalog.scoring facts

theorem Catalog.outcomes_eq_scored :
    (catalog.evaluate facts).outcomes = (catalog.scored facts).map Prod.snd := by
  rw [Catalog.evaluate_outcomes, scored, List.map_flatMap]
  simp only [Category.scored, List.map_map]
  rfl

theorem Catalog.recommendations_eq_scored : (catalog.evaluate facts).recommendations =
    (catalog.scored facts).filterMap fun entry => entry.1.recommend? entry.2 := by
  rw [Catalog.evaluate_recommendations, scored, List.filterMap_flatMap]
  simp only [Category.scored, List.filterMap_map]
  rfl

theorem Category.weight_withModes (category : Category α) (scoring : Scoring α) (index : Nat) :
    (category.withModes index checks thresholds).weight scoring = category.weight scoring := by
  apply Category.weight_congr
  apply forall₂_modify
  · intro rule _
    rfl
  · intro rule _
    rfl

theorem Category.scored_withModes (category : Category α) (scoring : Scoring α) (index : Nat) :
    (category.withModes index checks thresholds).scored scoring facts =
      (category.rules.modify index fun rule => rule.withModes checks thresholds).map fun rule =>
        (rule, category.outcome scoring (category.weight scoring) facts rule) := by
  unfold scored
  rw [weight_withModes]
  rfl

/-- Only the replaced rule has another outcome, and that is worth the same. -/
theorem Catalog.scored_withModes (found : catalog.ruleAt? place = some rule) (facts : Facts α)
    (checks : Option (List (Condition α))) (thresholds : Option (Thresholds α)) :
    ∃ front back own own', catalog.scored facts = front ++ (rule, own) :: back ∧
      (catalog.withModes place checks thresholds).scored facts =
        front ++ (rule.withModes checks thresholds, own') :: back ∧
      front.length = catalog.outcomeIndex place ∧ own'.maxPoints = own.maxPoints ∧
      own.status = rule.status facts ∧
      own'.status = (rule.withModes checks thresholds).status facts := by
  obtain ⟨category, there, listed⟩ := Option.bind_eq_some_iff.mp found
  obtain ⟨front, back, categories, replaced, atCategory⟩ := exists_of_getElem? there
    fun category => category.withModes place.rule checks thresholds
  obtain ⟨before, after, rules, replaced', atRule⟩ := exists_of_getElem? listed
    fun rule => rule.withModes checks thresholds
  let outcomeOf := category.outcome catalog.scoring (category.weight catalog.scoring) facts
  let scored (rules : List (Rule α)) := rules.map fun rule => (rule, outcomeOf rule)
  let all (categories : List (Category α)) := categories.flatMap fun category =>
    category.scored catalog.scoring facts
  refine ⟨all front ++ scored before, scored after ++ all back, outcomeOf rule,
    outcomeOf (rule.withModes checks thresholds), ?_, ?_, ?_, rfl, rfl, rfl⟩
  · have parts : catalog.scored facts = all front ++ (scored category.rules ++ all back) := by
      unfold Catalog.scored
      rw [categories, List.flatMap_append, List.flatMap_cons]
      rfl
    rw [parts, rules]
    simp only [scored, List.map_append, List.map_cons, List.append_assoc, List.cons_append]
  · have parts : (catalog.withModes place checks thresholds).scored facts = all front ++
        ((category.withModes place.rule checks thresholds).scored catalog.scoring facts ++
          all back) := by
      unfold Catalog.scored Catalog.withModes
      rw [replaced, List.flatMap_append, List.flatMap_cons]
    rw [parts, Category.scored_withModes, replaced']
    simp only [scored, List.map_append, List.map_cons, List.append_assoc, List.cons_append]
    rfl
  · have earlier : catalog.categories.take place.category = front := by
      rw [categories, ← atCategory, List.take_left]
    unfold outcomeIndex
    rw [earlier, ← atRule, List.length_append, List.length_flatMap, List.length_map]
    simp only [Category.scored, List.length_map]

end Scored

section Evaluations

variable {α : Type}

def missedCount (outcomes : List (Outcome α)) : Nat :=
  outcomes.countP fun outcome => outcome.status ≠ .pass

/-- Two evaluations that differ in nothing but the status of the rule with the outcome at an index and what
follows from it: what it earns, whether and what is recommended for it, and the score of its category. -/
structure Evaluation.SameBut (index category : Nat) (before after : Evaluation α) : Prop where
  outcomes : ∀ k ≠ index, after.outcomes[k]? = before.outcomes[k]?
  maxPoints : after.outcomes.map Outcome.maxPoints = before.outcomes.map Outcome.maxPoints
  recommendations : ∃ front back, ∃ own own' : Option (Recommendation α),
    before.recommendations = front ++ own.toList ++ back ∧
      after.recommendations = front ++ own'.toList ++ back ∧
      front.length = missedCount (before.outcomes.take index) ∧
      back.length = missedCount (before.outcomes.drop (index + 1))
  categoryScores : ∀ k ≠ category, after.categoryScores[k]? = before.categoryScores[k]?

variable [Scalar α] {catalog : Catalog α} {place : RulePlace} {rule : Rule α}

theorem length_recommended (scored : List (Rule α × Outcome α)) :
    (scored.filterMap fun entry => entry.1.recommend? entry.2).length =
      missedCount (scored.map Prod.snd) := by
  unfold missedCount
  rw [List.length_filterMap_eq_countP, List.countP_map]
  simp only [Rule.isSome_recommend?]
  rfl

theorem filterMap_append_cons {β γ : Type} (f : β → Option γ) (front back : List β) (item : β) :
    (front ++ item :: back).filterMap f =
      front.filterMap f ++ (f item).toList ++ back.filterMap f := by
  rw [List.filterMap_append, List.filterMap_cons, List.append_assoc]
  cases f item <;> rfl

theorem Catalog.sameBut_withModes (found : catalog.ruleAt? place = some rule) (facts : Facts α)
    (checks : Option (List (Condition α))) (thresholds : Option (Thresholds α)) :
    Evaluation.SameBut (catalog.outcomeIndex place) place.category (catalog.evaluate facts)
      ((catalog.withModes place checks thresholds).evaluate facts) := by
  obtain ⟨front, back, own, own', before, after, atIndex, worth, _⟩ :=
    scored_withModes found facts checks thresholds
  constructor
  · intro k other
    rw [outcomes_eq_scored, outcomes_eq_scored, before, after, List.map_append, List.map_append,
      List.map_cons, List.map_cons]
    apply getElem?_append_cons_of_ne
    rwa [List.length_map, atIndex]
  · rw [outcomes_eq_scored, outcomes_eq_scored, before, after]
    simp only [List.map_append, List.map_cons, worth]
  · let recommended (scored : List (Rule α × Outcome α)) :=
      scored.filterMap fun entry => entry.1.recommend? entry.2
    refine ⟨recommended front, recommended back, rule.recommend? own,
      (rule.withModes checks thresholds).recommend? own', ?_, ?_, ?_, ?_⟩
    · rw [recommendations_eq_scored, before, filterMap_append_cons]
    · rw [recommendations_eq_scored, after, filterMap_append_cons]
    · rw [outcomes_eq_scored, before, ← List.map_take, ← atIndex, List.take_left]
      exact length_recommended front
    · rw [outcomes_eq_scored, before, ← List.map_drop, ← atIndex, List.drop_length_add_append]
      exact length_recommended back
  · intro k other
    simp only [evaluate_categoryScores, withModes, List.getElem?_map]
    rw [List.getElem?_modify_ne _ _ (Ne.symm other)]

theorem Catalog.status_withModes (found : catalog.ruleAt? place = some rule) (facts : Facts α)
    (checks : Option (List (Condition α))) (thresholds : Option (Thresholds α)) :
    ((catalog.evaluate facts).outcomes[catalog.outcomeIndex place]?).map Outcome.status =
        some (rule.status facts) ∧
      (((catalog.withModes place checks thresholds).evaluate facts).outcomes[
        catalog.outcomeIndex place]?).map Outcome.status =
          some ((rule.withModes checks thresholds).status facts) := by
  obtain ⟨front, back, own, own', before, after, atIndex, _, status, status'⟩ :=
    scored_withModes found facts checks thresholds
  have there (outcome : Rule α × Outcome α) :
      ((front ++ outcome :: back).map Prod.snd)[catalog.outcomeIndex place]? = some outcome.2 := by
    rw [List.getElem?_map, ← atIndex, List.getElem?_append_right (Nat.le_refl _), Nat.sub_self]
    rfl
  constructor
  · rw [outcomes_eq_scored, before, there, ← status]
    rfl
  · rw [outcomes_eq_scored, after, there, ← status']
    rfl

end Evaluations

section Breaking

variable {catalog : Catalog Binary64} {facts : Facts Binary64} {place : RulePlace}
  {rule broken : Rule Binary64} {checks : Option (List (Condition Binary64))}
  {thresholds : Option (Thresholds Binary64)}

/-- A rule in which some conditions were broken, each by an operator that nobody knows or by a value that its
operator has no use for. -/
def Rule.BrokenFrom (broken whole : Rule Binary64) : Prop :=
  broken.Related (fun c d => c = d ∨ c.Dead) whole

theorem Rule.BrokenFrom.status_le (breaks : broken.BrokenFrom rule) (facts : Facts Binary64) :
    (broken.status facts).grade ≤ (rule.status facts).grade := by
  apply Rule.Related.status_le breaks
  rintro c d (rfl | dead) held
  · exact held
  · rw [dead.not_holds facts] at held
    cases held

theorem Catalog.noBetter_withModes (found : catalog.ruleAt? place = some rule)
    (worse : ((rule.withModes checks thresholds).status facts).grade ≤ (rule.status facts).grade) :
    List.Forall₂ (Category.NoBetter facts facts)
      (catalog.withModes place checks thresholds).categories catalog.categories := by
  obtain ⟨category, there, listed⟩ := Option.bind_eq_some_iff.mp found
  apply forall₂_modify
  · intro other _
    exact Category.noBetter_self fun _ _ => Nat.le_refl _
  · intro other there'
    obtain rfl : category = other := Option.some.inj (there.symm.trans there')
    refine ⟨rfl, forall₂_modify ?_ ?_⟩
    · intro other _
      exact ⟨rfl, Nat.le_refl _⟩
    · intro other listed'
      obtain rfl : rule = other := Option.some.inj (listed.symm.trans listed')
      exact ⟨rfl, worse⟩

/-- Whatever the conditions of a rule are replaced by, no other rule and no other category notices; and when
they are only broken, the rule turns out no better, and a page that an accepted catalog scores no higher. -/
theorem Catalog.evaluate_withModes (catalog : Catalog Binary64) (facts : Facts Binary64)
    (place : RulePlace) (rule : Rule Binary64) (found : catalog.ruleAt? place = some rule)
    (checks : Option (List (Condition Binary64))) (thresholds : Option (Thresholds Binary64)) :
    let before := catalog.evaluate facts
    let after := (catalog.withModes place checks thresholds).evaluate facts
    let index := catalog.outcomeIndex place
    Evaluation.SameBut index place.category before after ∧
      (before.outcomes[index]?).map Outcome.status = some (rule.status facts) ∧
      (after.outcomes[index]?).map Outcome.status =
        some ((rule.withModes checks thresholds).status facts) ∧
      ((rule.withModes checks thresholds).BrokenFrom rule →
        ((rule.withModes checks thresholds).status facts).grade ≤ (rule.status facts).grade ∧
          (catalog.problems = [] → after.healthScore ≤ before.healthScore)) := by
  intro before after index
  obtain ⟨status, status'⟩ := status_withModes found facts checks thresholds
  refine ⟨sameBut_withModes found facts checks thresholds, status, status', ?_⟩
  intro breaks
  have worse := breaks.status_le facts
  refine ⟨worse, ?_⟩
  intro accepted
  exact (Catalog.sound_of_problems_eq_nil accepted).healthScore_le rfl
    (Catalog.noBetter_withModes found worse)

theorem Catalog.evaluate_withModes_standard :
    let page : Facts Binary64 := Facts.empty.insert "title.length" (.number (ofNat 40))
    let misspelled : Thresholds Binary64 :=
      ⟨⟨"title.length", "within", .range (ofNat 30) (ofNat 65)⟩,
        some ⟨"title.length", "between", .range (ofNat 10) (ofNat 80)⟩⟩
    let before := standard.evaluate page
    let after := (standard.withModes ⟨0, 0⟩ none (some misspelled)).evaluate page
    Evaluation.SameBut 0 0 before after ∧ after.healthScore ≤ before.healthScore ∧
      (before.outcomes[0]?).map Outcome.status = some .pass ∧
      (after.outcomes[0]?).map Outcome.status = some .warning := by
  intro page misspelled before after
  obtain ⟨rule, found, passes, warns⟩ : ∃ rule : Rule Binary64,
      standard.ruleAt? ⟨0, 0⟩ = some rule ∧ rule.status page = .pass ∧
        (rule.withModes none (some misspelled)).status page = .warning :=
    ⟨_, rfl, by decide +kernel, by decide +kernel⟩
  obtain ⟨sameBut, status, status', worse⟩ :=
    evaluate_withModes standard page ⟨0, 0⟩ rule found none (some misspelled)
  have breaks : (rule.withModes none (some misspelled)).BrokenFrom rule := by
    obtain rfl := Option.some.inj found
    refine ⟨.none, .some ⟨.inr ?_, .some (.inl rfl)⟩⟩
    intro op known
    cases known
  refine ⟨sameBut, (worse breaks).2 standard_problems, ?_, ?_⟩
  · rw [← passes]
    exact status
  · rw [← warns]
    exact status'

end Breaking

end PageHealth
