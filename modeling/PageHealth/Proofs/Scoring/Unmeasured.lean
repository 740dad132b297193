import PageHealth.Proofs.Scoring.Agreement
import PageHealth.Proofs.Scoring.Conditions
import PageHealth.Proofs.Scoring.Monotone

namespace PageHealth

namespace Binary64

variable {x y : Binary64}

/-- A number that is worth nothing: a zero, or none at all. -/
def Void (x : Binary64) : Prop := x = .nan ∨ ∃ negative, x = zero negative

theorem HasRank.void (h : HasRank x 0) : x.Void := by
  rcases h.cases with ⟨small, rfl⟩ | ⟨rfl, _⟩
  · exact .inr ⟨false, rfl⟩
  · exact .inr ⟨true, rfl⟩

theorem hasRank_signedZero (negative : Bool) : HasRank (zero negative) 0 := by
  cases negative <;> rfl

theorem Void.add (hx : x.Void) (hy : y.Void) : (x + y).Void := by
  rcases hx with rfl | ⟨s, rfl⟩
  · exact .inl rfl
  · rcases hy with rfl | ⟨t, rfl⟩
    · exact .inl rfl
    · have sum := (hasRank_signedZero s).add (hasRank_signedZero t)
      rw [units_zero, Nat.add_zero, roundedRank_zero Nat.one_pos] at sum
      exact sum.void

/-- Times infinity it is no number, and times anything else a zero. -/
theorem Void.mul (hx : x.Void) (y : Binary64) : (x * y).Void := by
  rcases hx with rfl | ⟨s, rfl⟩
  · exact .inl rfl
  · cases y with
    | nan => exact .inl rfl
    | signed t b =>
      change (Binary64.mul (.signed s 0) (.signed t b)).Void
      simp only [Binary64.mul, true_or, if_true, Fin.val_zero, units_zero, Nat.zero_mul]
      split_ifs
      · exact .inl rfl
      · exact (hasRank_round_zero _ unitsPerOne_pos).void

theorem Void.div (hx : x.Void) (y : Binary64) : (x / y).Void := by
  rcases hx with rfl | ⟨s, rfl⟩
  · exact .inl rfl
  · cases y with
    | nan => exact .inl rfl
    | signed t b =>
      change (Binary64.div (.signed s 0) (.signed t b)).Void
      simp only [Binary64.div, if_true, Fin.val_zero, units_zero, Nat.zero_mul]
      rw [if_neg infiniteRank_ne_zero.symm]
      split_ifs with infinite none
      · exact .inr ⟨_, rfl⟩
      · exact .inl rfl
      · have steps : 0 < units b := by
          apply units_pos_iff.mpr
          apply Nat.pos_of_ne_zero
          intro least
          exact none (Fin.ext least)
        exact (hasRank_round_zero _ steps).void

theorem Void.nearestNat_eq (hx : x.Void) : x.nearestNat = 0 := by
  rcases hx with rfl | ⟨s, rfl⟩
  · rfl
  · have finite : 0 < infiniteRank := Nat.pos_of_ne_zero infiniteRank_ne_zero
    rw [(hasRank_signedZero s).nearestNat_eq finite, units_zero, Nat.mul_zero, Nat.zero_add]
    apply Nat.div_eq_of_lt
    have := unitsPerOne_pos
    omega

theorem void_sum {xs : List Binary64} (each : ∀ x ∈ xs, x.Void) : (Scalar.sum xs).Void := by
  have run (start : Binary64) (none : start.Void) : (xs.foldl (· + ·) start).Void := by
    induction xs generalizing start with
    | nil => exact none
    | cons x rest ih =>
      rw [List.forall_mem_cons] at each
      exact ih each.2 (start + x) (none.add each.1)
  exact run 0 hasRank_zero.void

theorem void_clampUnit (notPositive : x ≤ 0) : (Scalar.clampUnit x).Void := by
  have lowest : HasRank (if x < 0 then 0 else x) 0 := by
    split_ifs with negative
    · exact hasRank_zero
    · obtain ⟨i, j, hi, hj, ordered⟩ := le_iff_place.mp notPositive
      obtain rfl : j = 0 := Option.some.inj (hj.symm.trans hasRank_zero)
      have notBelow : ¬ i < 0 := fun less => negative (lt_iff_place.mpr ⟨i, 0, hi, hj, less⟩)
      obtain rfl : i = 0 := Int.le_antisymm ordered (Int.not_lt.mp notBelow)
      exact hi
  have notAbove : ¬ 1 < (if x < 0 then 0 else x) :=
    mt (hasRank_one.lt_iff lowest).mp (Nat.not_lt_zero _)
  change (if 1 < (if x < 0 then 0 else x) then 1 else if x < 0 then 0 else x : Binary64).Void
  rw [if_neg notAbove]
  exact lowest.void

end Binary64

section Statuses

variable {α : Type} [Scalar α] {rule : Rule α} {facts : Facts α}

theorem Rule.status_eq_fail (none : ∀ placed ∈ rule.conditions, placed.2.holds facts = false) :
    rule.status facts = .fail := by
  obtain ⟨checked, graded⟩ :=
    (Rule.forall_conditions (P := fun c => c.holds facts = false)).mp none
  unfold status
  cases mode : rule.thresholds with
  | some thresholds =>
    obtain ⟨pass, warning⟩ := graded thresholds mode
    have unwarned : (thresholds.warning.any fun c => c.holds facts) = false := by
      cases same : thresholds.warning with
      | none => rfl
      | some condition => exact warning condition same
    simp only [pass, unwarned, Bool.false_eq_true, if_false]
  | none =>
    cases mode' : rule.checks with
    | none => rfl
    | some checks =>
      cases checks with
      | nil => rfl
      | cons first others =>
        have unmet := checked (first :: others) mode' first List.mem_cons_self
        simp only [List.all_cons, unmet, Bool.false_and, Bool.and_false, Bool.false_eq_true, if_false]

end Statuses

section Points

variable {scoring : Scoring Binary64} {category : Category Binary64} {facts : Facts Binary64}

theorem wholePoints_of_void {x : Binary64} (hx : x.Void) : wholePoints x = 0 := by
  change min x.nearestNat _ = 0
  rw [hx.nearestNat_eq, Nat.zero_min]

theorem percentage_of_void {x : Binary64} (hx : x.Void) (whole : Binary64) :
    percentage x whole = 0 :=
  wholePoints_of_void ((hx.div whole).mul _)

theorem Category.points_void (failed : ∀ rule ∈ category.rules, rule.status facts = .fail)
    (unpaid : scoring.statusScores.fail ≤ 0) : (category.evaluate scoring facts).points.Void := by
  apply Binary64.void_sum
  intro x earned
  obtain ⟨outcome, listed, rfl⟩ := List.mem_map.mp earned
  obtain ⟨rule, member, rfl⟩ := List.mem_map.mp listed
  have share : (Scalar.clampUnit (scoring.statusScores.share (rule.status facts))).Void := by
    rw [failed rule member]
    exact Binary64.void_clampUnit unpaid
  change (_ * Scalar.clampUnit (scoring.statusScores.share (rule.status facts)) : Binary64).Void
  rw [Binary64.mul_comm]
  exact share.mul _

theorem Category.score_of_void (none : (category.evaluate scoring facts).points.Void) :
    (category.evaluate scoring facts).score.score = 0 ∧
      (category.evaluate scoring facts).score.percentage = 0 := by
  constructor
  · exact wholePoints_of_void none
  · by_cases absent : category.maxPoints = 0
    · exact Category.evaluate_percentage_zero absent scoring facts
    · rw [Category.evaluate_percentage absent]
      exact percentage_of_void none _

theorem healthScore_of_void {points : List Binary64} (each : ∀ x ∈ points, x.Void)
    (maxPoints : List Binary64) : healthScore points maxPoints = 0 := by
  unfold healthScore
  simp only [percentage_of_void (Binary64.void_sum each), Nat.zero_min, ite_self]

end Points

section Catalogs

/-- Nothing stands at a path that a condition could compare with. -/
def Facts.Unmeasured (facts : Facts Binary64) (path : String) : Prop :=
  ∀ fact, facts.lookup path = some fact →
    fact = .null ∨ (∃ items, fact = .list items) ∨ ∃ members, fact = .map members

theorem Facts.unmeasured_iff {facts : Facts Binary64} {path : String} :
    facts.Unmeasured path ↔ facts.reading? path = none := by
  unfold Unmeasured reading?
  cases facts.lookup path with
  | none => simp
  | some fact => cases fact <;> simp [Fact.reading?]

instance (facts : Facts Binary64) (path : String) : Decidable (facts.Unmeasured path) :=
  decidable_of_iff _ Facts.unmeasured_iff.symm

structure Evaluation.FailsAll (catalog : Catalog Binary64) (evaluation : Evaluation Binary64) : Prop where
  outcomes : (evaluation.outcomes.map fun outcome => (outcome.category, outcome.id, outcome.status)) =
    catalog.entries.map fun entry => (entry.1.id, entry.2.id, .fail)
  recommendations : List.Forall₂ (fun pair => Recommendation.IsOf pair.1 pair.2)
    (catalog.entries.zip evaluation.outcomes) evaluation.recommendations
  summary : evaluation.summary = ⟨0, 0, catalog.ruleCount⟩

variable {catalog : Catalog Binary64} {facts : Facts Binary64}

theorem Catalog.status_eq_fail
    (unmeasured : ∀ placed ∈ catalog.conditions, facts.Unmeasured placed.2.field) :
    ∀ category ∈ catalog.categories, ∀ rule ∈ category.rules, rule.status facts = .fail := by
  have unmet : ∀ placed ∈ catalog.conditions, placed.2.holds facts = false := by
    intro placed listed
    apply Condition.not_holds_of_reading?_eq_none
    exact Facts.unmeasured_iff.mp (unmeasured placed listed)
  intro category listed rule member
  apply Rule.status_eq_fail
  exact Catalog.forall_conditions (P := fun c => c.holds facts = false).mp unmet category listed rule member

theorem Catalog.failsAll
    (failed : ∀ category ∈ catalog.categories, ∀ rule ∈ category.rules, rule.status facts = .fail) :
    (catalog.evaluate facts).FailsAll catalog := by
  have each : ∀ entry ∈ catalog.entries, entry.2.status facts = .fail := by
    intro entry listed
    obtain ⟨category, member, within⟩ := List.mem_flatMap.mp listed
    obtain ⟨rule, member', rfl⟩ := List.mem_map.mp within
    exact failed category member rule member'
  constructor
  · rw [catalog.outcomes_eq_map, List.map_map]
    apply List.map_congr_left
    intro entry listed
    exact congrArg (fun status => (entry.1.id, entry.2.id, status)) (each entry listed)
  · have recommended := @forall₂_recommendations catalog facts catalog.entries
    rw [← catalog.outcomes_eq_map, ← catalog.recommendations_eq_filterMap] at recommended
    rwa [List.filter_eq_self.mpr] at recommended
    intro pair listed
    have entry : pair.1 ∈ catalog.entries := (List.of_mem_zip listed).1
    simp [each pair.1 entry]
  · have statuses : (catalog.evaluate facts).outcomes.map Outcome.status =
        List.replicate catalog.ruleCount .fail := by
      rw [catalog.outcomes_eq_map, List.map_map, ← catalog.length_entries]
      exact List.map_eq_replicate_iff.mpr each
    change Summary.ofStatuses ((catalog.evaluate facts).outcomes.map Outcome.status) = _
    rw [statuses]
    simp [Summary.ofStatuses, List.count_replicate]

/-- On a page of which nothing is known that a condition could compare with, all rules fail; and when failing
earns no share, nothing is scored, whatever the weights are. -/
theorem Catalog.evaluate_unmeasured (catalog : Catalog Binary64) (facts : Facts Binary64)
    (unmeasured : ∀ placed ∈ catalog.conditions, facts.Unmeasured placed.2.field) :
    (∀ category ∈ catalog.categories, ∀ rule ∈ category.rules, rule.status facts = .fail) ∧
      (catalog.evaluate facts).FailsAll catalog ∧
      (catalog.scoring.statusScores.fail ≤ 0 →
        (catalog.evaluate facts).healthScore = 0 ∧
          ((catalog.evaluate facts).categoryScores.map fun score => (score.score, score.percentage)) =
            catalog.categories.map fun _ => (0, 0)) := by
  have failed := Catalog.status_eq_fail unmeasured
  refine ⟨failed, Catalog.failsAll failed, ?_⟩
  intro unpaid
  have none : ∀ category ∈ catalog.categories,
      (category.evaluate catalog.scoring facts).points.Void := by
    intro category listed
    exact category.points_void (failed category listed) unpaid
  constructor
  · apply healthScore_of_void
    simp only [List.forall_mem_map]
    exact none
  · rw [catalog.evaluate_categoryScores, List.map_map]
    apply List.map_congr_left
    intro category listed
    obtain ⟨score, percentage⟩ := Category.score_of_void (none category listed)
    exact Prod.ext score percentage

/-- Weights that are no numbers or infinite, a failure that costs, and one rule of every kind: with thresholds
besides checks, with an empty list of checks, and without either. -/
def Catalog.degenerate : Catalog Binary64 where
  version := ""
  engine := ""
  scoring := ⟨⟨.infinity false, .nan, .ofInt (-1)⟩, ⟨.nan, .ofNat 2, .infinity true⟩⟩
  categories :=
    [⟨"c", "C", 10,
      [⟨"both", .high, "", "", some [⟨"a", "equals", .bool true⟩],
          some ⟨⟨"b", "outside", .range (.ofNat 1) (.ofNat 0)⟩, some ⟨"a.b", "gt", .number .nan⟩⟩⟩,
        ⟨"empty", .medium, "", "", some [], none⟩, ⟨"neither", .low, "", "", none, none⟩]⟩]

def Facts.ofNothing : Facts Binary64 := .mk [("a", .map [("b", .null)]), ("b", .list [.bool true])]

theorem Catalog.evaluate_unmeasured_degenerate :
    let evaluation := degenerate.evaluate Facts.ofNothing
    evaluation.summary = ⟨0, 0, 3⟩ ∧ evaluation.healthScore = 0 ∧
      evaluation.categoryScores.map (fun score => (score.score, score.percentage)) = [(0, 0)] := by
  intro evaluation
  obtain ⟨_, fails, unscored⟩ := evaluate_unmeasured degenerate Facts.ofNothing (by decide +kernel)
  exact ⟨fails.summary, unscored (by decide +kernel)⟩

end Catalogs

end PageHealth
