import PageHealth.Catalog.Places

namespace PageHealth

theorem forall_mem_zipIdx {α : Type} {items : List α} {P : α → Prop} :
    (∀ placed ∈ items.zipIdx, P placed.1) ↔ ∀ item ∈ items, P item := by
  rw [← List.forall_mem_map, List.zipIdx_map_fst]

variable {α : Type} {P : Condition α → Prop}

theorem Thresholds.forall_conditions {thresholds : Thresholds α} :
    (∀ placed ∈ thresholds.conditions, P placed.2) ↔
      P thresholds.pass ∧ ∀ condition ∈ thresholds.warning, P condition := by
  cases same : thresholds.warning <;> simp [conditions, same]

theorem Rule.forall_conditions {rule : Rule α} :
    (∀ placed ∈ rule.conditions, P placed.2) ↔
      (∀ checks ∈ rule.checks, ∀ condition ∈ checks, P condition) ∧
        ∀ thresholds ∈ rule.thresholds,
          P thresholds.pass ∧ ∀ condition ∈ thresholds.warning, P condition := by
  unfold conditions
  rw [List.forall_mem_append, List.forall_mem_map]
  refine and_congr ?_ ?_
  · rw [forall_mem_zipIdx (P := P)]
    cases rule.checks <;> simp
  · cases rule.thresholds with
    | none => simp
    | some thresholds => simpa using Thresholds.forall_conditions

theorem Catalog.forall_conditions {catalog : Catalog α} :
    (∀ placed ∈ catalog.conditions, P placed.2) ↔
      ∀ category ∈ catalog.categories, ∀ rule ∈ category.rules,
        ∀ placed ∈ rule.conditions, P placed.2 := by
  unfold conditions placedRules
  simp only [List.forall_mem_flatMap, List.forall_mem_map]
  rw [← forall_mem_zipIdx (P := fun category : Category α => ∀ rule ∈ category.rules,
    ∀ placed ∈ rule.conditions, P placed.2)]
  refine forall₂_congr fun category _ => ?_
  exact forall_mem_zipIdx (P := fun rule : Rule α => ∀ placed ∈ rule.conditions, P placed.2)

theorem Catalog.forall_conditions_of_category {catalog : Catalog α} {category : Category α} {i : Nat}
    (found : catalog.categories[i]? = some category) :
    (∀ placed ∈ catalog.conditions, placed.1.rule.category = i → P placed.2) ↔
      ∀ rule ∈ category.rules, ∀ placed ∈ rule.conditions, P placed.2 := by
  unfold conditions placedRules
  simp only [List.forall_mem_flatMap, List.forall_mem_map]
  rw [← forall_mem_zipIdx (P := fun rule : Rule α => ∀ placed ∈ rule.conditions, P placed.2)]
  constructor
  · intro listed rule member placed within
    exact listed (category, i) (List.mem_zipIdx_iff_getElem?.mpr found) rule member placed within rfl
  · rintro within ⟨other, j⟩ listed rule member placed inside rfl
    obtain rfl : other = category :=
      Option.some.inj ((List.mem_zipIdx_iff_getElem?.mp listed).symm.trans found)
    exact within rule member placed inside

section Following

variable {condition : Condition α}

def Rule.conditionAt? (rule : Rule α) : Slot → Option (Condition α)
  | .check index => rule.checks.bind fun checks => checks[index]?
  | .pass => rule.thresholds.map Thresholds.pass
  | .warning => rule.thresholds.bind Thresholds.warning

def Catalog.ruleAt? (catalog : Catalog α) (place : RulePlace) : Option (Rule α) :=
  catalog.categories[place.category]?.bind fun category => category.rules[place.rule]?

def Catalog.conditionAt? (catalog : Catalog α) (place : ConditionPlace) : Option (Condition α) :=
  (catalog.ruleAt? place.rule).bind fun rule => rule.conditionAt? place.slot

theorem Rule.mem_conditions_iff {rule : Rule α} {slot : Slot} :
    (slot, condition) ∈ rule.conditions ↔ rule.conditionAt? slot = some condition := by
  obtain ⟨id, severity, message, recommendation, checks, thresholds⟩ := rule
  have listed : (slot, condition) ∈
      ((checks.getD []).zipIdx.map fun entry => (Slot.check entry.2, entry.1)) ↔
        ∃ k, slot = .check k ∧ (checks.getD [])[k]? = some condition := by
    simp only [List.mem_map, Prod.exists, List.mem_zipIdx_iff_getElem?, Prod.mk.injEq]
    constructor
    · rintro ⟨_, k, found, rfl, rfl⟩
      exact ⟨k, rfl, found⟩
    · rintro ⟨k, rfl, found⟩
      exact ⟨condition, k, found, rfl, rfl⟩
  unfold conditions
  refine (List.mem_append.trans (or_congr_left listed)).trans ?_
  cases slot with
  | check k => cases checks <;> cases thresholds <;> simp [conditionAt?, Thresholds.conditions]
  | pass => cases thresholds <;> simp [conditionAt?, Thresholds.conditions, eq_comm]
  | warning => cases thresholds <;> simp [conditionAt?, Thresholds.conditions]

theorem Catalog.mem_placedRules_iff {catalog : Catalog α} {place : RulePlace} {rule : Rule α} :
    (place, rule) ∈ catalog.placedRules ↔ catalog.ruleAt? place = some rule := by
  unfold placedRules ruleAt?
  simp only [List.mem_flatMap, List.mem_map, Prod.exists, List.mem_zipIdx_iff_getElem?,
    Prod.mk.injEq, Option.bind_eq_some_iff]
  constructor
  · rintro ⟨category, i, there, _, j, found, rfl, rfl⟩
    exact ⟨category, there, found⟩
  · rintro ⟨category, there, found⟩
    exact ⟨category, place.category, there, rule, place.rule, found, rfl, rfl⟩

theorem Catalog.mem_conditions_iff {catalog : Catalog α} {place : ConditionPlace} :
    (place, condition) ∈ catalog.conditions ↔ catalog.conditionAt? place = some condition := by
  unfold conditions conditionAt?
  simp only [List.mem_flatMap, List.mem_map, Prod.exists, Prod.mk.injEq, Option.bind_eq_some_iff,
    mem_placedRules_iff, Rule.mem_conditions_iff]
  constructor
  · rintro ⟨_, rule, there, slot, _, found, rfl, rfl⟩
    exact ⟨rule, there, found⟩
  · rintro ⟨rule, there, found⟩
    exact ⟨place.rule, rule, there, place.slot, condition, found, rfl, rfl⟩

end Following

end PageHealth
