import PageHealth.Proofs.Catalog.PlaceText
import PageHealth.Proofs.Catalog.Places
import PageHealth.Proofs.Catalog.WellFormed

/-! Which faults of a catalog are reported. Nothing hides a fault but a rule with both modes, and of
such a rule everything is reported except what is wrong within its modes. -/
namespace PageHealth

variable {α : Type} {problem : Problem α}

section Walks

variable {β ι : Type} (walk : Nat → List String → List ι → List β) (id : ι → String)
  (found : Nat → List String → ι → List β)

/-- A walk that remembers the ids it has seen finds what it finds at some element, after the ids of the
elements before it. -/
theorem mem_walk_iff (nil : ∀ index earlier, walk index earlier [] = [])
    (cons : ∀ index earlier item rest, walk index earlier (item :: rest) =
      found index earlier item ++ walk (index + 1) (id item :: earlier) rest)
    {index : Nat} {earlier : List String} {items : List ι} {b : β} :
    b ∈ walk index earlier items ↔ ∃ j item, items[j]? = some item ∧
      b ∈ found (index + j) (((items.map id).take j).reverse ++ earlier) item := by
  induction items generalizing index earlier with
  | nil => simp [nil]
  | cons first rest ih =>
    rw [cons, List.mem_append, ih]
    constructor
    · rintro (here | ⟨j, item, there, later⟩)
      · exact ⟨0, first, rfl, by simpa using here⟩
      · exact ⟨j + 1, item, there, by simpa [Nat.add_assoc, Nat.add_comm 1] using later⟩
    · rintro ⟨_ | j, item, there, within⟩
      · cases there
        exact .inl (by simpa using within)
      · exact .inr ⟨j, item, there, by simpa [Nat.add_assoc, Nat.add_comm 1] using within⟩

end Walks

section Ids

variable {blank repeated : Problem α} {earlier : List String} {id : String}

def idProblems (blank repeated : Problem α) (earlier : List String) (id : String) : List (Problem α) :=
  if isBlankText id then [blank] else if earlier.contains id then [repeated] else []

theorem eq_or_eq_of_mem_idProblems (found : problem ∈ idProblems blank repeated earlier id) :
    problem = blank ∨ problem = repeated := by
  unfold idProblems at found
  split_ifs at found
  · exact .inl (List.mem_singleton.mp found)
  · exact .inr (List.mem_singleton.mp found)
  · cases found

theorem repeated_mem_idProblems (shown : isBlankText id = false) (seen : id ∈ earlier) :
    repeated ∈ idProblems blank repeated earlier id := by
  simp [idProblems, shown, seen]

theorem mem_take_map {ι : Type} {items : List ι} {name : ι → String} {i j : Nat} {item : ι}
    (before : i < j) (there : items[i]? = some item) :
    name item ∈ ((items.map name).take j).reverse := by
  have early : ((items.map name).take j)[i]? = some (name item) := by
    rw [List.getElem?_take_of_lt before, List.getElem?_map, there, Option.map_some]
  rw [List.mem_reverse]
  exact List.mem_of_getElem? early

end Ids

section Modes

variable {place : RulePlace} {rule : Rule α}

def Problem.rulePlace? : Problem α → Option RulePlace
  | blankRuleId place | repeatedRuleId place _ _ | noMode place _ | bothModes place _
  | noChecks place => some place
  | blankField place | emptySegment place _ => some place.rule
  | _ => none

def Problem.isWithinMode : Problem α → Bool
  | noChecks _ | blankField _ | emptySegment _ _ => true
  | _ => false

def Rule.HasBothModes (rule : Rule α) : Prop :=
  rule.checks.isSome = true ∧ rule.thresholds.isSome = true

def Condition.HasBadField (condition : Condition α) : Prop :=
  isBlankText condition.field = true ∨ hasEmptySegment condition.field = true

theorem Condition.rulePlace?_of_mem_problems {slot : Slot} {condition : Condition α}
    (found : problem ∈ condition.problems ⟨place, slot⟩) : problem.rulePlace? = some place := by
  unfold problems at found
  split_ifs at found
  · cases List.mem_singleton.mp found
    rfl
  · cases List.mem_singleton.mp found
    rfl
  · cases found

theorem Rule.rulePlace?_of_mem_modeProblems (found : problem ∈ rule.modeProblems place) :
    problem.rulePlace? = some place := by
  unfold modeProblems at found
  split at found
  · cases List.mem_singleton.mp found
    rfl
  · cases List.mem_singleton.mp found
    rfl
  · cases List.mem_singleton.mp found
    rfl
  · obtain ⟨⟨slot, condition⟩, _, within⟩ := List.mem_flatMap.mp found
    exact Condition.rulePlace?_of_mem_problems within

theorem Rule.modeProblems_of_hasBothModes (both : rule.HasBothModes) :
    rule.modeProblems place = [.bothModes place rule.id] := by
  obtain ⟨checks, hasChecks⟩ := Option.isSome_iff_exists.mp both.1
  obtain ⟨thresholds, hasThresholds⟩ := Option.isSome_iff_exists.mp both.2
  simp only [modeProblems, hasChecks, hasThresholds]

theorem Rule.mem_modeProblems_of_mem_conditions {slot : Slot} {condition : Condition α}
    (single : ¬ rule.HasBothModes) (listed : (slot, condition) ∈ rule.conditions)
    (found : problem ∈ condition.problems ⟨place, slot⟩) : problem ∈ rule.modeProblems place := by
  have looked : problem ∈ rule.conditions.flatMap fun entry => entry.2.problems ⟨place, entry.1⟩ :=
    List.mem_flatMap.mpr ⟨(slot, condition), listed, found⟩
  unfold modeProblems
  split
  · rename_i noChecks noThresholds
    simp [conditions, noChecks, noThresholds] at listed
  · rename_i hasChecks hasThresholds
    exact absurd ⟨by simp [hasChecks], by simp [hasThresholds]⟩ single
  · rename_i hasChecks noThresholds
    simp [conditions, hasChecks, noThresholds] at listed
  · exact looked

/-- The problems of the rule at a place, with its id among those of its category. -/
def Category.problemsAt (category : Category α) (place : RulePlace) (rule : Rule α) :
    List (Problem α) :=
  idProblems (.blankRuleId place) (.repeatedRuleId place rule.id category.id)
    ((category.rules.map Rule.id).take place.rule).reverse rule.id ++ rule.modeProblems place

theorem Category.rulePlace?_of_mem_problemsAt {category : Category α}
    (found : problem ∈ category.problemsAt place rule) : problem.rulePlace? = some place := by
  rcases List.mem_append.mp found with ofId | ofMode
  · obtain rfl | rfl := eq_or_eq_of_mem_idProblems ofId
    · rfl
    · rfl
  · exact Rule.rulePlace?_of_mem_modeProblems ofMode

end Modes

section Places

variable {place : RulePlace} {category : Category α}

theorem mem_ruleProblems_iff {i : Nat} :
    problem ∈ ruleProblems i category.id 0 [] category.rules ↔
      ∃ j rule, category.rules[j]? = some rule ∧ problem ∈ category.problemsAt ⟨i, j⟩ rule := by
  rw [mem_walk_iff (ruleProblems i category.id) Rule.id
    (fun index earlier rule =>
      idProblems (.blankRuleId ⟨i, index⟩) (.repeatedRuleId ⟨i, index⟩ rule.id category.id)
        earlier rule.id ++ rule.modeProblems ⟨i, index⟩)
    (fun _ _ => rfl) (fun _ _ _ _ => rfl)]
  simp only [List.append_nil, Nat.zero_add, Category.problemsAt]

theorem Catalog.rulePlace?_of_mem_budgetProblems {catalog : Catalog α}
    (found : problem ∈ catalog.budgetProblems) : problem.rulePlace? = none := by
  unfold budgetProblems at found
  split_ifs at found
  · cases List.mem_singleton.mp found
    rfl
  · cases List.mem_singleton.mp found
    rfl
  · cases found

variable [Scalar α] {scoring : Scoring α} {catalog : Catalog α}

theorem mem_categoryProblems_iff {categories : List (Category α)} :
    problem ∈ categoryProblems scoring 0 [] categories ↔
      ∃ i category, categories[i]? = some category ∧
        problem ∈ idProblems (.blankCategoryId i) (.repeatedCategoryId i category.id)
          ((categories.map Category.id).take i).reverse category.id ++
            category.rulesProblems scoring i := by
  rw [mem_walk_iff (categoryProblems scoring) Category.id
    (fun index earlier category =>
      idProblems (.blankCategoryId index) (.repeatedCategoryId index category.id) earlier
        category.id ++ category.rulesProblems scoring index)
    (fun _ _ => rfl) (fun _ _ _ _ => rfl)]
  simp only [List.append_nil, Nat.zero_add]

theorem Category.mem_rulesProblems_iff {i : Nat} (about : problem.rulePlace? = some place) :
    problem ∈ category.rulesProblems scoring i ↔
      problem ∈ ruleProblems i category.id 0 [] category.rules := by
  unfold rulesProblems
  split
  · rename_i none
    rw [List.isEmpty_iff.mp none]
    refine iff_of_false (fun found => ?_) (List.not_mem_nil)
    cases List.mem_singleton.mp found
    cases about
  · rw [List.mem_append, or_iff_right]
    intro found
    cases List.mem_singleton.mp (List.mem_ite_nil_right.mp found).2
    cases about

theorem SeverityWeights.rulePlace?_of_mem_problems {weights : SeverityWeights α}
    (found : problem ∈ weights.problems) : problem.rulePlace? = none := by
  obtain ⟨severity, _, bad⟩ := List.mem_filterMap.mp found
  dsimp only at bad
  split_ifs at bad
  cases bad
  rfl

theorem StatusScores.rulePlace?_of_mem_problems {scores : StatusScores α}
    (found : problem ∈ scores.problems) : problem.rulePlace? = none := by
  simp only [problems, List.mem_append] at found
  rcases found with (share | inverted) | inverted
  · obtain ⟨status, _, bad⟩ := List.mem_filterMap.mp share
    split_ifs at bad
    cases bad
    rfl
  · cases List.mem_singleton.mp (List.mem_ite_nil_right.mp inverted).2
    rfl
  · cases List.mem_singleton.mp (List.mem_ite_nil_right.mp inverted).2
    rfl

/-- What is reported about the rule at a place depends on its category alone. -/
theorem Catalog.mem_problems_iff (about : problem.rulePlace? = some place) :
    problem ∈ catalog.problems ↔ ∃ category rule, catalog.categories[place.category]? = some category ∧
      category.rules[place.rule]? = some rule ∧ problem ∈ category.problemsAt place rule := by
  have elsewhere {problems : List (Problem α)}
      (none : ∀ other ∈ problems, other.rulePlace? = none) : problem ∉ problems := by
    intro found
    rw [none problem found] at about
    cases about
  have version : problem ∉ if isBlankText catalog.version then [Problem.blankVersion] else [] := by
    refine elsewhere fun other found => ?_
    cases List.mem_singleton.mp (List.mem_ite_nil_right.mp found).2
    rfl
  unfold problems
  simp only [List.mem_append, version, false_or,
    elsewhere fun _ => SeverityWeights.rulePlace?_of_mem_problems,
    elsewhere fun _ => StatusScores.rulePlace?_of_mem_problems,
    elsewhere fun _ => Catalog.rulePlace?_of_mem_budgetProblems]
  rw [mem_categoryProblems_iff]
  constructor
  · rintro ⟨i, category, there, found⟩
    rcases List.mem_append.mp found with ofId | ofRules
    · obtain rfl | rfl := eq_or_eq_of_mem_idProblems ofId
      · cases about
      · cases about
    · obtain ⟨j, rule, listed, within⟩ :=
        mem_ruleProblems_iff.mp ((Category.mem_rulesProblems_iff about).mp ofRules)
      cases about.symm.trans (Category.rulePlace?_of_mem_problemsAt within)
      exact ⟨category, rule, there, listed, within⟩
  · rintro ⟨category, rule, there, listed, within⟩
    refine ⟨place.category, category, there, List.mem_append_right _ ?_⟩
    exact (Category.mem_rulesProblems_iff about).mpr
      (mem_ruleProblems_iff.mpr ⟨place.rule, rule, listed, within⟩)

end Places

section Messages

variable {problem : Problem Binary64} {rest : List Char}

theorem Problem.rulePlace?_of_message {place : RulePlace}
    (same : problem.message.toList = place.text.toList ++ rest) : problem.rulePlace? = some place := by
  cases problem <;> unfold message at same
  case blankRuleId | repeatedRuleId | noMode | bothModes | noChecks =>
    simp only [String.toList_append, List.append_assoc] at same
    rw [← (RulePlace.text_append_inj same).1]
    rfl
  case blankField | emptySegment =>
    simp only [ConditionPlace.text, String.toList_append, List.append_assoc] at same
    rw [← (RulePlace.text_append_inj same).1]
    rfl
  case blankCategoryId | repeatedCategoryId | noRules | noWeight =>
    simp only [RulePlace.text, categoryText, String.toList_append, List.append_assoc] at same
    have onward := (elementText_append_inj same).2
    simp [elementText] at onward
  -- The others do not start with the list of categories.
  all_goals simp [RulePlace.text, categoryText, elementText] at same

theorem Problem.eq_noChecks_of_message {place : RulePlace}
    (same : problem.message.toList = place.text.toList ++ (".checks:".toList ++ rest)) :
    problem = .noChecks place := by
  cases problem <;> cases rulePlace?_of_message same
  case noChecks => rfl
  case blankField own | emptySegment own _ =>
    obtain ⟨rule, slot⟩ := own
    unfold message at same
    cases slot <;> simp [ConditionPlace.text, Slot.text, elementText] at same
  all_goals
    unfold message at same
    simp at same

theorem Problem.eq_of_message_field {place : ConditionPlace}
    (same : problem.message.toList = place.text.toList ++ (".field:".toList ++ rest)) :
    problem = .blankField place ∨ ∃ field, problem = .emptySegment place field := by
  obtain ⟨rule, slot⟩ := place
  have about : problem.rulePlace? = some rule := by
    have behind := same
    simp only [ConditionPlace.text, String.toList_append, List.append_assoc] at behind
    exact rulePlace?_of_message behind
  cases problem
  case blankField own =>
    unfold message at same
    rw [String.toList_append] at same
    exact .inl (congrArg _ (ConditionPlace.text_append_inj same).1)
  case emptySegment own field =>
    unfold message at same
    simp only [String.toList_append, List.append_assoc] at same
    exact .inr ⟨field, congrArg (emptySegment · field) (ConditionPlace.text_append_inj same).1⟩
  all_goals cases about
  all_goals
    unfold message at same
    cases slot <;> simp [ConditionPlace.text, Slot.text, elementText] at same

def Problem.beginning : Problem α → String
  | blankVersion => "version:"
  | badWeight severity _ => "scoring.severityWeights." ++ severity.name ++ ":"
  | badShare status _ => "scoring.statusScores." ++ status.name ++ ":"
  | sharesInverted _ _ _ _ => "scoring.statusScores:"
  | noCategories | noPoints => "categories:"
  | blankCategoryId category => categoryText category ++ ".id:"
  | repeatedCategoryId category _ => categoryText category ++ ".id: duplicate"
  | noRules category _ => categoryText category ++ ".rules:"
  | noWeight category _ => categoryText category ++ ":"
  | blankRuleId place => place.text ++ ".id:"
  | repeatedRuleId place _ _ => place.text ++ ".id: duplicate"
  | noMode place _ | bothModes place _ => place.text ++ ":"
  | noChecks place => place.text ++ ".checks:"
  | blankField place | emptySegment place _ => place.text ++ ".field:"

theorem Problem.beginning_prefix_message (problem : Problem Binary64) :
    problem.beginning.toList <+: problem.message.toList := by
  cases problem <;> unfold message beginning <;> simp

theorem Condition.exists_mem_problems {condition : Condition Binary64} (place : ConditionPlace)
    (bad : condition.HasBadField) :
    ∃ problem ∈ condition.problems place, problem.beginning = place.text ++ ".field:" := by
  unfold problems
  by_cases hidden : isBlankText condition.field = true
  · exact ⟨.blankField place, by simp [hidden], rfl⟩
  · have empty := bad.resolve_left hidden
    exact ⟨.emptySegment place condition.field, by simp [hidden, empty], rfl⟩

end Messages

section Reports

def Catalog.Reports (catalog : Catalog Binary64) (beginning : String) : Prop :=
  ∃ message ∈ catalog.problems.map Problem.message, beginning.toList <+: message.toList

instance (catalog : Catalog Binary64) (beginning : String) : Decidable (catalog.Reports beginning) :=
  inferInstanceAs (Decidable (∃ message ∈ _, _))

/-- The faults of a catalog that are reported at their places, whatever else is wrong with it. The
conditions and the lists of checks are those of the rules that a predicate selects. -/
structure Catalog.ReportsFaults (catalog : Catalog Binary64) (selects : Rule Binary64 → Prop) :
    Prop where
  fields : ∀ place condition, (place, condition) ∈ catalog.conditions →
    (∀ rule ∈ catalog.ruleAt? place.rule, selects rule) →
    condition.HasBadField → catalog.Reports (place.text ++ ".field:")
  checks : ∀ place rule, (place, rule) ∈ catalog.placedRules → selects rule →
    rule.checks = some [] → catalog.Reports (place.text ++ ".checks:")
  modes : ∀ place rule, (place, rule) ∈ catalog.placedRules →
    rule.checks.isSome = rule.thresholds.isSome → catalog.Reports (place.text ++ ":")
  categoryIds : ∀ i j first second, i < j → catalog.categories[i]? = some first →
    catalog.categories[j]? = some second → first.id = second.id → isBlankText second.id = false →
      catalog.Reports (categoryText j ++ ".id: duplicate")
  ruleIds : ∀ category i j first second, i < j → catalog.ruleAt? ⟨category, i⟩ = some first →
    catalog.ruleAt? ⟨category, j⟩ = some second → first.id = second.id →
    isBlankText second.id = false →
      catalog.Reports ((RulePlace.mk category j).text ++ ".id: duplicate")

variable {catalog : Catalog Binary64} {place : RulePlace} {rule : Rule Binary64}
  {problem : Problem Binary64}

namespace Catalog

theorem reports_of_mem {beginning : String} (found : problem ∈ catalog.problems)
    (begins : problem.beginning = beginning) : catalog.Reports beginning :=
  ⟨problem.message, List.mem_map_of_mem found, begins ▸ problem.beginning_prefix_message⟩

theorem exists_mem_of_reports {beginning : String} (reports : catalog.Reports beginning) :
    ∃ problem ∈ catalog.problems, ∃ rest, problem.message.toList = beginning.toList ++ rest := by
  obtain ⟨_, listed, rest, same⟩ := reports
  obtain ⟨problem, found, rfl⟩ := List.mem_map.mp listed
  exact ⟨problem, found, rest, same.symm⟩

theorem mem_problems_of_mem_modeProblems (there : catalog.ruleAt? place = some rule)
    (found : problem ∈ rule.modeProblems place) : problem ∈ catalog.problems := by
  obtain ⟨category, inCatalog, inCategory⟩ := Option.bind_eq_some_iff.mp there
  refine (mem_problems_iff (Rule.rulePlace?_of_mem_modeProblems found)).mpr ?_
  exact ⟨category, rule, inCatalog, inCategory, List.mem_append_right _ found⟩

theorem reports_field {place : ConditionPlace} {condition : Condition Binary64}
    (listed : (place, condition) ∈ catalog.conditions)
    (single : ∀ rule ∈ catalog.ruleAt? place.rule, ¬ rule.HasBothModes)
    (bad : condition.HasBadField) : catalog.Reports (place.text ++ ".field:") := by
  obtain ⟨rule, there, slotted⟩ := Option.bind_eq_some_iff.mp (mem_conditions_iff.mp listed)
  obtain ⟨problem, found, begins⟩ := Condition.exists_mem_problems place bad
  refine reports_of_mem (mem_problems_of_mem_modeProblems there ?_) begins
  exact Rule.mem_modeProblems_of_mem_conditions (single rule there) (Rule.mem_conditions_iff.mpr slotted)
    found

theorem reports_checks (there : catalog.ruleAt? place = some rule) (single : ¬ rule.HasBothModes)
    (empty : rule.checks = some []) : catalog.Reports (place.text ++ ".checks:") := by
  have found : Problem.noChecks place ∈ rule.modeProblems place := by
    unfold Rule.modeProblems
    cases other : rule.thresholds with
    | none => simp [empty]
    | some thresholds => exact absurd ⟨by simp [empty], by simp [other]⟩ single
  exact reports_of_mem (mem_problems_of_mem_modeProblems there found) rfl

theorem reports_modes (there : catalog.ruleAt? place = some rule)
    (same : rule.checks.isSome = rule.thresholds.isSome) : catalog.Reports (place.text ++ ":") := by
  have found : Problem.noMode place rule.id ∈ rule.modeProblems place ∨
      Problem.bothModes place rule.id ∈ rule.modeProblems place := by
    unfold Rule.modeProblems
    cases checks : rule.checks <;> cases thresholds : rule.thresholds <;> simp_all
  rcases found with found | found
  · exact reports_of_mem (mem_problems_of_mem_modeProblems there found) rfl
  · exact reports_of_mem (mem_problems_of_mem_modeProblems there found) rfl

theorem reports_categoryId {i j : Nat} {first second : Category Binary64} (before : i < j)
    (early : catalog.categories[i]? = some first) (late : catalog.categories[j]? = some second)
    (same : first.id = second.id) (shown : isBlankText second.id = false) :
    catalog.Reports (categoryText j ++ ".id: duplicate") := by
  have found : Problem.repeatedCategoryId j second.id ∈ catalog.problems := by
    refine List.mem_append_right _ (mem_categoryProblems_iff.mpr ⟨j, second, late, ?_⟩)
    refine List.mem_append_left _ (repeated_mem_idProblems shown ?_)
    exact same ▸ mem_take_map before early
  exact reports_of_mem found rfl

theorem reports_ruleId {category i j : Nat} {first second : Rule Binary64} (before : i < j)
    (early : catalog.ruleAt? ⟨category, i⟩ = some first)
    (late : catalog.ruleAt? ⟨category, j⟩ = some second) (same : first.id = second.id)
    (shown : isBlankText second.id = false) :
    catalog.Reports ((RulePlace.mk category j).text ++ ".id: duplicate") := by
  obtain ⟨owner, inCatalog, early⟩ := Option.bind_eq_some_iff.mp early
  obtain ⟨_, again, late⟩ := Option.bind_eq_some_iff.mp late
  cases inCatalog.symm.trans again
  have about : (Problem.repeatedRuleId ⟨category, j⟩ second.id owner.id : Problem Binary64).rulePlace? =
      some ⟨category, j⟩ := rfl
  have found : Problem.repeatedRuleId ⟨category, j⟩ second.id owner.id ∈ catalog.problems := by
    refine (mem_problems_iff about).mpr ⟨owner, second, inCatalog, late, ?_⟩
    refine List.mem_append_left _ (repeated_mem_idProblems shown ?_)
    exact same ▸ mem_take_map before early
  exact reports_of_mem found rfl

theorem isWithinMode_of_mem_problems (there : catalog.ruleAt? place = some rule)
    (both : rule.HasBothModes) (about : problem.rulePlace? = some place)
    (found : problem ∈ catalog.problems) : problem.isWithinMode = false := by
  obtain ⟨category, other, inCatalog, inCategory, within⟩ := (mem_problems_iff about).mp found
  have here : catalog.ruleAt? place = some other :=
    Option.bind_eq_some_iff.mpr ⟨category, inCatalog, inCategory⟩
  cases here.symm.trans there
  rcases List.mem_append.mp within with ofId | ofMode
  · obtain rfl | rfl := eq_or_eq_of_mem_idProblems ofId
    · rfl
    · rfl
  · rw [Rule.modeProblems_of_hasBothModes both] at ofMode
    cases List.mem_singleton.mp ofMode
    rfl

theorem not_reports_checks (there : catalog.ruleAt? place = some rule) (both : rule.HasBothModes) :
    ¬ catalog.Reports (place.text ++ ".checks:") := by
  intro reports
  obtain ⟨problem, found, rest, same⟩ := exists_mem_of_reports reports
  rw [String.toList_append, List.append_assoc] at same
  obtain rfl := Problem.eq_noChecks_of_message same
  cases isWithinMode_of_mem_problems there both rfl found

theorem not_reports_field {slot : Slot} (there : catalog.ruleAt? place = some rule)
    (both : rule.HasBothModes) :
    ¬ catalog.Reports ((ConditionPlace.mk place slot).text ++ ".field:") := by
  intro reports
  obtain ⟨problem, found, rest, same⟩ := exists_mem_of_reports reports
  rw [String.toList_append, List.append_assoc] at same
  obtain rfl | ⟨field, rfl⟩ := Problem.eq_of_message_field same
  · cases isWithinMode_of_mem_problems there both rfl found
  · cases isWithinMode_of_mem_problems there both rfl found

/-- Every fault is reported as long as it is not one of the modes of a rule that has both; with such a
rule, everything is reported exactly if its two modes hold no faults of their own. -/
theorem reportsFaults_iff (catalog : Catalog Binary64) :
    catalog.ReportsFaults (fun rule => ¬ rule.HasBothModes) ∧
      (catalog.ReportsFaults (fun _ => True) ↔
        ∀ place rule, (place, rule) ∈ catalog.placedRules → rule.HasBothModes →
          rule.checks ≠ some [] ∧ ∀ entry ∈ rule.conditions, ¬ entry.2.HasBadField) := by
  have single : catalog.ReportsFaults (fun rule => ¬ rule.HasBothModes) :=
    { fields := fun _ _ => reports_field
      checks := fun _ _ listed => reports_checks (mem_placedRules_iff.mp listed)
      modes := fun _ _ listed => reports_modes (mem_placedRules_iff.mp listed)
      categoryIds := fun _ _ _ _ => reports_categoryId
      ruleIds := fun _ _ _ _ _ => reports_ruleId }
  refine ⟨single, ?_, ?_⟩
  · intro all place rule listed both
    have there := mem_placedRules_iff.mp listed
    constructor
    · intro empty
      exact not_reports_checks there both (all.checks place rule listed trivial empty)
    · rintro ⟨slot, condition⟩ inRule bad
      have placed : (ConditionPlace.mk place slot, condition) ∈ catalog.conditions :=
        mem_conditions_iff.mpr
          (Option.bind_eq_some_iff.mpr ⟨rule, there, Rule.mem_conditions_iff.mp inRule⟩)
      exact not_reports_field there both (all.fields _ condition placed (fun _ _ => trivial) bad)
  · intro clean
    refine { single with fields := ?_, checks := ?_ }
    · intro place condition listed _ bad
      refine single.fields place condition listed (fun rule there both => ?_) bad
      obtain ⟨_, again, slotted⟩ := Option.bind_eq_some_iff.mp (mem_conditions_iff.mp listed)
      cases there.symm.trans again
      exact (clean _ rule (mem_placedRules_iff.mpr there) both).2 _
        (Rule.mem_conditions_iff.mpr slotted) bad
    · intro place rule listed _ empty
      exact single.checks place rule listed (fun both => (clean place rule listed both).1 empty) empty

end Catalog

def Catalog.ofBothModes (field : String) : Catalog Binary64 where
  version := "1.0.0"
  engine := ""
  scoring := Scoring.standard
  categories := [⟨"category", "", 10, [⟨"rule", .high, "", "",
    some [⟨field, "equals", .bool true⟩], some ⟨⟨"field", "equals", .bool true⟩, none⟩⟩]⟩]

/-- The empty field is not reported next to the two modes. -/
theorem Catalog.not_reportsFaults_ofBothModes :
    ¬ (ofBothModes "").ReportsFaults (fun _ => True) := by
  intro all
  have reported := all.fields ⟨⟨0, 0⟩, .check 0⟩ ⟨"", "equals", .bool true⟩ (by decide +kernel)
    (fun _ _ => trivial) (.inl (by decide))
  revert reported
  decide +kernel

end Reports

end PageHealth
