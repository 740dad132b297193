import PageHealth.Catalog.Lint
import PageHealth.Proofs.Catalog.Comparison
import PageHealth.Proofs.Catalog.Finite
import PageHealth.Proofs.Catalog.PlaceText
import PageHealth.Proofs.Catalog.WellFormed
import PageHealth.Proofs.Facts.Insertion
import PageHealth.Proofs.Number.Notation

namespace PageHealth

def Catalog.warnings (catalog : Catalog Binary64) : List String :=
  catalog.suspicions.map Suspicion.message

def WarnsAbout (place : ConditionPlace) (warning : String) : Prop :=
  (place.text ++ ".").toList <+: warning.toList

def SaysNeverMatches (warning : String) : Prop :=
  "condition will never match".toList <:+ warning.toList

instance (place : ConditionPlace) (warning : String) : Decidable (WarnsAbout place warning) :=
  inferInstanceAs (Decidable (_ <+: _))

instance (warning : String) : Decidable (SaysNeverMatches warning) :=
  inferInstanceAs (Decidable (_ <:+ _))

section Messages

variable {place : ConditionPlace}

def Suspicion.place? {α : Type} : Suspicion α → Option ConditionPlace
  | oddVersion _ => none
  | unknownOperator place _ | unusableValue place _ _ | emptyRange place _ _ => some place

theorem Suspicion.warnsAbout_iff {suspicion : Suspicion Binary64} :
    WarnsAbout place suspicion.message ↔ suspicion.place? = some place := by
  -- Every message but that of a version goes on from its own place with a point.
  have starts {own : ConditionPlace} {warning : String}
      (message : ∃ rest, warning.toList = own.text.toList ++ '.' :: rest) :
      WarnsAbout place warning ↔ some own = some place := by
    obtain ⟨rest, message⟩ := message
    unfold WarnsAbout
    rw [message, String.toList_append, Option.some.injEq]
    constructor
    · rintro ⟨behind, same⟩
      rw [List.append_assoc] at same
      exact (ConditionPlace.text_append_inj same).1.symm
    · rintro rfl
      exact ⟨rest, by simp⟩
  cases suspicion with
  | oddVersion version =>
    simp [WarnsAbout, message, ConditionPlace.text, RulePlace.text, categoryText, elementText, place?]
  | unknownOperator own name => exact starts (by simp [message])
  | unusableValue own operator value => exact starts (by simp [message])
  | emptyRange own least greatest => exact starts (by simp [message])

theorem notMem_write {x : Binary64} (finite : x.isFinite = true) : 'h' ∉ (messageNumber.write x).toList := by
  cases x with
  | nan => cases finite
  | signed negative rank =>
    obtain ⟨d, _, _, written⟩ := messageNumber.exists_write finite
    have layout := @NumberNotation.notMem_layout messageNumber d 'h' (by decide) (by decide)
    rw [written]
    cases negative <;> simp [layout]

/-- The conditions that can never hold are those whose operator is unknown or has no use for the value. -/
def Suspicion.isDead {α : Type} : Suspicion α → Bool
  | unknownOperator _ _ | unusableValue _ _ _ => true
  | oddVersion _ | emptyRange _ _ _ => false

theorem Suspicion.isDead_of_saysNeverMatches {suspicion : Suspicion Binary64}
    (finite : ∀ place least greatest, suspicion = .emptyRange place least greatest →
      greatest.isFinite = true)
    (never : SaysNeverMatches suspicion.message) : suspicion.isDead = true := by
  -- The sentence ends in a letter, the other messages in a bracket and in a number.
  have last : suspicion.message.toList.getLast? = some 'h' := by
    obtain ⟨front, whole⟩ := never
    rw [← whole, List.getLast?_append]
    rfl
  cases suspicion with
  | unknownOperator => rfl
  | unusableValue => rfl
  | oddVersion version =>
    rw [message, String.toList_append, List.getLast?_append] at last
    cases last
  | emptyRange place least greatest =>
    have letters := notMem_write (finite place least greatest rfl)
    rw [message, String.toList_append, List.getLast?_append] at last
    cases shown : (messageNumber.write greatest).toList.getLast? with
    | none =>
      rw [shown, Option.none_or, String.toList_append, List.getLast?_append] at last
      cases last
    | some c =>
      rw [shown, Option.some_or, Option.some.injEq] at last
      exact absurd (List.mem_of_getLast? shown) (last ▸ letters)

end Messages

section Conditions

variable {place : ConditionPlace} {condition : Condition Binary64} {suspicion : Suspicion Binary64}

theorem Condition.cases_of_mem_suspicions (found : suspicion ∈ condition.suspicions place) :
    (Operator.ofName? condition.operator = none ∧
      suspicion = .unknownOperator place condition.operator) ∨
    (∃ op, Operator.ofName? condition.operator = some op ∧ op.accepts condition.value = false ∧
      suspicion = .unusableValue place op condition.value) ∨
    ∃ least greatest, condition.value = .range least greatest ∧
      suspicion = .emptyRange place least greatest := by
  unfold suspicions at found
  split at found
  · rename_i unknown
    exact .inl ⟨unknown, List.mem_singleton.mp found⟩
  · rename_i op known
    rcases List.mem_append.mp found with unusable | empty
    · split at unusable
      · cases unusable
      · rename_i refused
        exact .inr (.inl ⟨op, known, by simpa using refused, List.mem_singleton.mp unusable⟩)
    · unfold Expected.rangeSuspicions at empty
      split at empty
      · rename_i least greatest range
        split at empty
        · exact .inr (.inr ⟨least, greatest, range, List.mem_singleton.mp empty⟩)
        · cases empty
      · cases empty

theorem Condition.place?_of_mem_suspicions (found : suspicion ∈ condition.suspicions place) :
    suspicion.place? = some place := by
  obtain ⟨_, rfl⟩ | ⟨_, _, _, rfl⟩ | ⟨_, _, _, rfl⟩ := cases_of_mem_suspicions found
  · rfl
  · rfl
  · rfl

theorem Condition.not_holds_of_isDead (found : suspicion ∈ condition.suspicions place)
    (dead : suspicion.isDead = true) (facts : Facts Binary64) : condition.holds facts = false := by
  obtain ⟨unknown, rfl⟩ | ⟨op, known, refused, rfl⟩ | ⟨_, _, _, rfl⟩ := cases_of_mem_suspicions found
  · apply Dead.not_holds
    intro op known
    rw [unknown] at known
    cases known
  · apply Dead.not_holds
    intro other known'
    rw [known] at known'
    cases known'
    exact refused
  · cases dead

theorem Expected.le_of_rangeSuspicions_eq_nil {least greatest : Binary64} (low : least.isFinite = true)
    (high : greatest.isFinite = true)
    (none : (Expected.range least greatest).rangeSuspicions place = []) : least ≤ greatest := by
  apply (Binary64.not_lt_iff_le (Binary64.ne_nan_of_isFinite high)
    (Binary64.ne_nan_of_isFinite low)).mp
  intro inverted
  have empty : Scalar.less greatest least = true := inverted
  rw [Expected.rangeSuspicions, if_pos empty] at none
  cases none

/-- An operator holds of some fact whenever it can use the value, unless a range is empty. Where an end
of the number line is needed, an infinity is beyond every finite number. -/
theorem Operator.exists_matchesFact {op : Operator} {expected : Expected Binary64}
    (usable : op.accepts expected = true) (finite : expected.isFinite = true)
    (nonempty : expected.rangeSuspicions place = []) :
    ∃ fact : OrderedFact Binary64, op.matchesFact fact.1 expected = true := by
  cases expected with
  | bool b =>
    cases op with
    | equals => exact ⟨⟨.bool b, .bool b⟩, decide_eq_true rfl⟩
    | _ => cases usable
  | text s =>
    cases op with
    | equals => exact ⟨⟨.text s, .text s⟩, decide_eq_true rfl⟩
    | _ => cases usable
  | number x =>
    cases op with
    | equals => exact ⟨⟨.number x, .number x⟩, Binary64.same_self_of_isFinite finite⟩
    | greater => exact ⟨⟨.number (.infinity false), .number _⟩, Binary64.lt_infinity finite⟩
    | greaterOrEqual => exact ⟨⟨.number x, .number x⟩, Binary64.le_refl_of_isFinite finite⟩
    | less => exact ⟨⟨.number (.infinity true), .number _⟩, Binary64.infinity_lt finite⟩
    | lessOrEqual => exact ⟨⟨.number x, .number x⟩, Binary64.le_refl_of_isFinite finite⟩
    | between => cases usable
    | outside => cases usable
  | range least greatest =>
    obtain ⟨low, high⟩ : least.isFinite = true ∧ greatest.isFinite = true := by
      simpa [Expected.isFinite] using finite
    cases op with
    | between =>
      have ordered := Expected.le_of_rangeSuspicions_eq_nil low high nonempty
      refine ⟨⟨.number least, .number _⟩, ?_⟩
      simp only [matchesFact, Bool.and_eq_true]
      exact ⟨Binary64.le_refl_of_isFinite low, ordered⟩
    | outside =>
      refine ⟨⟨.number (.infinity true), .number _⟩, ?_⟩
      simp only [matchesFact, Bool.or_eq_true]
      exact .inl (Binary64.infinity_lt low)
    | _ => cases usable

theorem Condition.exists_holds_of_suspicions_eq_nil (none : condition.suspicions place = [])
    (finite : condition.value.isFinite = true) (proper : hasEmptySegment condition.field = false) :
    ∃ value : OrderedFact Binary64, ∀ facts : Facts Binary64,
      condition.holds (facts.insert condition.field value.1 value.2) = true := by
  unfold suspicions at none
  split at none
  · cases none
  · rename_i op known
    obtain ⟨usable, nonempty⟩ := List.append_eq_nil_iff.mp none
    have usable : op.accepts condition.value = true := by
      by_contra refused
      rw [if_neg refused] at usable
      cases usable
    obtain ⟨value, matched⟩ := Operator.exists_matchesFact usable finite nonempty
    refine ⟨value, fun facts => ?_⟩
    simp only [holds, known, Facts.lookup_insert_self proper]
    exact matched

end Conditions

namespace Catalog

variable {catalog : Catalog Binary64} {place : ConditionPlace} {condition : Condition Binary64}

theorem mem_suspicions_at_iff (listed : (place, condition) ∈ catalog.conditions)
    {suspicion : Suspicion Binary64} (about : suspicion.place? = some place) :
    suspicion ∈ catalog.suspicions ↔ suspicion ∈ condition.suspicions place := by
  unfold suspicions
  rw [List.mem_append, List.mem_flatMap]
  constructor
  · rintro (version | ⟨⟨other, found⟩, there, within⟩)
    · split at version
      · cases version
      · rw [List.mem_singleton.mp version] at about
        cases about
    · have same := Condition.place?_of_mem_suspicions within
      obtain rfl : place = other := Option.some.inj (about.symm.trans same)
      have one := (mem_conditions_iff.mp listed).symm.trans (mem_conditions_iff.mp there)
      rwa [Option.some.inj one]
  · intro within
    exact .inr ⟨(place, condition), listed, within⟩

theorem WellFormed.of_mem_conditions (wellFormed : catalog.WellFormed)
    (listed : (place, condition) ∈ catalog.conditions) : condition.WellFormed := by
  refine (forall_conditions (P := Condition.WellFormed)).mpr ?_ _ listed
  intro category member rule within
  exact ((wellFormed.categories category member).rules rule within).conditions

/-- A condition that is said never to match matches no facts; one about which nothing is said matches any
facts into which the right value is put at its field. -/
theorem warnings_about (catalog : Catalog Binary64) (accepted : catalog.problems = [])
    (finite : ∀ placed ∈ catalog.conditions, placed.2.value.isFinite = true)
    (place : ConditionPlace) (condition : Condition Binary64)
    (listed : (place, condition) ∈ catalog.conditions) :
    ((∃ warning ∈ catalog.warnings, WarnsAbout place warning ∧ SaysNeverMatches warning) →
        ∀ facts, condition.holds facts = false) ∧
      ((∀ warning ∈ catalog.warnings, ¬ WarnsAbout place warning) →
        ∃ value : OrderedFact Binary64, ∀ facts : Facts Binary64,
          condition.holds (facts.insert condition.field value.1 value.2) = true) := by
  have bounded : condition.value.isFinite = true := finite _ listed
  constructor
  · rintro ⟨_, warned, about, never⟩
    obtain ⟨suspicion, found, rfl⟩ := List.mem_map.mp warned
    have within := (mem_suspicions_at_iff listed (Suspicion.warnsAbout_iff.mp about)).mp found
    refine Condition.not_holds_of_isDead within (Suspicion.isDead_of_saysNeverMatches ?_ never)
    rintro _ least greatest rfl
    obtain ⟨_, same⟩ | ⟨_, _, _, same⟩ | ⟨_, _, range, same⟩ :=
      Condition.cases_of_mem_suspicions within
    · cases same
    · cases same
    · cases same
      rw [range] at bounded
      exact (Bool.and_eq_true_iff.mp bounded).2
  · intro unwarned
    have proper : hasEmptySegment condition.field = false := by
      have wellFormed := (problems_eq_nil_iff.mp accepted).of_mem_conditions listed
      simpa [hasEmptySegment, List.any_eq_false] using wellFormed.segments_nonempty
    have none : condition.suspicions place = [] := by
      apply List.eq_nil_iff_forall_not_mem.mpr
      intro suspicion within
      have about := Condition.place?_of_mem_suspicions within
      have found := (mem_suspicions_at_iff listed about).mpr within
      exact unwarned _ (List.mem_map_of_mem found) (Suspicion.warnsAbout_iff.mpr about)
    exact Condition.exists_holds_of_suspicions_eq_nil none bounded proper

def ofLimit (limit : Binary64) : Catalog Binary64 where
  version := "1.0.0"
  engine := ""
  scoring := Scoring.standard
  categories := [⟨"category", "Category", 10,
    [⟨"rule", .high, "", "", none, some
      ⟨⟨"page.size", "between", .number limit⟩, some ⟨"page.size", "gt", .number limit⟩⟩⟩]⟩]

theorem warnings_about_ofLimit :
    let limit : Binary64 := .signed false ⟨infiniteRank - 1, by decide⟩
    (∀ facts, Condition.holds ⟨"page.size", "between", .number limit⟩ facts = false) ∧
      ∃ value : OrderedFact Binary64, ∀ facts : Facts Binary64,
        Condition.holds ⟨"page.size", "gt", .number limit⟩
          (facts.insert "page.size" value.1 value.2) = true := by
  intro limit
  have accepted : (ofLimit limit).problems = [] := List.isEmpty_iff.mp (by decide +kernel)
  have finite : ∀ placed ∈ (ofLimit limit).conditions, placed.2.value.isFinite = true := by
    decide +kernel
  constructor
  · exact (warnings_about (ofLimit limit) accepted finite ⟨⟨0, 0⟩, .pass⟩ _ (by decide +kernel)).1
      (by decide +kernel)
  · exact (warnings_about (ofLimit limit) accepted finite ⟨⟨0, 0⟩, .warning⟩
      ⟨"page.size", "gt", .number limit⟩ (by decide +kernel)).2 (by decide +kernel)

end Catalog

end PageHealth
