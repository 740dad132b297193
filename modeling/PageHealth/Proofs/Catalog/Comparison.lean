import Mathlib.Data.List.Pairwise
import PageHealth.Catalog.Operator
import PageHealth.Proofs.Number.Order

namespace PageHealth

namespace Operator

variable {α : Type} [Scalar α] {op : Operator} {expected : Expected α}

@[simp] theorem ofName?_name (op : Operator) : ofName? op.name = some op := by
  cases op <;> rfl

theorem matchesFact_of_not_accepts (refused : op.accepts expected = false) (fact : Fact α) :
    op.matchesFact fact expected = false := by
  cases op <;> cases expected <;> simp only [accepts, Bool.true_eq_false] at refused <;>
    cases fact <;> rfl

end Operator

/-- A condition whose operator nobody knows, or has no use for the value. -/
def Condition.Dead {α : Type} (condition : Condition α) : Prop :=
  ∀ op, Operator.ofName? condition.operator = some op → op.accepts condition.value = false

theorem Condition.Dead.not_holds {α : Type} [Scalar α] {condition : Condition α}
    (dead : condition.Dead) (facts : Facts α) : condition.holds facts = false := by
  unfold Condition.holds
  cases known : Operator.ofName? condition.operator with
  | none => rfl
  | some op =>
    cases found : facts.lookup condition.field with
    | none => rfl
    | some fact => exact Operator.matchesFact_of_not_accepts (dead op known) fact

section Conditions

variable {facts : Facts Binary64} {field name : String} {fact : Fact Binary64}
  {expected : Expected Binary64} {x n a b : Binary64}

/-- A page meets a condition, given by its parts. -/
def Facts.Meets (facts : Facts Binary64) (field operator : String) (expected : Expected Binary64) :
    Prop :=
  (Condition.mk field operator expected).holds facts = true

instance (facts : Facts Binary64) (field operator : String) (expected : Expected Binary64) :
    Decidable (facts.Meets field operator expected) :=
  inferInstanceAs (Decidable (_ = true))

theorem Facts.meets_iff (found : facts.lookup field = some fact) (op : Operator)
    (expected : Expected Binary64) :
    facts.Meets field op.name expected ↔ op.matchesFact fact expected = true := by
  simp only [Meets, Condition.holds, Operator.ofName?_name, found, Operator.matchesFact?]

theorem Operator.ofName?_eq_none
    (unknown : name ∉ ["equals", "gt", "gte", "lt", "lte", "between", "outside"]) :
    ofName? name = none := by
  apply List.find?_eq_none.mpr
  intro op listed named
  have spelled : op.name ∈ all.map Operator.name := List.mem_map_of_mem listed
  exact unknown (of_decide_eq_true named ▸ spelled)

theorem Operator.not_matchesFact (op : Operator) (noNumber : ∀ x, fact = .number x → x = .nan)
    (n a b : Binary64) :
    op.matchesFact fact (.number n) = false ∧ op.matchesFact fact (.range a b) = false := by
  cases fact with
  | null | bool | text | list | map => cases op <;> exact ⟨rfl, rfl⟩
  | number x =>
    obtain rfl := noNumber x rfl
    have notBelow (y : Binary64) : Scalar.less .nan y = false ∧ Scalar.atMost .nan y = false := by
      constructor <;> rfl
    have notAbove (y : Binary64) : Scalar.less y .nan = false ∧ Scalar.atMost y .nan = false := by
      cases y <;> exact ⟨rfl, rfl⟩
    have notSame (y : Binary64) : Scalar.same .nan y = false := rfl
    cases op <;> simp [matchesFact, notBelow, notAbove, notSame]

theorem existsUnique_of_pairwise {names : List String} {P : String → Prop}
    (apart : names.Pairwise fun a b => P a → ¬ P b) (some : ∃ name ∈ names, P name) :
    ∃! name, name ∈ names ∧ P name := by
  have symmetric : Std.Symm fun a b : String => P a → ¬ P b :=
    ⟨fun a b excluded here there => excluded there here⟩
  obtain ⟨name, listed, here⟩ := some
  refine ⟨name, ⟨listed, here⟩, ?_⟩
  rintro other ⟨listed', there⟩
  by_contra differ
  exact apart.forall listed listed' (Ne.symm differ) here there

/-- What conditions say of a number: the comparisons with one number divide the line at it, and those with
two numbers are made of them. -/
structure Facts.Ordered (facts : Facts Binary64) (field : String) (x : Binary64) : Prop where
  less_iff : ∀ n, facts.Meets field "lt" (.number n) ↔ x < n
  greater_iff : ∀ n, facts.Meets field "gt" (.number n) ↔ n < x
  one_of_three : ∀ n, n ≠ .nan →
    ∃! name, name ∈ ["lt", "equals", "gt"] ∧ facts.Meets field name (.number n)
  greaterOrEqual_iff : ∀ n, facts.Meets field "gte" (.number n) ↔
    facts.Meets field "gt" (.number n) ∨ facts.Meets field "equals" (.number n)
  lessOrEqual_iff : ∀ n, facts.Meets field "lte" (.number n) ↔
    facts.Meets field "lt" (.number n) ∨ facts.Meets field "equals" (.number n)
  between_iff : ∀ a b, facts.Meets field "between" (.range a b) ↔
    facts.Meets field "gte" (.number a) ∧ facts.Meets field "lte" (.number b)
  outside_iff : ∀ a b, facts.Meets field "outside" (.range a b) ↔
    facts.Meets field "lt" (.number a) ∨ facts.Meets field "gt" (.number b)
  one_of_two : ∀ a b, a ≠ .nan → b ≠ .nan →
    ∃! name, name ∈ ["between", "outside"] ∧ facts.Meets field name (.range a b)

theorem Facts.ordered_of_lookup (found : facts.lookup field = some (.number x)) (number : x ≠ .nan) :
    facts.Ordered field x := by
  have less (n : Binary64) : facts.Meets field "lt" (.number n) ↔ x < n := meets_iff found .less _
  have greater (n : Binary64) : facts.Meets field "gt" (.number n) ↔ n < x :=
    meets_iff found .greater _
  have equals (n : Binary64) : facts.Meets field "equals" (.number n) ↔ x.same n = true :=
    meets_iff found .equals _
  have atLeast (n : Binary64) : facts.Meets field "gte" (.number n) ↔ n ≤ x :=
    meets_iff found .greaterOrEqual _
  have atMost (n : Binary64) : facts.Meets field "lte" (.number n) ↔ x ≤ n :=
    meets_iff found .lessOrEqual _
  have between (a b : Binary64) : facts.Meets field "between" (.range a b) ↔ a ≤ x ∧ x ≤ b :=
    (meets_iff found .between _).trans Bool.and_eq_true_iff
  have outside (a b : Binary64) : facts.Meets field "outside" (.range a b) ↔ x < a ∨ b < x :=
    (meets_iff found .outside _).trans Bool.or_eq_true_iff
  constructor
  · exact less
  · exact greater
  · intro n number'
    apply existsUnique_of_pairwise
    · have notSame : x < n → ¬ x.same n = true := Binary64.not_same_of_lt
      have notAbove : x < n → ¬ n < x := fun below =>
        Binary64.not_lt_of_le (Binary64.le_of_lt below)
      have sameNotAbove : x.same n = true → ¬ n < x := fun same above =>
        Binary64.not_same_of_lt above (Binary64.same_comm.mp same)
      simp only [List.pairwise_cons, List.forall_mem_cons, less, greater, equals]
      exact ⟨⟨notSame, notAbove, by simp⟩, ⟨sameNotAbove, by simp⟩, by simp⟩
    · rcases Binary64.lt_or_same_or_gt number number' with below | same | above
      · exact ⟨"lt", by simp, (less n).mpr below⟩
      · exact ⟨"equals", by simp, (equals n).mpr same⟩
      · exact ⟨"gt", by simp, (greater n).mpr above⟩
  · intro n
    rw [atLeast, greater, equals, Binary64.le_iff_lt_or_same, Binary64.same_comm]
  · intro n
    rw [atMost, less, equals, Binary64.le_iff_lt_or_same]
  · intro a b
    rw [between, atLeast, atMost]
  · intro a b
    rw [outside, less, greater]
  · intro a b numberA numberB
    have complement : facts.Meets field "outside" (.range a b) ↔
        ¬ facts.Meets field "between" (.range a b) := by
      rw [outside, between, ← Binary64.not_lt_iff_le number numberA,
        ← Binary64.not_lt_iff_le numberB number, not_and_or, not_not, not_not]
    apply existsUnique_of_pairwise
    · simp [complement]
    · by_cases within : facts.Meets field "between" (.range a b)
      · exact ⟨"between", by simp, within⟩
      · exact ⟨"outside", by simp, complement.mpr within⟩

/-- The operators form one order of the numbers, of which anything but a number has no part; and no condition
is met whose operator is unknown or has no use for the value. -/
theorem Facts.meets_coherent (facts : Facts Binary64) (field : String) :
    (∀ x, facts.lookup field = some (.number x) → x ≠ .nan → facts.Ordered field x) ∧
      ((∀ x, facts.lookup field = some (.number x) → x = .nan) → ∀ name n a b,
        ¬ facts.Meets field name (.number n) ∧ ¬ facts.Meets field name (.range a b)) ∧
      (∀ (op : Operator) (expected : Expected Binary64), op.accepts expected = false →
        ¬ facts.Meets field op.name expected) ∧
      ∀ name ∉ ["equals", "gt", "gte", "lt", "lte", "between", "outside"],
        ∀ expected, ¬ facts.Meets field name expected := by
  refine ⟨?_, ?_, ?_, ?_⟩
  · intro x found number
    exact ordered_of_lookup found number
  · intro noNumber name n a b
    unfold Meets Condition.holds
    cases Operator.ofName? name with
    | none => exact ⟨Bool.false_ne_true, Bool.false_ne_true⟩
    | some op =>
      cases found : facts.lookup field with
      | none => exact ⟨Bool.false_ne_true, Bool.false_ne_true⟩
      | some fact =>
        have unmatched := op.not_matchesFact (fun x same => noNumber x (same ▸ found)) n a b
        exact ⟨Bool.eq_false_iff.mp unmatched.1, Bool.eq_false_iff.mp unmatched.2⟩
  · intro op expected refused
    have dead : (Condition.mk field op.name expected).Dead := by
      intro other known
      rw [Operator.ofName?_name, Option.some.injEq] at known
      exact known ▸ refused
    exact Bool.eq_false_iff.mp (dead.not_holds facts)
  · intro name unknown expected
    have dead : (Condition.mk field name expected).Dead := by
      intro op known
      rw [Operator.ofName?_eq_none unknown] at known
      cases known
    exact Bool.eq_false_iff.mp (dead.not_holds facts)

/-- A size that is a negative zero, a range whose ends are the wrong way round, and a title that spells a
number. -/
theorem Facts.meets_coherent_ofZero :
    let page : Facts Binary64 :=
      (Facts.empty.insert "size" (.number (.zero true))).insert "title" (.text "5")
    page.Meets "size" "equals" (.number 0) ∧
      (∃! name, name ∈ ["between", "outside"] ∧ page.Meets "size" name (.range 1 0)) ∧
      ¬ page.Meets "title" "equals" (.number (.ofNat 5)) ∧
      ¬ page.Meets "size" "gte" (.range 0 1) ∧ ¬ page.Meets "size" "above" (.number 0) := by
  intro page
  have size : page.lookup "size" = some (.number (.zero true)) := by rfl
  have title : ∀ x, page.lookup "title" = some (.number x) → x = .nan := by
    intro x found
    cases found
  obtain ⟨ordered, unmet, refused, unknown⟩ := meets_coherent page "size"
  have order := ordered (.zero true) size (by decide)
  refine ⟨?_, ?_, ?_, ?_, ?_⟩
  · have reached : page.Meets "size" "gte" (.number 0) := by decide +kernel
    have notAbove : ¬ page.Meets "size" "gt" (.number 0) := by decide +kernel
    exact ((order.greaterOrEqual_iff 0).mp reached).resolve_left notAbove
  · exact order.one_of_two 1 0 (by decide) (by decide)
  · exact ((meets_coherent page "title").2.1 title "equals" (.ofNat 5) 0 0).1
  · exact refused .greaterOrEqual (.range 0 1) rfl
  · exact unknown "above" (by decide) (.number 0)

end Conditions

end PageHealth
