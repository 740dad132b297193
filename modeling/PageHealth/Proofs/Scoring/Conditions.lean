import Mathlib.Data.List.Forall2
import Mathlib.Data.Option.Defs
import PageHealth.Proofs.Catalog.Places
import PageHealth.Scoring

/-! What conditions can tell about facts. A condition sees the scalar at its path, and anything else
there looks to it as if nothing was there. A rule turns out at least as well as before when none of its
conditions has stopped to hold. -/
namespace PageHealth

section Readings

/-- What a condition can see of a value. Of a number that is its place on the number line. -/
inductive Reading where
  | bool (value : Bool)
  | number (place : Option Int)
  | text (value : String)
  deriving DecidableEq

def Fact.reading? : Fact Binary64 → Option Reading
  | .bool b => some (.bool b)
  | .number x => some (.number x.place)
  | .text s => some (.text s)
  | _ => none

def Facts.reading? (facts : Facts Binary64) (path : String) : Option Reading :=
  (facts.lookup path).bind Fact.reading?

variable {condition : Condition Binary64} {f g : Facts Binary64}

theorem Operator.matchesFact_number {x y : Binary64} (op : Operator) (expected : Expected Binary64)
    (same : x.place = y.place) :
    op.matchesFact (.number x) expected = op.matchesFact (.number y) expected := by
  -- All comparisons of numbers are comparisons of their places.
  have less (z : Binary64) : Scalar.less x z = Scalar.less y z ∧ Scalar.less z x = Scalar.less z y := by
    simp only [Scalar.less, Binary64.less, same, and_self]
  have atMost (z : Binary64) :
      Scalar.atMost x z = Scalar.atMost y z ∧ Scalar.atMost z x = Scalar.atMost z y := by
    simp only [Scalar.atMost, Binary64.atMost, same, and_self]
  have equal (z : Binary64) : Scalar.same x z = Scalar.same y z := by
    simp only [Scalar.same, Binary64.same, same]
  cases op <;> cases expected <;> simp only [matchesFact, less, atMost, equal]

theorem Operator.matchesFact_eq_false {fact : Fact Binary64} (op : Operator)
    (expected : Expected Binary64) (unread : fact.reading? = none) :
    op.matchesFact fact expected = false := by
  cases fact with
  | null | list | map => cases op <;> rfl
  | bool | number | text => cases unread

theorem Operator.matchesFact_congr {a b : Fact Binary64} (op : Operator) (expected : Expected Binary64)
    (same : a.reading? = b.reading?) : op.matchesFact a expected = op.matchesFact b expected := by
  cases a with
  | null | list | map =>
    rw [op.matchesFact_eq_false expected rfl, op.matchesFact_eq_false expected same.symm]
  | bool =>
    cases b with
    | bool => cases same; rfl
    | _ => cases same
  | number =>
    cases b with
    | number =>
      injection same with same
      injection same with place
      exact op.matchesFact_number expected place
    | _ => cases same
  | text =>
    cases b with
    | text => cases same; rfl
    | _ => cases same

/-- No operator tells a null, a list, a map and an absent value from each other. -/
theorem Operator.matchesFact?_congr {a b : Option (Fact Binary64)} (op : Operator)
    (expected : Expected Binary64) (same : a.bind Fact.reading? = b.bind Fact.reading?) :
    op.matchesFact? a expected = op.matchesFact? b expected := by
  have null (actual : Option (Fact Binary64)) :
      op.matchesFact? actual expected = op.matchesFact (actual.getD .null) expected := by
    cases actual with
    | none => exact (op.matchesFact_eq_false expected rfl).symm
    | some fact => rfl
  rw [null, null]
  apply op.matchesFact_congr
  cases a <;> cases b <;> exact same

theorem Condition.holds_congr (same : f.reading? condition.field = g.reading? condition.field) :
    condition.holds f = condition.holds g := by
  unfold holds
  cases Operator.ofName? condition.operator with
  | none => rfl
  | some op => exact op.matchesFact?_congr condition.value same

theorem Condition.not_holds_of_reading?_eq_none (absent : f.reading? condition.field = none) :
    condition.holds f = false := by
  unfold holds
  cases Operator.ofName? condition.operator with
  | none => rfl
  | some op => exact op.matchesFact?_congr (b := none) condition.value absent

end Readings

section Statuses

theorem Status.grade_injective {a b : Status} (same : a.grade = b.grade) : a = b := by
  cases a <;> cases b <;> simp [grade] at same ⊢

theorem Status.grade_le_pass (status : Status) : status.grade ≤ Status.pass.grade := by
  cases status <;> decide

theorem Status.grade_ite_le {p q : Prop} [Decidable p] [Decidable q] {chosen a b : Status}
    (implied : p → q) (below : a.grade ≤ chosen.grade) (ordered : a.grade ≤ b.grade) :
    (if p then chosen else a).grade ≤ (if q then chosen else b).grade := by
  by_cases after : q
  · rw [if_pos after]
    split
    · exact Nat.le_refl _
    · exact below
  · rw [if_neg after, if_neg fun before => after (implied before)]
    exact ordered

structure Rule.Related {α : Type} (R : Condition α → Condition α → Prop) (a b : Rule α) : Prop where
  checks : Option.Rel (List.Forall₂ R) a.checks b.checks
  thresholds : Option.Rel (fun s t => R s.pass t.pass ∧ Option.Rel R s.warning t.warning)
    a.thresholds b.thresholds

theorem Rule.related_self {α : Type} {R : Condition α → Condition α → Prop} {rule : Rule α}
    (each : ∀ placed ∈ rule.conditions, R placed.2 placed.2) : rule.Related R rule := by
  obtain ⟨checked, graded⟩ := (Rule.forall_conditions (P := fun c => R c c)).mp each
  constructor
  · cases mode : rule.checks with
    | none => exact .none
    | some checks => exact .some (List.forall₂_same.mpr (checked checks mode))
  · cases mode : rule.thresholds with
    | none => exact .none
    | some thresholds =>
      obtain ⟨pass, warning⟩ := graded thresholds mode
      refine .some ⟨pass, ?_⟩
      cases same : thresholds.warning with
      | none => exact .none
      | some condition => exact .some (warning condition same)

section Quantifiers

variable {β : Type} {R : β → β → Prop} {p q : β → Bool}

theorem any_of_rel {x y : Option β} (related : Option.Rel R x y)
    (implied : ∀ a b, R a b → p a = true → q b = true) : x.any p = true → y.any q = true := by
  cases related with
  | none => exact id
  | some pair => exact implied _ _ pair

theorem all_of_forall₂ {xs ys : List β} (related : List.Forall₂ R xs ys)
    (implied : ∀ a b, R a b → p a = true → q b = true) :
    (!xs.isEmpty && xs.all p) = true → (!ys.isEmpty && ys.all q) = true := by
  have all : xs.all p = true → ys.all q = true := by
    induction related with
    | nil => exact id
    | cons head _ ih =>
      rw [List.all_cons, List.all_cons, Bool.and_eq_true, Bool.and_eq_true]
      exact And.imp (implied _ _ head) ih
  have sameLength : xs.isEmpty = ys.isEmpty := by cases related <;> rfl
  rw [Bool.and_eq_true, Bool.and_eq_true, sameLength]
  exact And.imp_right all

end Quantifiers

variable {α : Type} [Scalar α] {R : Condition α → Condition α → Prop} {rule a b : Rule α} {f g : Facts α}

/-- In either mode more conditions that hold can only help. -/
theorem Rule.Related.status_le (related : a.Related R b)
    (kept : ∀ c d, R c d → c.holds f = true → d.holds g = true) :
    (a.status f).grade ≤ (b.status g).grade := by
  obtain ⟨id, severity, message, recommendation, checks, thresholds⟩ := a
  obtain ⟨id', severity', message', recommendation', checks', thresholds'⟩ := b
  obtain ⟨checked, graded⟩ := related
  cases graded with
  | some both =>
    apply Status.grade_ite_le (kept _ _ both.1) (Status.grade_le_pass _)
    exact Status.grade_ite_le (any_of_rel both.2 kept) (Nat.zero_le _) (Nat.le_refl _)
  | none =>
    cases checked with
    | none => exact Nat.le_refl _
    | some each =>
      exact Status.grade_ite_le (all_of_forall₂ each kept) (Status.grade_le_pass _) (Nat.le_refl _)

theorem Rule.status_mono
    (kept : ∀ placed ∈ rule.conditions, placed.2.holds f = true → placed.2.holds g = true) :
    (rule.status f).grade ≤ (rule.status g).grade :=
  (Rule.related_self (R := fun c d => c.holds f = true → d.holds g = true) kept).status_le
    fun _ _ implied => implied

theorem Rule.status_congr
    (same : ∀ placed ∈ rule.conditions, placed.2.holds f = placed.2.holds g) :
    rule.status f = rule.status g := by
  apply Status.grade_injective
  apply Nat.le_antisymm
  · exact Rule.status_mono fun placed member held => (same placed member) ▸ held
  · exact Rule.status_mono fun placed member held => (same placed member).symm ▸ held

end Statuses

end PageHealth
