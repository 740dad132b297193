import PageHealth.Catalog.Places
import PageHealth.Proofs.Catalog.Document
import PageHealth.Proofs.Catalog.Places

/-! Catalogs whose numbers are finite. A document language in which every number that can be read is
finite yields no other catalogs: what one member puts into a draft is finite, so the whole draft is. -/
namespace PageHealth

def Expected.isFinite : Expected Binary64 → Bool
  | .number x => x.isFinite
  | .range least greatest => least.isFinite && greatest.isFinite
  | _ => true

def Condition.isFinite (condition : Condition Binary64) : Bool := condition.value.isFinite

structure Thresholds.Finite (thresholds : Thresholds Binary64) : Prop where
  pass : thresholds.pass.isFinite = true
  warning : ∀ condition ∈ thresholds.warning, condition.isFinite = true

structure Rule.Finite (rule : Rule Binary64) : Prop where
  checks : ∀ checks ∈ rule.checks, ∀ condition ∈ checks, condition.isFinite = true
  thresholds : ∀ thresholds ∈ rule.thresholds, thresholds.Finite

structure Scoring.Finite (scoring : Scoring Binary64) : Prop where
  weight : ∀ severity, (scoring.severityWeights.weight severity).isFinite = true
  share : ∀ status, (scoring.statusScores.share status).isFinite = true

structure Catalog.Finite (catalog : Catalog Binary64) : Prop where
  scoring : catalog.scoring.Finite
  rule : ∀ category ∈ catalog.categories, ∀ rule ∈ category.rules, rule.Finite

theorem Catalog.Finite.conditions {catalog : Catalog Binary64} (finite : catalog.Finite) :
    ∀ placed ∈ catalog.conditions, placed.2.value.isFinite = true := by
  refine (forall_conditions (P := fun c => c.value.isFinite = true)).mpr ?_
  intro category listed rule member
  have finite := finite.rule category listed rule member
  refine (Rule.forall_conditions (P := fun c => c.value.isFinite = true)).mpr ⟨finite.checks, ?_⟩
  intro thresholds present
  exact ⟨(finite.thresholds thresholds present).pass, (finite.thresholds thresholds present).warning⟩

section Reading

variable {N ε : Type} {d : Dialect N ε} {P : N → Prop}

/-- A language in which the numbers of certain nodes are finite, and of all nodes inside them. -/
structure Dialect.FiniteOn (d : Dialect N ε) (P : N → Prop) : Prop where
  double : ∀ node x, P node → d.double node = .ok x → x.isFinite = true
  expected : ∀ node value, P node → d.expected node = .ok value → value.isFinite = true
  item : ∀ node found, P node → d.items node = .ok found → ∀ item ∈ found.items, P item
  member : ∀ node name fields record, P node → d.record name fields node = .ok record →
    ∀ member ∈ record.members, P member.2

namespace Dialect

variable {β σ : Type} {fields : List String} {name : String} {node : N}
  {read : String → N → σ → Except ε σ} {I : σ → Prop}

theorem readMembers_keeps (step : ∀ key node draft next, P node → I draft →
      read key node draft = .ok next → I next) {members : List (String × N)} {seen : List String}
    {draft result : σ} (all : ∀ member ∈ members, P member.2) (start : I draft)
    (done : d.readMembers fields read seen members draft = .ok result) : I result := by
  induction members generalizing seen draft with
  | nil =>
    cases done
    exact start
  | cons member members ih =>
    obtain ⟨key, node⟩ := member
    rw [List.forall_mem_cons] at all
    obtain ⟨_, _, next, first, others⟩ := readMembers_cons_eq_ok_iff.mp done
    exact ih all.2 (step key node draft next all.1 start first) others

theorem readRecord_keeps (finite : d.FiniteOn P) (within : P node)
    (step : ∀ key node draft next, P node → I draft → read key node draft = .ok next → I next)
    {build : Record N ε → σ → Except ε β} {value : β} {start : σ} (initial : I start)
    (done : d.readRecord name fields read start build node = .ok value) :
    ∃ record draft, I draft ∧ build record draft = .ok value := by
  obtain ⟨record, draft, found, members, built⟩ := exists_of_readRecord done
  have all := finite.member node name fields record within found
  exact ⟨record, draft, readMembers_keeps step all initial members, built⟩

theorem forall_of_list (finite : d.FiniteOn P) (within : P node) {part : N → Except ε β}
    {Q : β → Prop} (each : ∀ node value, P node → part node = .ok value → Q value) {values : List β}
    (done : d.list part node = .ok values) : ∀ value ∈ values, Q value := by
  obtain ⟨found, items, _, only⟩ := results_of_list done
  intro value listed
  obtain ⟨item, there, read⟩ := only value listed
  exact each item value (finite.item node found within items item there) read

theorem forall_of_optional (within : P node) {part : N → Except ε β} {Q : β → Prop}
    (each : ∀ node value, P node → part node = .ok value → Q value) {result : Option β}
    (done : d.optional part node = .ok result) : ∀ value ∈ result, Q value := by
  rcases optional_eq_ok_iff.mp done with ⟨_, rfl⟩ | ⟨_, value, read, rfl⟩
  · simp
  · rintro _ ⟨⟩
    exact each node value within read

end Dialect

theorem Record.require_bind_eq_ok_iff {β γ : Type} {record : Record N ε} {position : Nat}
    {field : String} {part : Option β} {build : β → Except ε γ} {result : γ} :
    (record.require position field part >>= build) = .ok result ↔
      ∃ value, part = some value ∧ build value = .ok result := by
  cases part <;> simp [bind_eq_ok_iff, require]

variable {node : N}

theorem Condition.isFinite_of_ofNode (finite : d.FiniteOn P) (within : P node)
    {condition : Condition Binary64} (read : Condition.ofNode d node = .ok condition) :
    condition.isFinite = true := by
  obtain ⟨record, draft, value_finite, built⟩ := Dialect.readRecord_keeps
    (I := fun draft : Condition.Draft => ∀ value ∈ draft.value, value.isFinite = true) finite within
    (by
      intro key node draft next within kept step
      split at step
      case h_1 | h_2 =>
        obtain ⟨_, _, ⟨⟩⟩ := bind_eq_ok_iff.mp step
        exact kept
      · obtain ⟨value, read, ⟨⟩⟩ := bind_eq_ok_iff.mp step
        rintro _ ⟨⟩
        exact finite.expected node value within read)
    (by simp) read
  simp only [Record.require_bind_eq_ok_iff] at built
  obtain ⟨_, _, _, _, value, present, ⟨⟩⟩ := built
  exact value_finite value present

theorem Thresholds.finite_of_ofNode (finite : d.FiniteOn P) (within : P node)
    {thresholds : Thresholds Binary64} (read : Thresholds.ofNode d node = .ok thresholds) :
    thresholds.Finite := by
  obtain ⟨record, draft, ⟨pass_finite, warning_finite⟩, built⟩ := Dialect.readRecord_keeps
    (I := fun draft : Thresholds.Draft => (∀ c ∈ draft.pass, c.isFinite = true) ∧
      ∀ c ∈ draft.warning, c.isFinite = true) finite within
    (by
      intro key node draft next within kept step
      split at step
      · obtain ⟨pass, read, ⟨⟩⟩ := bind_eq_ok_iff.mp step
        refine ⟨?_, kept.2⟩
        rintro _ ⟨⟩
        exact Condition.isFinite_of_ofNode finite within read
      · obtain ⟨warning, read, ⟨⟩⟩ := bind_eq_ok_iff.mp step
        exact ⟨kept.1, Dialect.forall_of_optional within
          (fun _ _ within => Condition.isFinite_of_ofNode finite within) read⟩)
    (by simp) read
  obtain ⟨pass, present, ⟨⟩⟩ := Record.require_bind_eq_ok_iff.mp built
  exact ⟨pass_finite pass present, warning_finite⟩

theorem Rule.finite_of_ofNode (finite : d.FiniteOn P) (within : P node)
    {rule : Rule Binary64} (read : Rule.ofNode d node = .ok rule) : rule.Finite := by
  obtain ⟨record, draft, ⟨checks_finite, thresholds_finite⟩, built⟩ := Dialect.readRecord_keeps
    (I := fun draft : Rule.Draft =>
      (∀ checks ∈ draft.checks, ∀ c ∈ checks, c.isFinite = true) ∧
        ∀ thresholds ∈ draft.thresholds, thresholds.Finite) finite within
    (by
      intro key node draft next within kept step
      split at step
      case h_1 | h_2 | h_3 | h_4 =>
        obtain ⟨_, _, ⟨⟩⟩ := bind_eq_ok_iff.mp step
        exact kept
      · obtain ⟨checks, read, ⟨⟩⟩ := bind_eq_ok_iff.mp step
        refine ⟨Dialect.forall_of_optional within (fun node values within read => ?_) read, kept.2⟩
        exact Dialect.forall_of_list finite within
          (fun _ _ within => Condition.isFinite_of_ofNode finite within) read
      · obtain ⟨thresholds, read, ⟨⟩⟩ := bind_eq_ok_iff.mp step
        exact ⟨kept.1, Dialect.forall_of_optional within
          (fun _ _ within => Thresholds.finite_of_ofNode finite within) read⟩)
    (by simp) read
  simp only [Record.require_bind_eq_ok_iff] at built
  obtain ⟨_, _, _, _, _, _, _, _, ⟨⟩⟩ := built
  exact ⟨checks_finite, thresholds_finite⟩

theorem Category.finite_of_ofNode (finite : d.FiniteOn P) (within : P node)
    {category : Category Binary64} (read : Category.ofNode d node = .ok category) :
    ∀ rule ∈ category.rules, rule.Finite := by
  obtain ⟨record, draft, rules_finite, built⟩ := Dialect.readRecord_keeps
    (I := fun draft : Category.Draft => ∀ rules ∈ draft.rules, ∀ rule ∈ rules, rule.Finite)
    finite within
    (by
      intro key node draft next within kept step
      split at step
      case h_1 | h_2 | h_3 =>
        obtain ⟨_, _, ⟨⟩⟩ := bind_eq_ok_iff.mp step
        exact kept
      · obtain ⟨rules, read, ⟨⟩⟩ := bind_eq_ok_iff.mp step
        rintro _ ⟨⟩
        exact Dialect.forall_of_list finite within
          (fun _ _ within => Rule.finite_of_ofNode finite within) read)
    (by simp) read
  simp only [Record.require_bind_eq_ok_iff] at built
  obtain ⟨_, _, _, _, _, _, rules, present, ⟨⟩⟩ := built
  exact rules_finite rules present

structure NumberTable.Finite (table : NumberTable) : Prop where
  first : ∀ x ∈ table.first, x.isFinite = true
  second : ∀ x ∈ table.second, x.isFinite = true
  third : ∀ x ∈ table.third, x.isFinite = true

inductive NumberTable.Fills (table : NumberTable) (x : Binary64) : NumberTable → Prop where
  | first : Fills table x { table with first := some x }
  | second : Fills table x { table with second := some x }
  | third : Fills table x { table with third := some x }

theorem NumberTable.Fills.finite {table next : NumberTable} {x : Binary64} (fills : table.Fills x next)
    (kept : table.Finite) (finite : x.isFinite = true) : next.Finite := by
  cases fills with
  | first => exact { kept with first := by rintro _ ⟨⟩; exact finite }
  | second => exact { kept with second := by rintro _ ⟨⟩; exact finite }
  | third => exact { kept with third := by rintro _ ⟨⟩; exact finite }

theorem NumberTable.finite_of_readRecord (finite : d.FiniteOn P) (within : P node)
    {β : Type} {fields : List String} {name : String}
    {read : String → N → NumberTable → Except ε NumberTable}
    {build : Record N ε → NumberTable → Except ε β} {value : β}
    (step : ∀ key node table next, read key node table = .ok next →
      ∃ x, d.double node = .ok x ∧ table.Fills x next)
    (done : d.readRecord name fields read {} build node = .ok value) :
    ∃ record table, NumberTable.Finite table ∧ build record table = .ok value := by
  refine Dialect.readRecord_keeps finite within ?_ ⟨by simp, by simp, by simp⟩ done
  intro key node table next within kept done
  obtain ⟨x, double, fills⟩ := step key node table next done
  exact fills.finite kept (finite.double node x within double)

theorem SeverityWeights.isFinite_of_ofNode (finite : d.FiniteOn P) (within : P node)
    {weights : SeverityWeights Binary64} (read : SeverityWeights.ofNode d node = .ok weights) :
    ∀ severity, (weights.weight severity).isFinite = true := by
  obtain ⟨record, table, table_finite, built⟩ := NumberTable.finite_of_readRecord finite within
    (by
      intro key node table next step
      split at step
      all_goals obtain ⟨x, double, ⟨⟩⟩ := bind_eq_ok_iff.mp step
      · exact ⟨x, double, .first⟩
      · exact ⟨x, double, .second⟩
      · exact ⟨x, double, .third⟩)
    read
  simp only [Record.require_bind_eq_ok_iff] at built
  obtain ⟨high, first, medium, second, low, third, ⟨⟩⟩ := built
  intro severity
  cases severity with
  | high => exact table_finite.first high first
  | medium => exact table_finite.second medium second
  | low => exact table_finite.third low third

theorem StatusScores.isFinite_of_ofNode (finite : d.FiniteOn P) (within : P node)
    {scores : StatusScores Binary64} (read : StatusScores.ofNode d node = .ok scores) :
    ∀ status, (scores.share status).isFinite = true := by
  obtain ⟨record, table, table_finite, built⟩ := NumberTable.finite_of_readRecord finite within
    (by
      intro key node table next step
      split at step
      all_goals obtain ⟨x, double, ⟨⟩⟩ := bind_eq_ok_iff.mp step
      · exact ⟨x, double, .first⟩
      · exact ⟨x, double, .second⟩
      · exact ⟨x, double, .third⟩)
    read
  simp only [Record.require_bind_eq_ok_iff] at built
  obtain ⟨pass, first, warning, second, fail, third, ⟨⟩⟩ := built
  intro status
  cases status with
  | pass => exact table_finite.first pass first
  | warning => exact table_finite.second warning second
  | fail => exact table_finite.third fail third

theorem Scoring.finite_standard : (Scoring.standard : Scoring Binary64).Finite := by
  constructor
  · intro severity
    cases severity <;> decide +kernel
  · intro status
    cases status <;> decide +kernel

theorem Scoring.finite_of_ofNode (finite : d.FiniteOn P) (within : P node)
    {scoring : Scoring Binary64} (read : Scoring.ofNode d node = .ok scoring) : scoring.Finite := by
  obtain ⟨record, draft, kept, ⟨⟩⟩ := Dialect.readRecord_keeps
    (I := Scoring.Finite) finite within
    (by
      intro key node draft next within kept step
      split at step
      · obtain ⟨weights, read, ⟨⟩⟩ := bind_eq_ok_iff.mp step
        exact ⟨SeverityWeights.isFinite_of_ofNode finite within read, kept.share⟩
      · obtain ⟨scores, read, ⟨⟩⟩ := bind_eq_ok_iff.mp step
        exact ⟨kept.weight, StatusScores.isFinite_of_ofNode finite within read⟩)
    Scoring.finite_standard read
  exact kept

theorem Catalog.finite_of_ofNode (finite : d.FiniteOn P) (within : P node)
    {catalog : Catalog Binary64} (read : Catalog.ofNode d node = .ok catalog) : catalog.Finite := by
  obtain ⟨record, draft, ⟨scoring_finite, categories_finite⟩, built⟩ := Dialect.readRecord_keeps
    (I := fun draft : Catalog.Draft => draft.scoring.Finite ∧
      ∀ categories ∈ draft.categories, ∀ category ∈ categories, ∀ rule ∈ category.rules, rule.Finite)
    finite within
    (by
      intro key node draft next within kept step
      split at step
      case h_1 | h_2 =>
        obtain ⟨_, _, ⟨⟩⟩ := bind_eq_ok_iff.mp step
        exact kept
      · obtain ⟨scoring, read, ⟨⟩⟩ := bind_eq_ok_iff.mp step
        exact ⟨Scoring.finite_of_ofNode finite within read, kept.2⟩
      · obtain ⟨categories, read, ⟨⟩⟩ := bind_eq_ok_iff.mp step
        refine ⟨kept.1, ?_⟩
        rintro _ ⟨⟩
        exact Dialect.forall_of_list finite within
          (fun _ _ within => Category.finite_of_ofNode finite within) read)
    ⟨Scoring.finite_standard, by simp⟩ read
  simp only [Record.require_bind_eq_ok_iff] at built
  obtain ⟨_, _, categories, present, ⟨⟩⟩ := built
  exact ⟨scoring_finite, categories_finite categories present⟩

end Reading

end PageHealth
