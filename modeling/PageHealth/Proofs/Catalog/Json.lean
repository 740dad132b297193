import PageHealth.Catalog.Source
import PageHealth.Proofs.Catalog.Finite
import PageHealth.Proofs.Json.Document
import PageHealth.Proofs.Json.Finite

namespace PageHealth

open Json (Value ReadError Source)
open Json.Value (ItemsReadable MembersReadable)

section Containers

variable {β : Type} {write : β → Value} {values : List β} {value : Option β} {room : Nat}
  {source : Source} {key : String} {members others : List (String × Value)}

theorem itemsReadable_map (each : ∀ v ∈ values, (write v).Readable room) :
    ItemsReadable room (values.map write) := by
  induction values with
  | nil => trivial
  | cons v values ih =>
    rw [List.forall_mem_cons] at each
    exact ⟨each.1, ih each.2⟩

theorem membersReadable_map {write : β → String × Value}
    (each : ∀ v ∈ values, (write v).2.Readable room) : MembersReadable room (values.map write) := by
  induction values with
  | nil => trivial
  | cons v values ih =>
    rw [List.forall_mem_cons] at each
    exact ⟨each.1, ih each.2⟩

theorem membersReadable_append (first : MembersReadable room members)
    (second : MembersReadable room others) : MembersReadable room (members ++ others) := by
  induction members with
  | nil => exact second
  | cons member members ih => exact ⟨first.1, ih first.2⟩

theorem membersReadable_optionalMember (each : ∀ v ∈ value, (write v).Readable room) :
    MembersReadable room (optionalMember key (value.map write)) := by
  cases value with
  | none => trivial
  | some v => exact ⟨each v rfl, trivial⟩

theorem readable_object (all : MembersReadable room members) :
    (Value.object members none).Readable (room + 1) :=
  ⟨rfl, Nat.succ_pos room, all⟩

theorem readable_array (each : ∀ v ∈ values, (write v).Readable room) :
    (Value.array (values.map write) none).Readable (room + 1) :=
  ⟨rfl, Nat.succ_pos room, itemsReadable_map each⟩

theorem finds_object {name : String} {fields : List String} :
    (Json.dialect source).Finds name fields (.object members none) members :=
  ⟨fun _ field => .missingField field, rfl⟩

theorem optionalMember_eq (part : Option Value) :
    optionalMember key part = Dialect.optionalMember key part := by
  cases part <;> rfl

theorem list_array {part : Value → Except ReadError β}
    (each : ∀ v ∈ values, part (write v) = .ok v) :
    (Json.dialect source).list part (.array (values.map write) none) = .ok values :=
  (Dialect.list_eq_ok_iff rfl).mpr each

end Containers

section Writing

variable {room : Nat}

theorem Expected.readable_toValue {value : Expected Binary64} (finite : value.isFinite = true) :
    value.toValue.Readable (room + 1) := by
  cases value with
  | bool b => trivial
  | number x => exact finite
  | text s => trivial
  | range least greatest =>
    obtain ⟨least_finite, greatest_finite⟩ := Bool.and_eq_true_iff.mp finite
    exact ⟨rfl, Nat.succ_pos room, least_finite, greatest_finite, trivial⟩

theorem Condition.readable_toValue {condition : Condition Binary64}
    (finite : condition.isFinite = true) : condition.toValue.Readable (room + 2) := by
  have value := @Expected.readable_toValue room condition.value finite
  exact readable_object ⟨trivial, trivial, value, trivial⟩

theorem Thresholds.readable_toValue {thresholds : Thresholds Binary64} (finite : thresholds.Finite) :
    thresholds.toValue.Readable (room + 3) := by
  have pass := @Condition.readable_toValue room _ finite.pass
  have warning (c : Condition Binary64) (present : c ∈ thresholds.warning) :=
    @Condition.readable_toValue room c (finite.warning c present)
  exact readable_object ⟨pass, membersReadable_optionalMember warning⟩

theorem Rule.readable_toValue {rule : Rule Binary64} (finite : rule.Finite) :
    rule.toValue.Readable (room + 4) := by
  apply readable_object
  apply membersReadable_append
  · apply membersReadable_append
    · exact ⟨trivial, trivial, trivial, trivial, trivial⟩
    · apply membersReadable_optionalMember
      intro checks present
      apply readable_array
      exact fun condition listed => Condition.readable_toValue (finite.checks checks present condition listed)
  · apply membersReadable_optionalMember
    exact fun thresholds present => Thresholds.readable_toValue (finite.thresholds thresholds present)

theorem Category.readable_toValue {category : Category Binary64}
    (finite : ∀ rule ∈ category.rules, rule.Finite) : category.toValue.Readable (room + 6) := by
  have points : (Json.Number.integer category.maxPoints.toNat).isReadable = true := by
    have below := category.maxPoints.toNat_lt
    simp only [Json.Number.isReadable, Bool.and_eq_true, decide_eq_true_eq]
    omega
  have rules := @readable_array _ Rule.toValue category.rules (room + 4)
    fun rule listed => Rule.readable_toValue (finite rule listed)
  exact readable_object ⟨trivial, trivial, points, rules, trivial⟩

theorem Scoring.readable_toValue {scoring : Scoring Binary64} (finite : scoring.Finite) :
    scoring.toValue.Readable (room + 2) := by
  have weights : scoring.severityWeights.toValue.Readable (room + 1) :=
    readable_object ⟨finite.weight .high, finite.weight .medium, finite.weight .low, trivial⟩
  have scores : scoring.statusScores.toValue.Readable (room + 1) :=
    readable_object ⟨finite.share .pass, finite.share .warning, finite.share .fail, trivial⟩
  exact readable_object ⟨weights, scores, trivial⟩

theorem Catalog.readable_toValue {catalog : Catalog Binary64} (finite : catalog.Finite) :
    catalog.toValue.Readable (room + 8) := by
  have scoring := @Scoring.readable_toValue (room + 5) _ finite.scoring
  have categories := @readable_array _ Category.toValue catalog.categories (room + 6)
    fun category listed => Category.readable_toValue (finite.rule category listed)
  exact readable_object ⟨trivial, trivial, scoring, categories, trivial⟩

end Writing

section Reading

variable (source : Source)

theorem Expected.expectedOf_toValue (value : Expected Binary64) :
    Json.expectedOf value.toValue = .ok value := by
  cases value <;> rfl

theorem count_toNat (n : UInt32) :
    (Json.dialect source).count (.number (.integer n.toNat)) = .ok n := by
  have below := n.toNat_lt
  have read : (Json.dialect source).count = Json.countOf := rfl
  rw [read, Json.countOf, if_pos (by omega), Int.toNat_natCast, UInt32.ofNat_toNat]

theorem Severity.severityOf_name (severity : Severity) :
    Json.severityOf source (.text severity.name) = .ok severity := by
  cases severity <;> cases source <;> rfl

theorem Condition.ofNode_toValue (condition : Condition Binary64) :
    Condition.ofNode (Json.dialect source) condition.toValue = .ok condition := by
  have value := condition.value.expectedOf_toValue
  refine (Condition.ofNode_of_finds finds_object).trans ?_
  simp only [bind_eq_ok_iff]
  exact ⟨_, rfl, _, rfl, _, value, rfl⟩

theorem Thresholds.ofNode_toValue (thresholds : Thresholds Binary64) :
    Thresholds.ofNode (Json.dialect source) thresholds.toValue = .ok thresholds := by
  have pass := Condition.ofNode_toValue source thresholds.pass
  have warning := (@Dialect.readOptional_eq_ok_iff _ _ _ (Json.dialect source) _ _
    thresholds.warning fun _ _ => rfl).mpr fun condition _ => Condition.ofNode_toValue source condition
  rw [toValue, optionalMember_eq, Thresholds.ofNode_of_finds finds_object]
  simp only [bind_eq_ok_iff]
  exact ⟨_, pass, _, warning, rfl⟩

theorem Rule.ofNode_toValue (rule : Rule Binary64) :
    Rule.ofNode (Json.dialect source) rule.toValue = .ok rule := by
  have severity := rule.severity.severityOf_name source
  have listed (checks : List (Condition Binary64)) := @list_array _ _ checks source _
    fun condition _ => Condition.ofNode_toValue source condition
  have checks := (@Dialect.readOptional_eq_ok_iff _ _ _ (Json.dialect source) _ _
    rule.checks fun _ _ => rfl).mpr fun checks _ => listed checks
  have thresholds := (@Dialect.readOptional_eq_ok_iff _ _ _ (Json.dialect source) _ _
    rule.thresholds fun _ _ => rfl).mpr fun thresholds _ => Thresholds.ofNode_toValue source thresholds
  rw [toValue, optionalMember_eq, optionalMember_eq, Rule.ofNode_of_finds finds_object]
  simp only [bind_eq_ok_iff]
  exact ⟨_, rfl, _, severity, _, rfl, _, rfl, _, checks, _, thresholds, rfl⟩

theorem Category.ofNode_toValue (category : Category Binary64) :
    Category.ofNode (Json.dialect source) category.toValue = .ok category := by
  have points := count_toNat source category.maxPoints
  have rules := @list_array _ _ category.rules source _
    fun rule _ => Rule.ofNode_toValue source rule
  refine (Category.ofNode_of_finds finds_object).trans ?_
  simp only [bind_eq_ok_iff]
  exact ⟨_, rfl, _, rfl, _, points, _, rules, rfl⟩

theorem Scoring.ofNode_toValue (scoring : Scoring Binary64) :
    Scoring.ofNode (Json.dialect source) scoring.toValue = .ok scoring := by
  have weights : SeverityWeights.ofNode (Json.dialect source) scoring.severityWeights.toValue =
      .ok scoring.severityWeights := by
    refine (SeverityWeights.ofNode_of_finds finds_object).trans ?_
    rfl
  have scores : StatusScores.ofNode (Json.dialect source) scoring.statusScores.toValue =
      .ok scoring.statusScores := by
    refine (StatusScores.ofNode_of_finds finds_object).trans ?_
    rfl
  refine (Scoring.ofNode_of_finds finds_object).trans ?_
  simp only [bind_eq_ok_iff]
  exact ⟨_, weights, _, scores, rfl⟩

theorem Catalog.ofNode_toValue (catalog : Catalog Binary64) :
    Catalog.ofNode (Json.dialect source) catalog.toValue = .ok catalog := by
  have scoring := catalog.scoring.ofNode_toValue source
  have categories := @list_array _ _ catalog.categories source _
    fun category _ => Category.ofNode_toValue source category
  refine (Catalog.ofNode_of_finds finds_object).trans ?_
  simp only [bind_eq_ok_iff]
  exact ⟨_, rfl, _, rfl, _, scoring, _, categories, rfl⟩

end Reading

namespace Catalog

variable {catalog : Catalog Binary64} {text : String}

theorem parse_json_eq_ok_iff : parse .json text = .ok catalog ↔ ofJson text = .ok catalog :=
  mapError_eq_ok_iff

theorem ofJson_toJson (finite : catalog.Finite) : ofJson catalog.toJson = .ok catalog := by
  have document : Json.Document.ofText catalog.toJson = ⟨catalog.toValue, none⟩ :=
    Json.ofText_compact (@readable_toValue 119 catalog finite)
  rw [ofJson, document]
  refine bind_eq_ok_iff.mpr ⟨catalog, catalog.ofNode_toValue .text, ?_⟩
  rfl

theorem finite_of_ofJson (read : ofJson text = .ok catalog) : catalog.Finite := by
  obtain ⟨_, root, behind⟩ := bind_eq_ok_iff.mp read
  obtain ⟨_, _, ⟨⟩⟩ := bind_eq_ok_iff.mp behind
  exact finite_of_ofNode (Json.dialect_finiteOn .text) (Json.numeric_ofText text) root

theorem parse_toJson_iff (catalog : Catalog Binary64) :
    (parse .json catalog.toJson = .ok catalog ↔ catalog.Finite) ∧
      ∀ text, parse .json text = .ok catalog → parse .json catalog.toJson = .ok catalog := by
  have back (finite : catalog.Finite) : parse .json catalog.toJson = .ok catalog :=
    parse_json_eq_ok_iff.mpr (ofJson_toJson finite)
  have finite {text : String} (read : parse .json text = .ok catalog) : catalog.Finite :=
    finite_of_ofJson (parse_json_eq_ok_iff.mp read)
  constructor
  · exact ⟨finite, back⟩
  · intro text read
    exact back (finite read)

def ofBounds (least greatest : Binary64) : Catalog Binary64 where
  version := "1.0.0\n"
  engine := "\"quoted\""
  scoring := Scoring.standard
  categories := [⟨"title", "", 4294967295,
    [⟨"empty", .low, "Tab\t", "", some [], none⟩,
     ⟨"length", .high, "", "", none,
      some ⟨⟨"title.length", "between", .range least greatest⟩, none⟩⟩]⟩]

theorem finite_ofBounds {least greatest : Binary64} (low : least.isFinite = true)
    (high : greatest.isFinite = true) : (ofBounds least greatest).Finite where
  scoring := Scoring.finite_standard
  rule := by
    intro category listed rule member
    obtain rfl := List.mem_singleton.mp listed
    simp only [List.mem_cons, List.not_mem_nil, or_false] at member
    rcases member with rfl | rfl
    · exact ⟨by simp, by simp⟩
    · refine ⟨by simp, ?_⟩
      rintro _ ⟨⟩
      exact ⟨Bool.and_eq_true_iff.mpr ⟨low, high⟩, by simp⟩

theorem parse_toJson_ofBounds :
    parse .json (ofBounds (.zero true) (.ofNat (10 ^ 300))).toJson =
      .ok (ofBounds (.zero true) (.ofNat (10 ^ 300))) := by
  have finite : (ofBounds (.zero true) (.ofNat (10 ^ 300))).Finite :=
    finite_ofBounds (by decide) (by decide +kernel)
  have back := (parse_toJson_iff (ofBounds (.zero true) (.ofNat (10 ^ 300)))).1.mpr finite
  exact (parse_toJson_iff (ofBounds (.zero true) (.ofNat (10 ^ 300)))).2 _ back

end Catalog

end PageHealth
