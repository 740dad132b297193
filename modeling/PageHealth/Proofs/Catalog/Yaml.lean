import PageHealth.Catalog.Source
import PageHealth.Proofs.Catalog.Accepted
import PageHealth.Proofs.Catalog.Document
import PageHealth.Proofs.Catalog.Finite
import PageHealth.Proofs.Catalog.Places
import PageHealth.Proofs.Yaml.Document
import PageHealth.Proofs.Yaml.Typed

/-! A catalog is read back from the YAML that is written for it, if the notation keeps its texts. What
each text needs depends on the column of its block. -/
namespace PageHealth

open Yaml (Node IsKey fitsBlock keepsText isBare spellsNumber textOf_ofText)

section Conditions

def Expected.fitsBlocks : Expected Binary64 → Bool
  | .text s => fitsBlock 14 s
  | _ => true

/-- A text that stands for a value must not spell a number either, unless it gets quotes. -/
def Expected.keepsTexts : Expected Binary64 → Bool
  | .text s => keepsText s && !(isBare s && spellsNumber s)
  | _ => true

def Condition.fitsBlocks (condition : Condition Binary64) : Bool :=
  fitsBlock 14 condition.field && fitsBlock 14 condition.operator && condition.value.fitsBlocks

def Condition.keepsTexts (condition : Condition Binary64) : Bool :=
  keepsText condition.field && keepsText condition.operator && condition.value.keepsTexts

def Rule.fitsBlocks (rule : Rule Binary64) : Bool :=
  fitsBlock 10 rule.id && fitsBlock 10 rule.message && fitsBlock 10 rule.recommendation &&
    rule.conditions.all fun (_, condition) => condition.fitsBlocks

def Rule.keepsTexts (rule : Rule Binary64) : Bool :=
  keepsText rule.id && keepsText rule.message && keepsText rule.recommendation &&
    rule.conditions.all fun (_, condition) => condition.keepsTexts

def Category.fitsBlocks (category : Category Binary64) : Bool :=
  fitsBlock 6 category.id && fitsBlock 6 category.name && category.rules.all Rule.fitsBlocks

def Category.keepsTexts (category : Category Binary64) : Bool :=
  keepsText category.id && keepsText category.name && category.rules.all Rule.keepsTexts

def Catalog.fitsBlocks (catalog : Catalog Binary64) : Bool :=
  fitsBlock 2 catalog.version && fitsBlock 2 catalog.engine &&
    catalog.categories.all Category.fitsBlocks

def Catalog.keepsTexts (catalog : Catalog Binary64) : Bool :=
  keepsText catalog.version && keepsText catalog.engine &&
    catalog.categories.all Category.keepsTexts

end Conditions

section Values

variable {x : Binary64} {column : Nat}

theorem kept_ofBinary64 (finite : x.isFinite = true) : (Node.ofBinary64 x).Kept column :=
  Yaml.isWord_write finite

theorem double_asRead (finite : x.isFinite = true) :
    Yaml.dialect.double (Node.ofBinary64 x).asRead = .ok x := by
  have same : (Node.ofBinary64 x).asRead = Node.ofBinary64 x := rfl
  have read : Yaml.dialect.double = Yaml.doubleOf := rfl
  rw [same, read]
  exact Yaml.doubleOf_ofBinary64 finite

theorem count_asRead (n : UInt32) : Yaml.dialect.count (Node.ofNat n.toNat).asRead = .ok n := by
  have same : (Node.ofNat n.toNat).asRead = Node.ofNat n.toNat := rfl
  have read : Yaml.dialect.count = Yaml.countOf := rfl
  rw [same, read]
  exact Yaml.countOf_ofNat n

theorem kept_ofText {text : String} (block : fitsBlock (column + 2) text = true) :
    (Node.ofText text).Kept column :=
  block

theorem isKey_of_all {key : String} (nonempty : key.toList ≠ [])
    (letters : key.toList.all Char.isAlphanum = true) : IsKey key.toList :=
  ⟨nonempty, fun c member => List.all_eq_true.mp letters c member⟩

variable {value : Expected Binary64}

theorem Expected.kept_toNode (finite : value.isFinite = true) (blocks : value.fitsBlocks = true) :
    value.toNode.Kept 12 := by
  cases value with
  | bool b => exact Yaml.isWord_ofBool b
  | number x => exact kept_ofBinary64 finite
  | text s => exact kept_ofText blocks
  | range least greatest =>
    simp only [isFinite, Bool.and_eq_true] at finite
    exact ⟨by simp, rfl, kept_ofBinary64 finite.1, rfl, kept_ofBinary64 finite.2, trivial⟩

theorem Expected.expectedOf_toNode (finite : value.isFinite = true) :
    Yaml.expectedOf value.toNode.asRead = .ok value ↔ value.keepsTexts = true := by
  cases value with
  | bool b => cases b <;> exact iff_of_true rfl rfl
  | number x =>
    have shown : (Node.scalar true none (Yaml.numberNotation.write x)).isNull = false :=
      Yaml.isNullText_write finite
    refine iff_of_true ?_ rfl
    change Yaml.expectedOf (.scalar true none (Yaml.numberNotation.write x)) = _
    simp only [Yaml.expectedOf, shown, Yaml.plainExpected_write finite]
    rfl
  | text s =>
    simp only [keepsTexts, Bool.and_eq_true, Bool.not_eq_true']
    exact Yaml.expectedOf_ofText
  | range least greatest =>
    simp only [isFinite, Bool.and_eq_true] at finite
    refine iff_of_true ?_ rfl
    change Yaml.expectedOf (.sequence [.scalar true none (Yaml.numberNotation.write least),
      .scalar true none (Yaml.numberNotation.write greatest)]) = _
    simp only [Yaml.expectedOf, Yaml.plainExpected_write finite.1, Yaml.plainExpected_write finite.2]

end Values

section Lists

open Yaml.Node (ItemsKept MembersKept itemsAsRead membersAsRead)

variable {β : Type} {write : β → Node} {values : List β} {column : Nat}

theorem itemsAsRead_map : itemsAsRead (values.map write) = values.map fun v => (write v).asRead := by
  induction values with
  | nil => rfl
  | cons value values ih => exact congrArg (_ :: ·) ih

theorem itemsKept_map (each : ∀ value ∈ values, (write value).isEntry ∧ (write value).Kept column) :
    ItemsKept column (values.map write) := by
  induction values with
  | nil => trivial
  | cons value values ih =>
    obtain ⟨entry, kept⟩ := each value List.mem_cons_self
    exact ⟨entry, kept, ih fun other member => each other (List.mem_cons_of_mem _ member)⟩

theorem kept_sequence (some : values ≠ [])
    (each : ∀ value ∈ values, (write value).isEntry ∧ (write value).Kept (column + 2)) :
    (Node.sequence (values.map write)).Kept column :=
  ⟨by simpa using some, itemsKept_map each⟩

theorem list_sequence {part : Node → Except Yaml.Fault β} :
    Yaml.dialect.list part (Node.sequence (values.map write)).asRead = .ok values ↔
      ∀ value ∈ values, part (write value).asRead = .ok value := by
  have items : Yaml.dialect.items (Node.sequence (values.map write)).asRead =
      .ok ⟨values.map fun value => (write value).asRead, .ok ()⟩ := by
    rw [← itemsAsRead_map]
    rfl
  exact Dialect.list_eq_ok_iff items

theorem membersKept_append {members others : List (String × Node)} (first : MembersKept column members)
    (second : MembersKept column others) : MembersKept column (members ++ others) := by
  induction members with
  | nil => exact second
  | cons member members ih => exact ⟨first.1, first.2.1, ih first.2.2⟩

theorem membersAsRead_append {members others : List (String × Node)} :
    membersAsRead (members ++ others) = membersAsRead members ++ membersAsRead others := by
  induction members with
  | nil => rfl
  | cons member members ih => exact congrArg (_ :: ·) ih

variable {key : String} {value : Option β}

theorem membersKept_optionalNode (isKey : IsKey key.toList)
    (each : ∀ v ∈ value, (write v).Kept column) :
    MembersKept column (optionalNode key (value.map write)) := by
  cases value with
  | none => trivial
  | some v => exact ⟨isKey, each v rfl, trivial⟩

theorem membersAsRead_optionalNode : membersAsRead (optionalNode key (value.map write)) =
    Dialect.optionalMember key (value.map fun v => (write v).asRead) := by
  cases value <;> rfl

theorem finds_mapping {name : String} {fields : List String} {members : List (String × Node)} :
    Yaml.dialect.Finds name fields (.mapping members) members :=
  ⟨fun _ field => .missingField field, rfl⟩

end Lists

section Structures

variable {condition : Condition Binary64} {thresholds : Thresholds Binary64} {rule : Rule Binary64}
  {category : Category Binary64} {scoring : Scoring Binary64}

theorem Condition.kept_toNode (finite : condition.value.isFinite = true)
    (blocks : condition.fitsBlocks = true) : condition.toNode.Kept 10 := by
  simp only [fitsBlocks, Bool.and_eq_true] at blocks
  exact ⟨by simp, isKey_of_all (by decide) (by decide), kept_ofText blocks.1.1,
    isKey_of_all (by decide) (by decide), kept_ofText blocks.1.2,
    isKey_of_all (by decide) (by decide), Expected.kept_toNode finite blocks.2, trivial⟩

theorem Condition.ofNode_toNode (finite : condition.value.isFinite = true) :
    Condition.ofNode Yaml.dialect condition.toNode.asRead = .ok condition ↔
      condition.keepsTexts = true := by
  have read := @Condition.ofNode_of_finds _ _ Yaml.dialect _ (Node.ofText condition.field).asRead
    (Node.ofText condition.operator).asRead condition.value.toNode.asRead finds_mapping
  have field := @textOf_ofText condition.field
  have operator := @textOf_ofText condition.operator
  have value := Expected.expectedOf_toNode finite
  simp only [keepsTexts, Bool.and_eq_true, ← field, ← operator, ← value]
  refine (Eq.congr_left read).trans ?_
  simp only [bind_eq_ok_iff]
  constructor
  · rintro ⟨_, first, _, second, _, third, ⟨⟩⟩
    exact ⟨⟨first, second⟩, third⟩
  · rintro ⟨⟨first, second⟩, third⟩
    exact ⟨_, first, _, second, _, third, rfl⟩

theorem Thresholds.kept_toNode (pass : thresholds.pass.toNode.Kept 10)
    (warning : ∀ condition ∈ thresholds.warning, condition.toNode.Kept 10) :
    thresholds.toNode.Kept 8 :=
  ⟨by simp, isKey_of_all (by decide) (by decide), pass,
    membersKept_optionalNode (isKey_of_all (by decide) (by decide)) warning⟩

theorem Thresholds.ofNode_toNode :
    Thresholds.ofNode Yaml.dialect thresholds.toNode.asRead = .ok thresholds ↔
      Condition.ofNode Yaml.dialect thresholds.pass.toNode.asRead = .ok thresholds.pass ∧
        ∀ condition ∈ thresholds.warning,
          Condition.ofNode Yaml.dialect condition.toNode.asRead = .ok condition := by
  have whole : thresholds.toNode.asRead = .mapping (("pass", thresholds.pass.toNode.asRead) ::
      Dialect.optionalMember "warning" (thresholds.warning.map fun c => c.toNode.asRead)) := by
    rw [← membersAsRead_optionalNode]
    rfl
  rw [whole, Thresholds.ofNode_of_finds finds_mapping]
  have warning := @Dialect.readOptional_eq_ok_iff _ _ _ Yaml.dialect (Condition.ofNode Yaml.dialect)
    (fun c => c.toNode.asRead) thresholds.warning fun _ _ => rfl
  simp only [← warning, bind_eq_ok_iff]
  constructor
  · rintro ⟨_, first, _, second, ⟨⟩⟩
    exact ⟨first, second⟩
  · rintro ⟨first, second⟩
    exact ⟨_, first, _, second, rfl⟩

theorem severityOf_ofText (severity : Severity) :
    Yaml.dialect.severity (Node.ofText severity.name).asRead = .ok severity := by
  cases severity <;> rfl

theorem fitsBlock_severity (severity : Severity) : fitsBlock 10 severity.name = true := by
  cases severity <;> rfl

theorem Rule.kept_toNode (checked : rule.checks ≠ some [])
    (each : ∀ placed ∈ rule.conditions, placed.2.toNode.Kept 10) (blocks : rule.fitsBlocks = true) :
    rule.toNode.Kept 6 := by
  obtain ⟨checks, graded⟩ := (Rule.forall_conditions (P := fun c => c.toNode.Kept 10)).mp each
  simp only [fitsBlocks, Bool.and_eq_true] at blocks
  obtain ⟨⟨⟨id, message⟩, recommendation⟩, _⟩ := blocks
  refine ⟨by simp, membersKept_append (membersKept_append ?_ ?_) ?_⟩
  · exact ⟨isKey_of_all (by decide) (by decide), kept_ofText id,
      isKey_of_all (by decide) (by decide), kept_ofText (fitsBlock_severity rule.severity),
      isKey_of_all (by decide) (by decide), kept_ofText message,
      isKey_of_all (by decide) (by decide), kept_ofText recommendation, trivial⟩
  · refine membersKept_optionalNode (isKey_of_all (by decide) (by decide)) fun conditions present => ?_
    exact kept_sequence (fun none => checked (none ▸ present)) fun condition member =>
      ⟨rfl, checks conditions present condition member⟩
  · refine membersKept_optionalNode (isKey_of_all (by decide) (by decide)) fun thresholds present => ?_
    obtain ⟨pass, warning⟩ := graded thresholds present
    exact Thresholds.kept_toNode pass warning

theorem Rule.ofNode_toNode (finite : ∀ placed ∈ rule.conditions, placed.2.value.isFinite = true) :
    Rule.ofNode Yaml.dialect rule.toNode.asRead = .ok rule ↔ rule.keepsTexts = true := by
  have whole : rule.toNode.asRead = .mapping
      ([("id", (Node.ofText rule.id).asRead), ("severity", (Node.ofText rule.severity.name).asRead),
        ("message", (Node.ofText rule.message).asRead),
        ("recommendation", (Node.ofText rule.recommendation).asRead)] ++
        Dialect.optionalMember "checks"
          (rule.checks.map fun cs => (Node.sequence (cs.map Condition.toNode)).asRead) ++
        Dialect.optionalMember "thresholds" (rule.thresholds.map fun t => t.toNode.asRead)) := by
    rw [← membersAsRead_optionalNode, ← membersAsRead_optionalNode]
    refine congrArg Node.mapping ?_
    rw [membersAsRead_append, membersAsRead_append]
    rfl
  have checks := @Dialect.readOptional_eq_ok_iff _ _ _ Yaml.dialect
    (Yaml.dialect.list (Condition.ofNode Yaml.dialect))
    (fun cs => (Node.sequence (cs.map Condition.toNode)).asRead) rule.checks fun _ _ => rfl
  have thresholds := @Dialect.readOptional_eq_ok_iff _ _ _ Yaml.dialect
    (Thresholds.ofNode Yaml.dialect) (fun t => t.toNode.asRead) rule.thresholds fun _ _ => rfl
  simp only [list_sequence] at checks
  simp only [Thresholds.ofNode_toNode] at thresholds
  have conditions : (∀ placed ∈ rule.conditions, placed.2.keepsTexts = true) ↔ _ :=
    (forall₂_congr fun placed member => (Condition.ofNode_toNode (finite placed member)).symm).trans
      (Rule.forall_conditions
        (P := fun c => Condition.ofNode Yaml.dialect c.toNode.asRead = .ok c))
  rw [whole, Rule.ofNode_of_finds finds_mapping]
  simp only [keepsTexts, Bool.and_eq_true, List.all_eq_true, conditions, ← checks, ← thresholds,
    ← textOf_ofText, bind_eq_ok_iff]
  constructor
  · rintro ⟨_, id, _, _, _, message, _, recommendation, _, checks, _, thresholds, ⟨⟩⟩
    exact ⟨⟨⟨id, message⟩, recommendation⟩, checks, thresholds⟩
  · rintro ⟨⟨⟨id, message⟩, recommendation⟩, checks, thresholds⟩
    exact ⟨_, id, _, severityOf_ofText _, _, message, _, recommendation, _, checks, _, thresholds, rfl⟩

theorem Category.kept_toNode (some : category.rules ≠ [])
    (each : ∀ rule ∈ category.rules, rule.toNode.Kept 6) (blocks : category.fitsBlocks = true) :
    category.toNode.Kept 2 := by
  simp only [fitsBlocks, Bool.and_eq_true] at blocks
  obtain ⟨⟨id, name⟩, _⟩ := blocks
  exact ⟨by simp, isKey_of_all (by decide) (by decide), kept_ofText id,
    isKey_of_all (by decide) (by decide), kept_ofText name,
    isKey_of_all (by decide) (by decide), Yaml.isWord_digitsText _,
    isKey_of_all (by decide) (by decide),
    kept_sequence some fun rule member => ⟨rfl, each rule member⟩, trivial⟩

theorem Category.ofNode_toNode
    (finite : ∀ rule ∈ category.rules, ∀ placed ∈ rule.conditions, placed.2.value.isFinite = true) :
    Category.ofNode Yaml.dialect category.toNode.asRead = .ok category ↔
      category.keepsTexts = true := by
  have read := @Category.ofNode_of_finds _ _ Yaml.dialect _ (Node.ofText category.id).asRead
    (Node.ofText category.name).asRead (Node.ofNat category.maxPoints.toNat).asRead
    (Node.sequence (category.rules.map Rule.toNode)).asRead finds_mapping
  have points := count_asRead category.maxPoints
  have rules : (∀ rule ∈ category.rules, rule.keepsTexts = true) ↔ _ :=
    (forall₂_congr fun rule member => (Rule.ofNode_toNode (finite rule member)).symm).trans
      (@list_sequence _ Rule.toNode category.rules (Rule.ofNode Yaml.dialect)).symm
  refine (Eq.congr_left read).trans ?_
  simp only [keepsTexts, Bool.and_eq_true, List.all_eq_true, rules, ← textOf_ofText, bind_eq_ok_iff]
  constructor
  · rintro ⟨_, id, _, name, _, _, _, rules, ⟨⟩⟩
    exact ⟨⟨id, name⟩, rules⟩
  · rintro ⟨⟨id, name⟩, rules⟩
    exact ⟨_, id, _, name, _, points, _, rules, rfl⟩

theorem Scoring.Sound.share_finite (sound : scoring.Sound) (status : Status) :
    (scoring.statusScores.share status).isFinite = true :=
  Binary64.isFinite_of_le (sound.share_nonneg status) (sound.share_le_one status)
    Binary64.isFinite_one

theorem Scoring.kept_toNode (sound : scoring.Sound) : scoring.toNode.Kept 0 := by
  have weight (severity : Severity) := @kept_ofBinary64 _ 2 (sound.weight_finite severity)
  have share (status : Status) := @kept_ofBinary64 _ 2 (sound.share_finite status)
  refine ⟨by simp, isKey_of_all (by decide) (by decide), ⟨by simp [Severity.all], ?_⟩,
    isKey_of_all (by decide) (by decide), ⟨by simp [Status.all], ?_⟩, trivial⟩
  · exact ⟨isKey_of_all (by decide) (by decide), weight .high, isKey_of_all (by decide) (by decide),
      weight .medium, isKey_of_all (by decide) (by decide), weight .low, trivial⟩
  · exact ⟨isKey_of_all (by decide) (by decide), share .pass, isKey_of_all (by decide) (by decide),
      share .warning, isKey_of_all (by decide) (by decide), share .fail, trivial⟩

theorem Scoring.ofNode_toNode (sound : scoring.Sound) :
    Scoring.ofNode Yaml.dialect scoring.toNode.asRead = .ok scoring := by
  have weight (severity : Severity) := double_asRead (sound.weight_finite severity)
  have share (status : Status) := double_asRead (sound.share_finite status)
  have weights : SeverityWeights.ofNode Yaml.dialect scoring.severityWeights.toNode.asRead =
      .ok scoring.severityWeights := by
    refine (SeverityWeights.ofNode_of_finds finds_mapping).trans ?_
    simp only [bind_eq_ok_iff]
    exact ⟨_, weight .high, _, weight .medium, _, weight .low, rfl⟩
  have scores : StatusScores.ofNode Yaml.dialect scoring.statusScores.toNode.asRead =
      .ok scoring.statusScores := by
    refine (StatusScores.ofNode_of_finds finds_mapping).trans ?_
    simp only [bind_eq_ok_iff]
    exact ⟨_, share .pass, _, share .warning, _, share .fail, rfl⟩
  refine (Scoring.ofNode_of_finds finds_mapping).trans ?_
  simp only [bind_eq_ok_iff]
  exact ⟨_, weights, _, scores, rfl⟩

end Structures

namespace Catalog

variable {catalog : Catalog Binary64}

def prefaceLines : List Yaml.Line := Yaml.linesOf yamlPreface.toList

theorem prefaceLines_idle : Yaml.textOfLines prefaceLines = yamlPreface.toList ∧
    (∀ line ∈ prefaceLines, Yaml.FitsLine line.text) ∧
      (∀ line ∈ prefaceLines, line.normal.isIdle = true) ∧
        (Yaml.textOfLines prefaceLines).head? = some '#' := by
  decide +kernel

def yamlMembers (catalog : Catalog Binary64) : List (String × Node) :=
  [("version", Node.ofText catalog.version), ("engine", Node.ofText catalog.engine),
   ("scoring", catalog.scoring.toNode),
   ("categories", .sequence (catalog.categories.map Category.toNode))]

theorem toList_toYaml : catalog.toYaml.toList =
    Yaml.textOfLines (prefaceLines ++ Node.membersLines 0 catalog.yamlMembers) := by
  rw [toYaml, String.toList_append, Yaml.textOfLines_append, prefaceLines_idle.1, Node.write,
    String.toList_ofList]
  rfl

theorem ofChars_toYaml (kept : Node.MembersKept 0 catalog.yamlMembers) :
    Node.ofChars catalog.toYaml.toList = .ok (.mapping (Node.membersAsRead catalog.yamlMembers)) := by
  obtain ⟨_, fits, idle, head⟩ := prefaceLines_idle
  obtain ⟨more, starts⟩ := List.head?_eq_some_iff.mp head
  rw [toList_toYaml]
  exact Yaml.ofChars_membersLines fits idle starts (by decide) kept (by simp [yamlMembers])

theorem membersKept_yamlMembers (sound : catalog.Sound)
    (finite : ∀ placed ∈ catalog.conditions, placed.2.value.isFinite = true)
    (blocks : catalog.fitsBlocks = true) : Node.MembersKept 0 catalog.yamlMembers := by
  simp only [fitsBlocks, Bool.and_eq_true, List.all_eq_true] at blocks
  obtain ⟨⟨version, engine⟩, categories⟩ := blocks
  have finite := (forall_conditions (P := fun c => c.value.isFinite = true)).mp finite
  have category_kept : ∀ category ∈ catalog.categories, category.toNode.Kept 2 := by
    intro category listed
    have blocks := categories category listed
    have rules := blocks
    simp only [Category.fitsBlocks, Bool.and_eq_true, List.all_eq_true] at rules
    refine Category.kept_toNode (sound.category category listed).rules_nonempty
      (fun rule member => ?_) blocks
    obtain ⟨place, mode⟩ := (sound.category category listed).modes rule member
    have conditions := rules.2 rule member
    simp only [Rule.fitsBlocks, Bool.and_eq_true, List.all_eq_true] at conditions
    exact Rule.kept_toNode (Rule.checks_ne_nil_of_modeProblems_eq_nil mode)
      (fun placed present => Condition.kept_toNode
        (finite category listed rule member placed present) (conditions.2 placed present))
      (rules.2 rule member)
  have some : catalog.categories ≠ [] := fun none => sound.points_pos (by rw [totalMaxPoints, none]; rfl)
  exact ⟨isKey_of_all (by decide) (by decide), kept_ofText version,
    isKey_of_all (by decide) (by decide), kept_ofText engine,
    isKey_of_all (by decide) (by decide), Scoring.kept_toNode sound.scoring,
    isKey_of_all (by decide) (by decide),
    kept_sequence some fun category member => ⟨rfl, category_kept category member⟩, trivial⟩

theorem ofYaml_toYaml_iff (accepted : catalog.problems = [])
    (finite : ∀ placed ∈ catalog.conditions, placed.2.value.isFinite = true)
    (blocks : catalog.fitsBlocks = true) :
    ofYaml catalog.toYaml = .ok catalog ↔ catalog.keepsTexts = true := by
  have sound := sound_of_problems_eq_nil accepted
  have kept := membersKept_yamlMembers sound finite blocks
  have finite := (forall_conditions (P := fun c => c.value.isFinite = true)).mp finite
  have categories : (∀ category ∈ catalog.categories, category.keepsTexts = true) ↔ _ :=
    (forall₂_congr fun category member => (Category.ofNode_toNode (finite category member)).symm).trans
      (@list_sequence _ Category.toNode catalog.categories (Category.ofNode Yaml.dialect)).symm
  rw [ofYaml, ofChars_toYaml kept]
  refine (Eq.congr_left (ofNode_of_finds finds_mapping)).trans ?_
  simp only [keepsTexts, Bool.and_eq_true, List.all_eq_true, categories, ← textOf_ofText,
    bind_eq_ok_iff]
  constructor
  · rintro ⟨_, version, _, engine, _, _, _, categories, ⟨⟩⟩
    exact ⟨⟨version, engine⟩, categories⟩
  · rintro ⟨⟨version, engine⟩, categories⟩
    exact ⟨_, version, _, engine, _, Scoring.ofNode_toNode sound.scoring, _, categories, rfl⟩

theorem parse_yaml_eq_ok_iff {text : String} :
    parse .yaml text = .ok catalog ↔ ofYaml text = .ok catalog :=
  mapError_eq_ok_iff

theorem parse_toYaml_iff (catalog : Catalog Binary64) (accepted : catalog.problems = [])
    (finite : ∀ placed ∈ catalog.conditions, placed.2.value.isFinite = true)
    (blocks : catalog.fitsBlocks = true) :
    parse .yaml catalog.toYaml = .ok catalog ↔ catalog.keepsTexts = true :=
  parse_yaml_eq_ok_iff.trans (ofYaml_toYaml_iff accepted finite blocks)

def ofTexts (message value : String) : Catalog Binary64 where
  version := "1.0.0"
  engine := ""
  scoring := Scoring.standard
  categories := [⟨"category", "Category", 10,
    [⟨"rule", .high, message, "", some [⟨"field", "equals", .text value⟩], none⟩]⟩]

/-- A message of several lines is written as a block, a text that spells a number between quotes. -/
theorem parse_toYaml_ofTexts :
    parse .yaml (ofTexts "Two lines,\n  \"quoted\"\n\n" "1e3").toYaml =
      .ok (ofTexts "Two lines,\n  \"quoted\"\n\n" "1e3") :=
  (parse_toYaml_iff _ (List.isEmpty_iff.mp (by decide +kernel)) (by decide +kernel)
    (by decide +kernel)).mpr (by decide +kernel)

/-- A message loses the space at its end, and a word for infinity stops being that word. -/
theorem parse_toYaml_ne_of_bareTexts : ∃ catalog : Catalog Binary64, catalog.problems = [] ∧
    (∀ placed ∈ catalog.conditions, placed.2.value.isFinite = true) ∧
      parse .yaml catalog.toYaml ≠ .ok catalog := by
  have accepted : (ofTexts "Too long " "Infinity").problems = [] :=
    List.isEmpty_iff.mp (by decide +kernel)
  have finite : ∀ placed ∈ (ofTexts "Too long " "Infinity").conditions,
      placed.2.value.isFinite = true := by decide +kernel
  have blocks : (ofTexts "Too long " "Infinity").fitsBlocks = true := by decide +kernel
  have lost : ¬ (ofTexts "Too long " "Infinity").keepsTexts = true := by decide +kernel
  refine ⟨_, accepted, finite, fun same => lost ?_⟩
  exact (ofYaml_toYaml_iff accepted finite blocks).mp (parse_yaml_eq_ok_iff.mp same)

end Catalog

end PageHealth
