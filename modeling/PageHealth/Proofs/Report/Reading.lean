import PageHealth.Proofs.Catalog.Json
import PageHealth.Proofs.Json.Grammar
import PageHealth.Proofs.Json.Indented
import PageHealth.Proofs.Scoring.Agreement
import PageHealth.Proofs.Scoring.Bounds
import PageHealth.Report.Json

/-! The report for programs loses nothing. From its text the whole report can be built again by a reader
that looks up every part by its key and takes no object in which a key is repeated: scores are keyed by
the ids of categories, so those must be distinct, and a number that is not finite would be gone. -/
namespace PageHealth

open Json (Value)

namespace Json.Value

/-- The members of an object, unless it is cut short or has a key twice. -/
def members? : Value → Option (List (String × Value))
  | .object members none => if (members.map Prod.fst).Nodup then some members else none
  | _ => none

def keys? (value : Value) : Option (List String) := value.members?.map (List.map Prod.fst)

def items? : Value → Option (List Value)
  | .array items none => some items
  | _ => none

def text? : Value → Option String
  | .text s => some s
  | _ => none

def count? : Value → Option Nat
  | .number (.integer n) => n.toNat?
  | _ => none

def double? : Value → Option Binary64
  | .number n => some n.toBinary64
  | _ => none

def read? {β : Type} (value : Value) (key : String) (part : Value → Option β) : Option β := do
  part (← (← value.members?).lookup key)

end Json.Value

def Status.ofName? (name : String) : Option Status := Status.all.find? fun s => s.name = name

def CategoryScore.ofMember? (member : String × Value) : Option CategoryScore := do
  let score ← member.2.read? "score" Value.count?
  let maxScore ← member.2.read? "maxScore" Value.count?
  let percentage ← member.2.read? "percentage" Value.count?
  let label ← member.2.read? "label" Value.text?
  return ⟨member.1, score, maxScore, percentage, label⟩

def Recommendation.ofValue? (value : Value) : Option (Recommendation Binary64) := do
  let id ← value.read? "id" Value.text?
  let severity ← Severity.ofName? (← value.read? "severity" Value.text?)
  let category ← value.read? "category" Value.text?
  let status ← Status.ofName? (← value.read? "status" Value.text?)
  let message ← value.read? "message" Value.text?
  let recommendation ← value.read? "recommendation" Value.text?
  let pointsLost ← value.read? "pointsLost" Value.double?
  return ⟨id, severity, category, status, message, recommendation, pointsLost⟩

def Outcome.ofValue? (value : Value) : Option (Outcome Binary64) := do
  let id ← value.read? "id" Value.text?
  let category ← value.read? "category" Value.text?
  let severity ← Severity.ofName? (← value.read? "severity" Value.text?)
  let status ← Status.ofName? (← value.read? "status" Value.text?)
  let maxPoints ← value.read? "maxPoints" Value.double?
  let pointsEarned ← value.read? "pointsEarned" Value.double?
  return ⟨id, category, severity, status, maxPoints, pointsEarned⟩

def Summary.ofValue? (value : Value) : Option Summary := do
  let passed ← value.read? "passed" Value.count?
  let warnings ← value.read? "warnings" Value.count?
  let failed ← value.read? "failed" Value.count?
  return ⟨passed, warnings, failed⟩

def Report.ofValue? (value : Value) : Option Report := do
  let source ← value.read? "source" Value.text?
  let evaluatedAt ← value.read? "evaluatedAt" Value.text?
  let catalogVersion ← value.read? "catalogVersion" Value.text?
  let healthScore ← value.read? "healthScore" Value.count?
  let categoryScores ← (← value.read? "categoryScores" Value.members?).mapM CategoryScore.ofMember?
  let recommendations ← (← value.read? "recommendations" Value.items?).mapM Recommendation.ofValue?
  let summary ← value.read? "summary" Summary.ofValue?
  let outcomes ← (← value.read? "rules" Value.items?).mapM Outcome.ofValue?
  return ⟨source, evaluatedAt,
    ⟨catalogVersion, healthScore, categoryScores, recommendations, summary, outcomes⟩⟩

section Reading

@[simp] theorem Severity.ofName?_name (severity : Severity) :
    ofName? severity.name = some severity := by
  cases severity <;> rfl

@[simp] theorem Status.ofName?_name (status : Status) : ofName? status.name = some status := by
  cases status <;> rfl

@[simp] theorem count?_countValue (n : Nat) : (countValue n).count? = some n := rfl

theorem members?_object {members : List (String × Value)} {keys : List String}
    (named : members.map Prod.fst = keys) (distinct : keys.Nodup) :
    (Value.object members none).members? = some members := if_pos (named ▸ distinct)

theorem read?_of_members? {value : Value} {members : List (String × Value)}
    (whole : value.members? = some members) {β : Type} (key : String) (part : Value → Option β) :
    value.read? key part = (members.lookup key).bind part := by
  rw [Value.read?, whole]
  rfl

theorem mapM_map_of_inverse {β γ : Type} {write : β → γ} {read : γ → Option β}
    (inverse : ∀ x, read (write x) = some x) (xs : List β) : (xs.map write).mapM read = some xs := by
  induction xs with
  | nil => rfl
  | cons x xs ih =>
    rw [List.map_cons, List.mapM_cons, inverse, ih]
    rfl

theorem CategoryScore.ofMember?_toMember (score : CategoryScore) :
    ofMember? score.toMember = some score := by
  have whole : score.toMember.2.members? = some _ :=
    @members?_object _ ["score", "maxScore", "percentage", "label"] rfl (by decide)
  have key : score.toMember.1 = score.id := rfl
  simp [ofMember?, read?_of_members? whole, key, List.lookup_cons, Value.text?]

theorem Recommendation.ofValue?_toValue (rec : Recommendation Binary64) :
    ofValue? rec.toValue = some rec := by
  have whole : rec.toValue.members? = some _ :=
    @members?_object _ ["id", "severity", "category", "status", "message", "recommendation",
      "pointsLost"] rfl (by decide)
  simp [ofValue?, read?_of_members? whole, List.lookup_cons, Value.text?, Value.double?,
    Json.Number.toBinary64]

theorem Outcome.ofValue?_toValue (outcome : Outcome Binary64) :
    ofValue? outcome.toValue = some outcome := by
  have whole : outcome.toValue.members? = some _ :=
    @members?_object _ ["id", "category", "severity", "status", "maxPoints", "pointsEarned"] rfl
      (by decide)
  simp [ofValue?, read?_of_members? whole, List.lookup_cons, Value.text?, Value.double?,
    Json.Number.toBinary64]

@[simp] theorem Summary.ofValue?_toValue (summary : Summary) :
    ofValue? summary.toValue = some summary := by
  have whole : summary.toValue.members? = some _ :=
    @members?_object _ ["passed", "warnings", "failed"] rfl (by decide)
  simp [ofValue?, read?_of_members? whole, List.lookup_cons]

theorem Report.members?_toValue (report : Report) : report.toValue.members? = some
    (("source", .text report.source) :: ("evaluatedAt", .text report.evaluatedAt) ::
      report.evaluation.toMembers) :=
  @members?_object _ ["source", "evaluatedAt", "catalogVersion", "healthScore", "categoryScores",
    "recommendations", "summary", "rules"] rfl (by decide)

theorem Report.keys?_toValue (report : Report) : report.toValue.keys? = some ["source", "evaluatedAt",
    "catalogVersion", "healthScore", "categoryScores", "recommendations", "summary", "rules"] := by
  rw [Value.keys?, report.members?_toValue]
  rfl

section Scores

variable {report : Report}
  (distinct : (report.evaluation.categoryScores.map CategoryScore.id).Nodup)

include distinct

theorem Report.members?_categoryScores :
    (Value.object (report.evaluation.categoryScores.map CategoryScore.toMember) none).members? =
      some (report.evaluation.categoryScores.map CategoryScore.toMember) :=
  members?_object List.map_map distinct

theorem Report.keys?_categoryScores : report.toValue.read? "categoryScores" Value.keys? =
    some (report.evaluation.categoryScores.map CategoryScore.id) := by
  have scores := members?_categoryScores distinct
  have keys : (report.evaluation.categoryScores.map CategoryScore.toMember).map Prod.fst =
      report.evaluation.categoryScores.map CategoryScore.id := List.map_map
  rw [read?_of_members? report.members?_toValue, ← keys]
  simp [Evaluation.toMembers, List.lookup_cons, Value.keys?, scores]

theorem Report.ofValue?_toValue : ofValue? report.toValue = some report := by
  have whole := report.members?_toValue
  have scores := mapM_map_of_inverse CategoryScore.ofMember?_toMember
  have recommendations := mapM_map_of_inverse Recommendation.ofValue?_toValue
  have outcomes := mapM_map_of_inverse Outcome.ofValue?_toValue
  simp [ofValue?, read?_of_members? whole, Evaluation.toMembers, members?_categoryScores distinct,
    Value.items?, List.lookup_cons, Value.text?, scores, recommendations, outcomes]

end Scores

end Reading

section Writing

open Json.Value (MembersReadable)

/-- An evaluation whose counts fit 64 bits and whose points are finite, so that each of its numbers is
written as one that is read back. -/
structure Evaluation.Writable (evaluation : Evaluation Binary64) : Prop where
  healthScore : evaluation.healthScore < 2 ^ 64
  scores : ∀ score ∈ evaluation.categoryScores,
    score.score < 2 ^ 64 ∧ score.maxScore < 2 ^ 64 ∧ score.percentage < 2 ^ 64
  lost : ∀ rec ∈ evaluation.recommendations, rec.pointsLost.isFinite = true
  passed : evaluation.summary.passed < 2 ^ 64
  warnings : evaluation.summary.warnings < 2 ^ 64
  failed : evaluation.summary.failed < 2 ^ 64
  points : ∀ outcome ∈ evaluation.outcomes,
    outcome.maxPoints.isFinite = true ∧ outcome.pointsEarned.isFinite = true

variable {room : Nat}

theorem readable_countValue {n : Nat} (fits : n < 2 ^ 64) : (countValue n).Readable room := by
  have number : (Json.Number.integer n).isReadable = true := by
    simp only [Json.Number.isReadable, Bool.and_eq_true, decide_eq_true_eq]
    omega
  exact number

theorem Evaluation.Writable.readable {report : Report} (writable : report.evaluation.Writable) :
    report.toValue.Readable (room + 3) := by
  have scores : MembersReadable (room + 1)
      (report.evaluation.categoryScores.map CategoryScore.toMember) := by
    refine membersReadable_map fun score listed => ?_
    obtain ⟨points, most, percentage⟩ := writable.scores score listed
    exact readable_object ⟨readable_countValue points, readable_countValue most,
      readable_countValue percentage, trivial, trivial⟩
  have recommendations := @readable_array _ Recommendation.toValue
    report.evaluation.recommendations (room + 1) fun rec listed =>
      readable_object ⟨trivial, trivial, trivial, trivial, trivial, trivial,
        writable.lost rec listed, trivial⟩
  have summary : report.evaluation.summary.toValue.Readable (room + 2) :=
    readable_object ⟨readable_countValue writable.passed, readable_countValue writable.warnings,
      readable_countValue writable.failed, trivial⟩
  have outcomes := @readable_array _ Outcome.toValue report.evaluation.outcomes (room + 1)
    fun outcome listed => readable_object ⟨trivial, trivial, trivial, trivial,
      (writable.points outcome listed).1, (writable.points outcome listed).2, trivial⟩
  exact readable_object ⟨trivial, trivial, trivial, readable_countValue writable.healthScore,
    readable_object scores, recommendations, summary, outcomes, trivial⟩

end Writing

section Evaluations

variable {catalog : Catalog Binary64} {facts : Facts Binary64}

theorem wholePoints_lt (points : Binary64) : wholePoints points < 2 ^ 64 := by
  have most : wholePoints points ≤ 4294967295 := Nat.min_le_right _ _
  omega

theorem healthScore_lt (points maxPoints : List Binary64) : healthScore points maxPoints < 2 ^ 64 := by
  unfold healthScore
  dsimp only
  split
  · have most := Nat.min_le_right (percentage (Scalar.sum points) (Scalar.sum maxPoints)) 100
    omega
  · decide

theorem Category.evaluate_score_lt (category : Category Binary64) (scoring : Scoring Binary64) :
    let score := (category.evaluate scoring facts).score
    score.score < 2 ^ 64 ∧ score.maxScore < 2 ^ 64 ∧ score.percentage < 2 ^ 64 := by
  refine ⟨wholePoints_lt _, ?_, ?_⟩
  · exact Nat.lt_trans category.maxPoints.toNat_lt (by decide)
  · by_cases absent : category.maxPoints = 0
    · rw [Category.evaluate_percentage_zero absent]
      decide
    · rw [Category.evaluate_percentage absent]
      exact wholePoints_lt _

theorem Catalog.count_status_le (status : Status) :
    ((catalog.evaluate facts).outcomes.map Outcome.status).count status ≤ catalog.ruleCount := by
  rw [← catalog.length_entries, catalog.outcomes_eq_map, List.map_map]
  exact List.count_le_length.trans_eq (List.length_map _)

theorem Catalog.evaluate_writable (accepted : catalog.problems = [])
    (countable : catalog.ruleCount < 2 ^ 64) : (catalog.evaluate facts).Writable := by
  have sound := Catalog.sound_of_problems_eq_nil accepted
  have counted (status : Status) := Nat.lt_of_le_of_lt
    (@Catalog.count_status_le catalog facts status) countable
  refine ⟨healthScore_lt _ _, ?_, ?_, counted .pass, counted .warning, counted .fail, ?_⟩
  · intro score listed
    obtain ⟨result, evaluated, rfl⟩ := List.mem_map.mp listed
    obtain ⟨category, _, rfl⟩ := List.mem_map.mp evaluated
    exact category.evaluate_score_lt catalog.scoring
  · exact fun rec listed => sound.isFinite_pointsLost listed
  · intro outcome listed
    obtain ⟨_, _, _, bounded⟩ := sound.outcome_bounded listed
    exact ⟨bounded.max_isFinite, bounded.earned_isFinite⟩

/-- The report of an accepted catalog's evaluation is a document without faults, one object with these
eight keys. Its category scores are keyed by the ids of the categories, in their order and each once, and
the report that is built again from the document is the one that was written. A machine counts rules in
64 bits. -/
theorem Catalog.report_readsBack (catalog : Catalog Binary64) (accepted : catalog.problems = [])
    (countable : catalog.ruleCount < 2 ^ 64) (facts : Facts Binary64) (source evaluatedAt : String) :
    ∃ root, Json.Document.ofText (Report.json ⟨source, evaluatedAt, catalog.evaluate facts⟩) =
        ⟨root, none⟩ ∧
      root.isWhole = true ∧
      root.keys? = some ["source", "evaluatedAt", "catalogVersion", "healthScore", "categoryScores",
        "recommendations", "summary", "rules"] ∧
      root.read? "categoryScores" Value.keys? = some (catalog.categories.map Category.id) ∧
      (catalog.categories.map Category.id).Nodup ∧
      Report.ofValue? root = some ⟨source, evaluatedAt, catalog.evaluate facts⟩ := by
  have distinct := (Catalog.sound_of_problems_eq_nil accepted).ids_nodup
  have ids := catalog.ids_categoryScores facts
  let report : Report := ⟨source, evaluatedAt, catalog.evaluate facts⟩
  have readable : report.toValue.Readable Json.depthLimit :=
    (catalog.evaluate_writable accepted countable).readable
  refine ⟨report.toValue, Json.ofText_pretty readable, ?_, ?_, ?_, distinct, ?_⟩
  · rw [Value.isWhole, Value.fault?_of_readable _ readable]
    rfl
  · exact report.keys?_toValue
  · rw [← ids] at distinct ⊢
    exact Report.keys?_categoryScores distinct
  · exact Report.ofValue?_toValue (ids ▸ distinct)

theorem Catalog.report_readsBack_standard :
    let report : Report := ⟨"C:\\\"page\"\n", "2024-02-29T23:59:60Z",
      standard.evaluate (Facts.empty.insert "security.https" (.bool true))⟩
    (standard : Catalog Binary64).problems = [] ∧ (standard : Catalog Binary64).ruleCount < 2 ^ 64 ∧
      ∃ root, Json.Document.ofText report.json = ⟨root, none⟩ ∧
        root.read? "categoryScores" Value.keys? =
          some ["common_seo", "speed", "security", "mobile", "advanced"] ∧
        Report.ofValue? root = some report := by
  intro report
  have countable : (standard : Catalog Binary64).ruleCount < 2 ^ 64 := by decide +kernel
  obtain ⟨root, read, _, _, keys, _, rebuilt⟩ := Catalog.report_readsBack standard standard_problems
    countable (Facts.empty.insert "security.https" (.bool true)) report.source report.evaluatedAt
  refine ⟨standard_problems, countable, root, read, keys.trans ?_, rebuilt⟩
  decide +kernel

end Evaluations

end PageHealth
