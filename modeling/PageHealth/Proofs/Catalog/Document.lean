import Mathlib.Tactic.Basic
import PageHealth.Catalog.Document

namespace PageHealth

variable {N ε : Type}

theorem bind_eq_ok_iff {α β : Type} {x : Except ε α} {f : α → Except ε β} {b : β} :
    (x >>= f) = .ok b ↔ ∃ a, x = .ok a ∧ f a = .ok b := by
  cases x with
  | error e =>
    constructor
    · rintro ⟨⟩
    · rintro ⟨_, ⟨⟩, _⟩
  | ok a =>
    constructor
    · exact fun read => ⟨a, rfl, read⟩
    · rintro ⟨_, ⟨⟩, read⟩
      exact read

theorem mapError_eq_ok_iff {α δ : Type} {x : Except ε α} {f : ε → δ} {a : α} :
    x.mapError f = .ok a ↔ x = .ok a := by
  cases x with
  | error cause => exact iff_of_false (fun same => nomatch same) (fun same => nomatch same)
  | ok value =>
    constructor
    · intro same
      cases same
      rfl
    · intro same
      cases same
      rfl

namespace Dialect

section Records

variable {β σ τ : Type} {d : Dialect N ε} {fields : List String} {name : String} {node : N}
  {members : List (String × N)} {read : String → N → σ → Except ε σ} {start draft : σ}

def Finds (d : Dialect N ε) (name : String) (fields : List String) (node : N)
    (members : List (String × N)) : Prop :=
  ∃ missing, d.record name fields node = .ok ⟨members, .ok (), missing⟩

theorem readRecord_of_finds {build : Record N ε → σ → Except ε β}
    (finds : d.Finds name fields node members) : ∃ record : Record N ε,
      d.readRecord name fields read start build node =
        (d.readMembers fields read [] members start >>= build record) := by
  obtain ⟨missing, found⟩ := finds
  refine ⟨⟨members, .ok (), missing⟩, ?_⟩
  rw [readRecord, found]
  rfl

theorem exists_of_readRecord {build : Record N ε → σ → Except ε β} {value : β}
    (done : d.readRecord name fields read start build node = .ok value) :
    ∃ record draft, d.record name fields node = .ok record ∧
      d.readMembers fields read [] record.members start = .ok draft ∧ build record draft = .ok value := by
  obtain ⟨record, found, done⟩ := bind_eq_ok_iff.mp done
  obtain ⟨draft, members, done⟩ := bind_eq_ok_iff.mp done
  obtain ⟨_, _, built⟩ := bind_eq_ok_iff.mp done
  exact ⟨record, draft, found, members, built⟩

theorem readMembers_cons {seen : List String} {key : String} {rest : List (String × N)}
    {part : Except ε β} {set : β → σ} {next : σ → Except ε τ}
    (declared : fields.contains key = true) (fresh : seen.contains key = false)
    (step : read key node draft = (part >>= fun value => pure (set value))) :
    (d.readMembers fields read seen ((key, node) :: rest) draft >>= next) =
      (part >>= fun value => d.readMembers fields read (key :: seen) rest (set value) >>= next) := by
  rw [readMembers, declared, fresh, step]
  cases part <;> rfl

theorem readMembers_cons_eq_ok_iff {seen : List String} {key : String} {rest : List (String × N)}
    {result : σ} : d.readMembers fields read seen ((key, node) :: rest) draft = .ok result ↔
      key ∈ fields ∧ key ∉ seen ∧ ∃ next, read key node draft = .ok next ∧
        d.readMembers fields read (key :: seen) rest next = .ok result := by
  by_cases declared : key ∈ fields
  · by_cases twice : key ∈ seen
    · simp [readMembers, declared, twice]
    · simp [readMembers, declared, twice, bind_eq_ok_iff]
  · simp [readMembers, declared]

theorem readMembers_nil {seen : List String} {next : σ → Except ε τ} :
    (d.readMembers fields read seen [] draft >>= next) = next draft := by
  rw [readMembers]
  rfl

def optionalMember (key : String) (part : Option N) : List (String × N) :=
  part.toList.map fun node => (key, node)

def readOptional (d : Dialect N ε) (read : N → Except ε β) : Option N → Except ε (Option β)
  | some node => d.optional read node
  | none => .ok none

theorem readMembers_optional {seen : List String} {key : String} {rest : List (String × N)}
    {part : N → Except ε β} {optional : Option N} {next : σ → Except ε τ} (set : Option β → σ)
    (declared : fields.contains key = true) (fresh : seen.contains key = false)
    (step : ∀ node, read key node draft = (d.optional part node >>= fun value => pure (set value)))
    (absent : set none = draft) :
    (d.readMembers fields read seen (optionalMember key optional ++ rest) draft >>= next) =
      (d.readOptional part optional >>= fun value =>
        d.readMembers fields read ((optionalMember key optional).map Prod.fst ++ seen) rest
          (set value) >>= next) := by
  cases optional with
  | none =>
    rw [← absent]
    rfl
  | some node => exact readMembers_cons declared fresh (step node)

theorem fresh_optionalMember {seen : List String} {key other : String} {optional : Option N}
    (apart : other ≠ key) (fresh : seen.contains other = false) :
    ((optionalMember key optional).map Prod.fst ++ seen).contains other = false := by
  cases optional with
  | none => exact fresh
  | some node => simpa [optionalMember, apart] using fresh

theorem list_of_items {read : N → Except ε β} {nodes : List N}
    (items : d.items node = .ok ⟨nodes, .ok ()⟩) : d.list read node = nodes.mapM read := by
  rw [list, items]
  change (nodes.mapM read >>= fun items => pure items) = _
  exact bind_pure _

theorem results_of_mapM {read : N → Except ε β} {nodes : List N} {values : List β}
    (done : nodes.mapM read = .ok values) :
    (∀ node ∈ nodes, ∃ value, read node = .ok value) ∧ ∀ value ∈ values, ∃ node ∈ nodes,
      read node = .ok value := by
  induction nodes generalizing values with
  | nil =>
    cases done
    simp
  | cons node nodes ih =>
    rw [List.mapM_cons] at done
    obtain ⟨value, first, done⟩ := bind_eq_ok_iff.mp done
    obtain ⟨others, rest, ⟨⟩⟩ := bind_eq_ok_iff.mp done
    obtain ⟨each, only⟩ := ih rest
    constructor
    · exact List.forall_mem_cons.mpr ⟨⟨value, first⟩, each⟩
    · refine List.forall_mem_cons.mpr ⟨⟨node, .head _, first⟩, fun other listed => ?_⟩
      obtain ⟨source, there, found⟩ := only other listed
      exact ⟨source, .tail _ there, found⟩

theorem results_of_list {read : N → Except ε β} {values : List β}
    (done : d.list read node = .ok values) : ∃ found, d.items node = .ok found ∧
      (∀ item ∈ found.items, ∃ value, read item = .ok value) ∧
      ∀ value ∈ values, ∃ item ∈ found.items, read item = .ok value := by
  obtain ⟨found, items, done⟩ := bind_eq_ok_iff.mp done
  obtain ⟨results, mapped, done⟩ := bind_eq_ok_iff.mp done
  obtain ⟨_, _, ⟨⟩⟩ := bind_eq_ok_iff.mp done
  exact ⟨found, items, results_of_mapM mapped⟩

theorem optional_eq_ok_iff {read : N → Except ε β} {result : Option β} :
    d.optional read node = .ok result ↔ d.isNull node = true ∧ result = none ∨
      d.isNull node = false ∧ ∃ value, read node = .ok value ∧ result = some value := by
  unfold optional
  cases d.isNull node with
  | true => simp [eq_comm]
  | false => cases read node <;> simp [Except.map, eq_comm]

theorem mapM_eq_ok_iff {read : N → Except ε β} {write : β → N} {values : List β} :
    (values.map write).mapM read = .ok values ↔ ∀ value ∈ values, read (write value) = .ok value := by
  induction values with
  | nil => simp [pure, Except.pure]
  | cons value values ih =>
    rw [List.map_cons, List.mapM_cons, bind_eq_ok_iff, List.forall_mem_cons, ← ih]
    simp only [bind_eq_ok_iff]
    constructor
    · rintro ⟨_, first, _, others, ⟨⟩⟩
      exact ⟨first, others⟩
    · rintro ⟨first, others⟩
      exact ⟨_, first, _, others, rfl⟩

theorem list_eq_ok_iff {read : N → Except ε β} {write : β → N} {values : List β}
    (items : d.items node = .ok ⟨values.map write, .ok ()⟩) :
    d.list read node = .ok values ↔ ∀ value ∈ values, read (write value) = .ok value := by
  rw [list_of_items items]
  exact mapM_eq_ok_iff

theorem readOptional_eq_ok_iff {read : N → Except ε β} {write : β → N} {value : Option β}
    (shown : ∀ v ∈ value, d.isNull (write v) = false) :
    d.readOptional read (value.map write) = .ok value ↔ ∀ v ∈ value, read (write v) = .ok v := by
  cases value with
  | none => simp [readOptional]
  | some v =>
    have present : d.readOptional read ((some v).map write) = (read (write v)).map some :=
      if_neg (by simp [shown v rfl])
    rw [present]
    cases found : read (write v) <;> simp [Except.map, found]

end Records

end Dialect

section Structures

open Dialect

variable {d : Dialect N ε} {node : N}

theorem Condition.ofNode_of_finds {field operator value : N}
    (finds : d.Finds "Condition" Condition.fields node
      [("field", field), ("operator", operator), ("value", value)]) :
    Condition.ofNode d node = (do
      let field ← d.text field
      let operator ← d.text operator
      let value ← d.expected value
      return ⟨field, operator, value⟩) := by
  obtain ⟨record, read⟩ := readRecord_of_finds finds
  rw [Condition.ofNode, read]
  refine (readMembers_cons rfl rfl rfl).trans (bind_congr fun field => ?_)
  refine (readMembers_cons rfl rfl rfl).trans (bind_congr fun operator => ?_)
  refine (readMembers_cons rfl rfl rfl).trans (bind_congr fun value => ?_)
  exact readMembers_nil

theorem Thresholds.ofNode_of_finds {pass : N} {warning : Option N}
    (finds : d.Finds "Thresholds" Thresholds.fields node
      (("pass", pass) :: optionalMember "warning" warning)) :
    Thresholds.ofNode d node = (do
      let pass ← Condition.ofNode d pass
      let warning ← d.readOptional (Condition.ofNode d) warning
      return ⟨pass, warning⟩) := by
  obtain ⟨record, read⟩ := readRecord_of_finds finds
  rw [Thresholds.ofNode, read, ← List.append_nil (optionalMember _ _)]
  refine (readMembers_cons rfl rfl rfl).trans (bind_congr fun pass => ?_)
  refine (readMembers_optional (Thresholds.Draft.mk (some pass)) rfl rfl (fun _ => rfl) rfl).trans
    (bind_congr fun warning => ?_)
  exact readMembers_nil

theorem Rule.ofNode_of_finds {id severity message recommendation : N} {checks thresholds : Option N}
    (finds : d.Finds "Rule" Rule.fields node
      ([("id", id), ("severity", severity), ("message", message),
        ("recommendation", recommendation)] ++ optionalMember "checks" checks ++
        optionalMember "thresholds" thresholds)) :
    Rule.ofNode d node = (do
      let id ← d.text id
      let severity ← d.severity severity
      let message ← d.text message
      let recommendation ← d.text recommendation
      let checks ← d.readOptional (d.list (Condition.ofNode d)) checks
      let thresholds ← d.readOptional (Thresholds.ofNode d) thresholds
      return ⟨id, severity, message, recommendation, checks, thresholds⟩) := by
  obtain ⟨record, read⟩ := readRecord_of_finds finds
  rw [Rule.ofNode, read, List.append_assoc, ← List.append_nil (optionalMember "thresholds" _)]
  refine (readMembers_cons rfl rfl rfl).trans (bind_congr fun id => ?_)
  refine (readMembers_cons rfl rfl rfl).trans (bind_congr fun severity => ?_)
  refine (readMembers_cons rfl rfl rfl).trans (bind_congr fun message => ?_)
  refine (readMembers_cons rfl rfl rfl).trans (bind_congr fun recommendation => ?_)
  let draft := Rule.Draft.mk (some id) (some severity) (some message) (some recommendation)
  refine (readMembers_optional (fun checks => draft checks none) rfl rfl (fun _ => rfl) rfl).trans
    (bind_congr fun checks => ?_)
  refine (readMembers_optional (draft checks) rfl (fresh_optionalMember (by decide) rfl)
    (fun _ => rfl) rfl).trans (bind_congr fun thresholds => ?_)
  exact readMembers_nil

theorem Category.ofNode_of_finds {id name maxPoints rules : N}
    (finds : d.Finds "Category" Category.fields node
      [("id", id), ("name", name), ("maxPoints", maxPoints), ("rules", rules)]) :
    Category.ofNode d node = (do
      let id ← d.text id
      let name ← d.text name
      let maxPoints ← d.count maxPoints
      let rules ← d.list (Rule.ofNode d) rules
      return ⟨id, name, maxPoints, rules⟩) := by
  obtain ⟨record, read⟩ := readRecord_of_finds finds
  rw [Category.ofNode, read]
  refine (readMembers_cons rfl rfl rfl).trans (bind_congr fun id => ?_)
  refine (readMembers_cons rfl rfl rfl).trans (bind_congr fun name => ?_)
  refine (readMembers_cons rfl rfl rfl).trans (bind_congr fun maxPoints => ?_)
  refine (readMembers_cons rfl rfl rfl).trans (bind_congr fun rules => ?_)
  exact readMembers_nil

theorem SeverityWeights.ofNode_of_finds {high medium low : N}
    (finds : d.Finds "SeverityWeights" SeverityWeights.fields node
      [("HIGH", high), ("MEDIUM", medium), ("LOW", low)]) :
    SeverityWeights.ofNode d node = (do
      let high ← d.double high
      let medium ← d.double medium
      let low ← d.double low
      return ⟨high, medium, low⟩) := by
  obtain ⟨record, read⟩ := readRecord_of_finds finds
  rw [SeverityWeights.ofNode, read]
  refine (readMembers_cons rfl rfl rfl).trans (bind_congr fun high => ?_)
  refine (readMembers_cons rfl rfl rfl).trans (bind_congr fun medium => ?_)
  refine (readMembers_cons rfl rfl rfl).trans (bind_congr fun low => ?_)
  exact readMembers_nil

theorem StatusScores.ofNode_of_finds {pass warning fail : N}
    (finds : d.Finds "StatusScores" StatusScores.fields node
      [("PASS", pass), ("WARNING", warning), ("FAIL", fail)]) :
    StatusScores.ofNode d node = (do
      let pass ← d.double pass
      let warning ← d.double warning
      let fail ← d.double fail
      return ⟨pass, warning, fail⟩) := by
  obtain ⟨record, read⟩ := readRecord_of_finds finds
  rw [StatusScores.ofNode, read]
  refine (readMembers_cons rfl rfl rfl).trans (bind_congr fun pass => ?_)
  refine (readMembers_cons rfl rfl rfl).trans (bind_congr fun warning => ?_)
  refine (readMembers_cons rfl rfl rfl).trans (bind_congr fun fail => ?_)
  exact readMembers_nil

theorem Scoring.ofNode_of_finds {severityWeights statusScores : N}
    (finds : d.Finds "ScoringWeights" Scoring.fields node
      [("severityWeights", severityWeights), ("statusScores", statusScores)]) :
    Scoring.ofNode d node = (do
      let severityWeights ← SeverityWeights.ofNode d severityWeights
      let statusScores ← StatusScores.ofNode d statusScores
      return ⟨severityWeights, statusScores⟩) := by
  obtain ⟨record, read⟩ := readRecord_of_finds finds
  rw [Scoring.ofNode, read]
  refine (readMembers_cons rfl rfl rfl).trans (bind_congr fun severityWeights => ?_)
  refine (readMembers_cons rfl rfl rfl).trans (bind_congr fun statusScores => ?_)
  exact readMembers_nil

theorem Catalog.ofNode_of_finds {version engine scoring categories : N}
    (finds : d.Finds "RuleCatalog" Catalog.fields node
      [("version", version), ("engine", engine), ("scoring", scoring), ("categories", categories)]) :
    Catalog.ofNode d node = (do
      let version ← d.text version
      let engine ← d.text engine
      let scoring ← Scoring.ofNode d scoring
      let categories ← d.list (Category.ofNode d) categories
      return ⟨version, engine, scoring, categories⟩) := by
  obtain ⟨record, read⟩ := readRecord_of_finds finds
  rw [Catalog.ofNode, read]
  refine (readMembers_cons rfl rfl rfl).trans (bind_congr fun version => ?_)
  refine (readMembers_cons rfl rfl rfl).trans (bind_congr fun engine => ?_)
  refine (readMembers_cons rfl rfl rfl).trans (bind_congr fun scoring => ?_)
  refine (readMembers_cons rfl rfl rfl).trans (bind_congr fun categories => ?_)
  exact readMembers_nil

end Structures

end PageHealth
