import Mathlib.Data.List.Nodup
import PageHealth.Proofs.Catalog.Json

namespace PageHealth.Catalog

open Json (Value ReadError)

inductive Structure where
  | catalog
  | scoring
  | severityWeights
  | statusScores
  | category
  | rule
  | thresholds
  | condition

/-- What stands in the value of a key: nothing with keys of a catalog, a structure, or a list of them. -/
inductive Content where
  | plain
  | one (inner : Structure)
  | list (inner : Structure)

structure Key where
  name : String
  content : Content := .plain
  required : Bool := true

/-- The declared keys of a structure, in the order in which an array gives their values. -/
def Structure.keys : Structure → List Key
  | catalog =>
    [{ name := "version" }, { name := "engine", required := false },
     { name := "scoring", content := .one scoring, required := false },
     { name := "categories", content := .list category }]
  | scoring =>
    [{ name := "severityWeights", content := .one severityWeights, required := false },
     { name := "statusScores", content := .one statusScores, required := false }]
  | severityWeights => [{ name := "HIGH" }, { name := "MEDIUM" }, { name := "LOW" }]
  | statusScores => [{ name := "PASS" }, { name := "WARNING" }, { name := "FAIL" }]
  | category =>
    [{ name := "id" }, { name := "name" }, { name := "maxPoints" },
     { name := "rules", content := .list rule }]
  | rule =>
    [{ name := "id" }, { name := "severity" }, { name := "message" }, { name := "recommendation" },
     { name := "checks", content := .list condition, required := false },
     { name := "thresholds", content := .one thresholds, required := false }]
  | thresholds =>
    [{ name := "pass", content := .one condition },
     { name := "warning", content := .one condition, required := false }]
  | condition => [{ name := "field" }, { name := "operator" }, { name := "value" }]

structure Structure.Exact (s : Structure) (members : List (String × Value)) : Prop where
  declared : ∀ member ∈ members, ∃ key ∈ s.keys, key.name = member.1
  once : (members.map Prod.fst).Nodup
  complete : ∀ key ∈ s.keys, key.required = true → ∃ member ∈ members, member.1 = key.name

/-- The value of a key, left open where a structure stands in it. -/
inductive Content.Opens : Content → Structure → (Value → Value) → Prop where
  | one {inner : Structure} : Opens (.one inner) inner fun value => value
  | list {inner : Structure} {before after : List Value} {fault : Option Json.Fault} :
      Opens (.list inner) inner fun value => .array (before ++ value :: after) fault

/-- A document, left open at one place where a structure stands. A structure around it may be written as
an object or as an array. -/
inductive Place : Structure → (Value → Value) → Prop where
  | root : Place .catalog fun value => value
  | member {s inner : Structure} {around within : Value → Value} {key : Key}
      {before after : List (String × Value)} {fault : Option Json.Fault} (outer : Place s around)
      (declared : key ∈ s.keys) (opens : key.content.Opens inner within) :
      Place inner fun value => around (.object (before ++ (key.name, within value) :: after) fault)
  | item {s inner : Structure} {around within : Value → Value} {key : Key}
      {before after : List Value} {fault : Option Json.Fault} (outer : Place s around)
      (declared : s.keys[before.length]? = some key) (opens : key.content.Opens inner within) :
      Place inner fun value => around (.array (before ++ within value :: after) fault)

def Structure.Refuses (s : Structure) (members : List (String × Value)) (name : String) : Prop :=
  (∀ key ∈ s.keys, key.name ≠ name) ∨ ∃ member ∈ members, member.1 = name

theorem Structure.not_exact_of_refuses {s : Structure} {before after : List (String × Value)}
    {name : String} {value : Value} (refused : s.Refuses (before ++ after) name) :
    ¬ s.Exact (before ++ (name, value) :: after) := by
  intro exactly
  rcases refused with undeclared | ⟨member, listed, same⟩
  · obtain ⟨key, declared, same⟩ := exactly.declared (name, value) (by simp)
    exact undeclared key declared same
  · have once := exactly.once
    rw [List.map_append, List.map_cons, List.nodup_middle, List.nodup_cons, ← List.map_append] at once
    exact once.1 (List.mem_map.mpr ⟨member, listed, same⟩)

section Reading

def Structure.Reads : Structure → Value → Prop
  | catalog, value => ∃ result, Catalog.ofNode (Json.dialect .text) value = .ok result
  | scoring, value => ∃ result, Scoring.ofNode (Json.dialect .text) value = .ok result
  | severityWeights, value => ∃ result, SeverityWeights.ofNode (Json.dialect .text) value = .ok result
  | statusScores, value => ∃ result, StatusScores.ofNode (Json.dialect .text) value = .ok result
  | category, value => ∃ result, Category.ofNode (Json.dialect .text) value = .ok result
  | rule, value => ∃ result, Rule.ofNode (Json.dialect .text) value = .ok result
  | thresholds, value => ∃ result, Thresholds.ofNode (Json.dialect .text) value = .ok result
  | condition, value => ∃ result, Condition.ofNode (Json.dialect .text) value = .ok result

/-- Every structure in the value of a key is read; a part may be written out as absent. -/
def Content.Reads : Content → Value → Prop
  | one inner, value => value = .null ∨ inner.Reads value
  | list inner, .array items _ => ∀ item ∈ items, inner.Reads item
  | _, _ => True

theorem Content.Opens.reads {content : Content} {inner : Structure} {within : Value → Value}
    {value : Value} (opens : content.Opens inner within) (reads : content.Reads (within value)) :
    value = .null ∨ inner.Reads value := by
  cases opens with
  | one => exact reads
  | list => exact .inr (reads value (by simp))

section Parts

variable {β : Type} {read : Value → Except ReadError β} {value : Value} {inner : Structure}

theorem Content.reads_list (each : ∀ item result, read item = .ok result → inner.Reads item)
    {results : List β} (done : (Json.dialect .text).list read value = .ok results) :
    (Content.list inner).Reads value := by
  cases value with
  | array items fault =>
    obtain ⟨_, ⟨⟩, all, _⟩ := Dialect.results_of_list done
    intro item listed
    obtain ⟨result, found⟩ := all item listed
    exact each item result found
  | _ => trivial

theorem eq_null_or_read_of_optional {result : Option β}
    (done : (Json.dialect .text).optional read value = .ok result) :
    value = .null ∨ ∃ result, read value = .ok result := by
  rcases Dialect.optional_eq_ok_iff.mp done with ⟨absent, _⟩ | ⟨_, result, found, _⟩
  · cases value with
    | null => exact .inl rfl
    | _ => cases absent
  · exact .inr ⟨result, found⟩

end Parts

variable {β σ : Type} {s : Structure} {value : Value} {members : List (String × Value)}
  {read : String → Value → σ → Except ReadError σ} {filled : σ → List (String × Bool)}

structure Structure.Sound (s : Structure) (members : List (String × Value)) : Prop where
  exactly : s.Exact members
  part : ∀ key ∈ s.keys, ∀ value, (key.name, value) ∈ members → key.content.Reads value

/-- A member is read with all that is inside it, and fills no place of the draft but its own. -/
def Structure.Guides (s : Structure) (read : String → Value → σ → Except ReadError σ)
    (filled : σ → List (String × Bool)) : Prop :=
  ∀ key ∈ s.keys, ∀ value draft next, read key.name value draft = .ok next →
    key.content.Reads value ∧
      ∀ name, (name, true) ∈ filled next → name = key.name ∨ (name, true) ∈ filled draft

structure Structure.Told (s : Structure) (seen : List String) (members : List (String × Value))
    (before after : List (String × Bool)) : Prop where
  declared : ∀ member ∈ members, ∃ key ∈ s.keys, key.name = member.1
  fresh : ∀ member ∈ members, member.1 ∉ seen
  once : (members.map Prod.fst).Nodup
  part : ∀ key ∈ s.keys, ∀ value, (key.name, value) ∈ members → key.content.Reads value
  filled : ∀ name, (name, true) ∈ after → (name, true) ∈ before ∨ ∃ member ∈ members, member.1 = name

theorem Structure.told_of_readMembers (guides : s.Guides read filled) {seen : List String}
    {draft result : σ} (done : (Json.dialect .text).readMembers (s.keys.map Key.name) read seen members
      draft = .ok result) : s.Told seen members (filled draft) (filled result) := by
  -- the keys seen so far grow with every member, so the members behind it can not repeat its key
  induction members generalizing seen draft with
  | nil =>
    cases done
    exact ⟨by simp, by simp, by simp, by simp, fun _ full => .inl full⟩
  | cons member members ih =>
    obtain ⟨name, value⟩ := member
    obtain ⟨declared, fresh, next, first, rest⟩ := Dialect.readMembers_cons_eq_ok_iff.mp done
    obtain ⟨key, known, rfl⟩ := List.mem_map.mp declared
    obtain ⟨inside, kept⟩ := guides key known value draft next first
    have told := ih rest
    constructor
    · exact List.forall_mem_cons.mpr ⟨⟨key, known, rfl⟩, told.declared⟩
    · exact List.forall_mem_cons.mpr
        ⟨fresh, fun member listed seen => told.fresh member listed (.tail _ seen)⟩
    · refine List.nodup_cons.mpr ⟨?_, told.once⟩
      rintro again
      obtain ⟨member, listed, same⟩ := List.mem_map.mp again
      exact told.fresh member listed (same ▸ .head _)
    -- the part's key is known by its name only, so the guide is asked for it again
    · intro other known value' listed
      rcases List.mem_cons.mp listed with same | listed
      · obtain ⟨named, rfl⟩ := Prod.mk.inj same
        rw [← named] at first
        exact (guides other known value' draft next first).1
      · exact told.part other known value' listed
    · intro name full
      rcases told.filled name full with full | ⟨member, listed, same⟩
      · rcases kept name full with rfl | full
        · exact .inr ⟨_, .head _, rfl⟩
        · exact .inl full
      · exact .inr ⟨member, .tail _ listed, same⟩

inductive Structure.Lists (s : Structure) : Value → List (String × Value) → Prop where
  | object {members : List (String × Value)} {fault : Option Json.Fault} :
      Lists s (.object members fault) members
  | array {items : List Value} {fault : Option Json.Fault} :
      Lists s (.array items fault) ((s.keys.map Key.name).zip items)

theorem Structure.sound_of_readRecord (filled : σ → List (String × Bool)) {name : String} {start : σ}
    {build : Record Value ReadError → σ → Except ReadError β} {result : β}
    (guides : s.Guides read filled) (empty : ∀ name, (name, true) ∉ filled start)
    (full : ∀ record draft result, build record draft = .ok result →
      ∀ key ∈ s.keys, key.required = true → (key.name, true) ∈ filled draft)
    (done : (Json.dialect .text).readRecord name (s.keys.map Key.name) read start build value =
      .ok result) (lists : s.Lists value members) : s.Sound members := by
  obtain ⟨record, draft, found, read, built⟩ := Dialect.exists_of_readRecord done
  have told := told_of_readMembers guides read
  obtain rfl : record.members = members := by
    cases lists <;> cases found <;> rfl
  refine ⟨⟨told.declared, told.once, ?_⟩, told.part⟩
  intro key known required
  exact (told.filled key.name (full record draft result built key known required)).resolve_left
    (empty key.name)

def conditionFilled (draft : Condition.Draft) : List (String × Bool) :=
  [("field", draft.field.isSome), ("operator", draft.operator.isSome), ("value", draft.value.isSome)]

theorem Structure.sound_condition (reads : condition.Reads value)
    (lists : condition.Lists value members) : condition.Sound members := by
  obtain ⟨result, done⟩ := reads
  refine sound_of_readRecord conditionFilled ?guides ?empty ?full done lists
  case guides =>
    intro key known value draft next step
    simp only [keys, List.mem_cons, List.not_mem_nil, or_false] at known
    rcases known with rfl | rfl | rfl
    all_goals
      obtain ⟨_, _, ⟨⟩⟩ := bind_eq_ok_iff.mp step
      exact ⟨trivial, by grind [conditionFilled]⟩
  case empty => simp [conditionFilled]
  case full =>
    intro record draft result built
    simp only [Record.require_bind_eq_ok_iff] at built
    obtain ⟨_, field, _, operator, _, value, ⟨⟩⟩ := built
    simp [keys, conditionFilled, field, operator, value]

def thresholdsFilled (draft : Thresholds.Draft) : List (String × Bool) := [("pass", draft.pass.isSome)]

theorem Structure.sound_thresholds (reads : thresholds.Reads value)
    (lists : thresholds.Lists value members) : thresholds.Sound members := by
  obtain ⟨result, done⟩ := reads
  refine sound_of_readRecord thresholdsFilled ?guides ?empty ?full done lists
  case guides =>
    intro key known value draft next step
    simp only [keys, List.mem_cons, List.not_mem_nil, or_false] at known
    rcases known with rfl | rfl
    · obtain ⟨_, pass, ⟨⟩⟩ := bind_eq_ok_iff.mp step
      exact ⟨.inr ⟨_, pass⟩, by simp [thresholdsFilled]⟩
    · obtain ⟨_, warning, ⟨⟩⟩ := bind_eq_ok_iff.mp step
      exact ⟨eq_null_or_read_of_optional warning, fun _ => .inr⟩
  case empty => simp [thresholdsFilled]
  case full =>
    intro record draft result built
    obtain ⟨_, pass, ⟨⟩⟩ := Record.require_bind_eq_ok_iff.mp built
    simp [keys, thresholdsFilled, pass]

def ruleFilled (draft : Rule.Draft) : List (String × Bool) :=
  [("id", draft.id.isSome), ("severity", draft.severity.isSome), ("message", draft.message.isSome),
   ("recommendation", draft.recommendation.isSome)]

theorem Structure.sound_rule (reads : rule.Reads value) (lists : rule.Lists value members) :
    rule.Sound members := by
  obtain ⟨result, done⟩ := reads
  refine sound_of_readRecord ruleFilled ?guides ?empty ?full done lists
  case guides =>
    intro key known value draft next step
    simp only [keys, List.mem_cons, List.not_mem_nil, or_false] at known
    rcases known with rfl | rfl | rfl | rfl | rfl | rfl
    case inr.inr.inr.inr.inl =>
      obtain ⟨_, checks, ⟨⟩⟩ := bind_eq_ok_iff.mp step
      refine ⟨?_, fun _ => .inr⟩
      rcases eq_null_or_read_of_optional checks with rfl | ⟨_, listed⟩
      · trivial
      · exact Content.reads_list (fun _ _ read => ⟨_, read⟩) listed
    case inr.inr.inr.inr.inr =>
      obtain ⟨_, thresholds, ⟨⟩⟩ := bind_eq_ok_iff.mp step
      exact ⟨eq_null_or_read_of_optional thresholds, fun _ => .inr⟩
    all_goals
      obtain ⟨_, _, ⟨⟩⟩ := bind_eq_ok_iff.mp step
      exact ⟨trivial, by grind [ruleFilled]⟩
  case empty => simp [ruleFilled]
  case full =>
    intro record draft result built
    simp only [Record.require_bind_eq_ok_iff] at built
    obtain ⟨_, id, _, severity, _, message, _, recommendation, ⟨⟩⟩ := built
    simp [keys, ruleFilled, id, severity, message, recommendation]

def categoryFilled (draft : Category.Draft) : List (String × Bool) :=
  [("id", draft.id.isSome), ("name", draft.name.isSome), ("maxPoints", draft.maxPoints.isSome),
   ("rules", draft.rules.isSome)]

theorem Structure.sound_category (reads : category.Reads value)
    (lists : category.Lists value members) : category.Sound members := by
  obtain ⟨result, done⟩ := reads
  refine sound_of_readRecord categoryFilled ?guides ?empty ?full done lists
  case guides =>
    intro key known value draft next step
    simp only [keys, List.mem_cons, List.not_mem_nil, or_false] at known
    rcases known with rfl | rfl | rfl | rfl
    case inr.inr.inr =>
      obtain ⟨_, rules, ⟨⟩⟩ := bind_eq_ok_iff.mp step
      refine ⟨?_, by grind [categoryFilled]⟩
      exact Content.reads_list (fun _ _ read => ⟨_, read⟩) rules
    all_goals
      obtain ⟨_, _, ⟨⟩⟩ := bind_eq_ok_iff.mp step
      exact ⟨trivial, by grind [categoryFilled]⟩
  case empty => simp [categoryFilled]
  case full =>
    intro record draft result built
    simp only [Record.require_bind_eq_ok_iff] at built
    obtain ⟨_, id, _, name, _, maxPoints, _, rules, ⟨⟩⟩ := built
    simp [keys, categoryFilled, id, name, maxPoints, rules]

def tableFilled (first second third : String) (draft : NumberTable) : List (String × Bool) :=
  [(first, draft.first.isSome), (second, draft.second.isSome), (third, draft.third.isSome)]

theorem Structure.sound_severityWeights (reads : severityWeights.Reads value)
    (lists : severityWeights.Lists value members) : severityWeights.Sound members := by
  obtain ⟨result, done⟩ := reads
  refine sound_of_readRecord (tableFilled "HIGH" "MEDIUM" "LOW") ?guides ?empty ?full done lists
  case guides =>
    intro key known value draft next step
    simp only [keys, List.mem_cons, List.not_mem_nil, or_false] at known
    rcases known with rfl | rfl | rfl
    all_goals
      obtain ⟨_, _, ⟨⟩⟩ := bind_eq_ok_iff.mp step
      exact ⟨trivial, by grind [tableFilled]⟩
  case empty => simp [tableFilled]
  case full =>
    intro record draft result built
    simp only [Record.require_bind_eq_ok_iff] at built
    obtain ⟨_, high, _, medium, _, low, ⟨⟩⟩ := built
    simp [keys, tableFilled, high, medium, low]

theorem Structure.sound_statusScores (reads : statusScores.Reads value)
    (lists : statusScores.Lists value members) : statusScores.Sound members := by
  obtain ⟨result, done⟩ := reads
  refine sound_of_readRecord (tableFilled "PASS" "WARNING" "FAIL") ?guides ?empty ?full done lists
  case guides =>
    intro key known value draft next step
    simp only [keys, List.mem_cons, List.not_mem_nil, or_false] at known
    rcases known with rfl | rfl | rfl
    all_goals
      obtain ⟨_, _, ⟨⟩⟩ := bind_eq_ok_iff.mp step
      exact ⟨trivial, by grind [tableFilled]⟩
  case empty => simp [tableFilled]
  case full =>
    intro record draft result built
    simp only [Record.require_bind_eq_ok_iff] at built
    obtain ⟨_, pass, _, warning, _, fail, ⟨⟩⟩ := built
    simp [keys, tableFilled, pass, warning, fail]

theorem Structure.sound_scoring (reads : scoring.Reads value)
    (lists : scoring.Lists value members) : scoring.Sound members := by
  obtain ⟨result, done⟩ := reads
  -- both tables may be left out, so no place has to be filled
  refine sound_of_readRecord (fun _ => []) ?guides ?empty ?full done lists
  case guides =>
    intro key known value draft next step
    simp only [keys, List.mem_cons, List.not_mem_nil, or_false] at known
    rcases known with rfl | rfl
    all_goals
      obtain ⟨_, table, ⟨⟩⟩ := bind_eq_ok_iff.mp step
      exact ⟨.inr ⟨_, table⟩, by simp⟩
  case empty => simp
  case full => simp [keys]

def catalogFilled (draft : Catalog.Draft) : List (String × Bool) :=
  [("version", draft.version.isSome), ("categories", draft.categories.isSome)]

theorem Structure.sound_catalog (reads : catalog.Reads value)
    (lists : catalog.Lists value members) : catalog.Sound members := by
  obtain ⟨result, done⟩ := reads
  refine sound_of_readRecord catalogFilled ?guides ?empty ?full done lists
  case guides =>
    intro key known value draft next step
    simp only [keys, List.mem_cons, List.not_mem_nil, or_false] at known
    rcases known with rfl | rfl | rfl | rfl
    · obtain ⟨_, _, ⟨⟩⟩ := bind_eq_ok_iff.mp step
      exact ⟨trivial, by simp [catalogFilled]⟩
    · obtain ⟨_, _, ⟨⟩⟩ := bind_eq_ok_iff.mp step
      exact ⟨trivial, fun _ => .inr⟩
    · obtain ⟨_, scoring, ⟨⟩⟩ := bind_eq_ok_iff.mp step
      exact ⟨.inr ⟨_, scoring⟩, fun _ => .inr⟩
    · obtain ⟨_, categories, ⟨⟩⟩ := bind_eq_ok_iff.mp step
      refine ⟨?_, by grind [catalogFilled]⟩
      exact Content.reads_list (fun _ _ read => ⟨_, read⟩) categories
  case empty => simp [catalogFilled]
  case full =>
    intro record draft result built
    simp only [Record.require_bind_eq_ok_iff] at built
    obtain ⟨_, version, _, categories, ⟨⟩⟩ := built
    simp [keys, catalogFilled, version, categories]

theorem Structure.sound_of_reads (reads : s.Reads value) (lists : s.Lists value members) :
    s.Sound members := by
  cases s with
  | catalog => exact sound_catalog reads lists
  | scoring => exact sound_scoring reads lists
  | severityWeights => exact sound_severityWeights reads lists
  | statusScores => exact sound_statusScores reads lists
  | category => exact sound_category reads lists
  | rule => exact sound_rule reads lists
  | thresholds => exact sound_thresholds reads lists
  | condition => exact sound_condition reads lists

theorem mem_zip_of_getElem? {keys : List Key} {key : Key} {before after : List Value}
    (declared : keys[before.length]? = some key) :
    (key.name, value) ∈ (keys.map Key.name).zip (before ++ value :: after) := by
  have named : (keys.map Key.name)[before.length]? = some key.name := by
    rw [List.getElem?_map, declared, Option.map_some]
  have given : (before ++ value :: after)[before.length]? = some value := by simp
  have both : ((keys.map Key.name).zip (before ++ value :: after))[before.length]? =
      some (key.name, value) := List.getElem?_zip_eq_some.mpr ⟨named, given⟩
  exact List.mem_of_getElem? both

/-- What stands inside a structure that was read was read as well, or is an optional part that is
written out as absent. -/
theorem Place.reads {around : Value → Value} (place : Place s around)
    (reads : Structure.catalog.Reads (around value)) : value = .null ∨ s.Reads value := by
  induction place generalizing value with
  | root => exact .inr reads
  | member outer declared opens ih =>
    have outside := (ih reads).resolve_left (by simp)
    have sound := Structure.sound_of_reads outside .object
    exact opens.reads (sound.part _ declared _ (by simp))
  | item outer declared opens ih =>
    have outside := (ih reads).resolve_left (by simp)
    have sound := Structure.sound_of_reads outside .array
    exact opens.reads (sound.part _ (List.mem_of_getElem? declared) _ (mem_zip_of_getElem? declared))

end Reading

theorem Place.exactly {text : String} {s : Structure} {around : Value → Value}
    {members : List (String × Value)} {fault : Option Json.Fault} {catalog : Catalog Binary64}
    (accepted : parse .json text = .ok catalog) (place : Place s around)
    (found : (Json.Document.ofText text).root = around (.object members fault)) : s.Exact members := by
  obtain ⟨_, root, _⟩ := bind_eq_ok_iff.mp (parse_json_eq_ok_iff.mp accepted)
  rw [found] at root
  have reads := (place.reads ⟨_, root⟩).resolve_left (by simp)
  exact (Structure.sound_of_reads reads .object).exactly

/-- In an accepted text, every object that stands for a structure has exactly the keys of the structure;
with one key more that is undeclared or repeated, the text is refused. -/
theorem exact_of_parse {text : String} {catalog : Catalog Binary64}
    (accepted : parse .json text = .ok catalog) {s : Structure} {around : Value → Value}
    (place : Place s around) {members : List (String × Value)} {fault : Option Json.Fault}
    (found : (Json.Document.ofText text).root = around (.object members fault)) :
    s.Exact members ∧
      ∀ before after name value, members = before ++ after → s.Refuses members name →
        ∀ grown, (Json.Document.ofText grown).root =
            around (.object (before ++ (name, value) :: after) fault) →
          ∃ cause, parse .json grown = .error cause := by
  refine ⟨place.exactly accepted found, ?_⟩
  rintro before after name value rfl refused grown changed
  cases outcome : parse .json grown with
  | error cause => exact ⟨cause, rfl⟩
  | ok other =>
    have exactly := place.exactly outcome changed
    exact absurd exactly (Structure.not_exact_of_refuses refused)

def ruleOpen (rule : Value) : Value :=
  .object
    [("version", .text "1"),
     ("categories", .array
       [.object
         [("id", .text "title"), ("name", .text "Title"), ("maxPoints", .number (.integer 10)),
          ("rules", .array [rule] none)] none] none)] none

theorem place_ruleOpen : Place .rule ruleOpen := by
  have category : Place .category fun value =>
      .object [("version", .text "1"), ("categories", .array [value] none)] none :=
    @Place.member .catalog .category _ _ { name := "categories", content := .list .category }
      [("version", .text "1")] [] none .root (by simp [Structure.keys]) (@Content.Opens.list _ [] [] none)
  exact @Place.member .category .rule _ _ { name := "rules", content := .list .rule }
    [("id", .text "title"), ("name", .text "Title"), ("maxPoints", .number (.integer 10))] [] none
    category (by simp [Structure.keys]) (@Content.Opens.list _ [] [] none)

def passOpen (condition : Value) : Value :=
  ruleOpen <| .object
    [("id", .text "length"), ("severity", .text "HIGH"), ("message", .text "Too long"),
     ("recommendation", .text "Shorten it"), ("checks", .null),
     ("thresholds", .array [condition, .null] none)] none

theorem place_passOpen : Place .condition passOpen := by
  have thresholds := @Place.member .rule .thresholds _ _
    { name := "thresholds", content := .one .thresholds, required := false }
    [("id", .text "length"), ("severity", .text "HIGH"), ("message", .text "Too long"),
     ("recommendation", .text "Shorten it"), ("checks", .null)] [] none
    place_ruleOpen (by simp [Structure.keys]) .one
  exact @Place.item .thresholds .condition _ _ { name := "pass", content := .one .condition }
    [] [.null] none thresholds rfl .one

def passMembers : List (String × Value) :=
  [("field", .text "title.length"), ("operator", .text "lt"), ("value", .number (.integer 60))]

theorem ofText_passOpen {members : List (String × Value)}
    (readable : Value.MembersReadable 120 members) :
    Json.Document.ofText (passOpen (.object members none)).compact =
      ⟨passOpen (.object members none), none⟩ := by
  apply Json.ofText_compact
  simpa [passOpen, ruleOpen, Json.depthLimit, Value.Readable, Value.MembersReadable,
    Value.ItemsReadable, Json.Number.isReadable] using readable

theorem exact_of_parse_passOpen :
    (∃ catalog, parse .json (passOpen (.object passMembers none)).compact = .ok catalog) ∧
      Structure.condition.Exact passMembers ∧
      ∃ cause, parse .json (passOpen (.object (("unit", .text "px") :: passMembers) none)).compact =
        .error cause := by
  have plain := @ofText_passOpen passMembers ⟨trivial, trivial, rfl, trivial⟩
  have grown := @ofText_passOpen (("unit", .text "px") :: passMembers)
    ⟨trivial, trivial, trivial, rfl, trivial⟩
  obtain ⟨catalog, read⟩ : ∃ catalog,
      Catalog.ofNode (Json.dialect .text) (passOpen (.object passMembers none)) = .ok catalog := ⟨_, rfl⟩
  have accepted : parse .json (passOpen (.object passMembers none)).compact = .ok catalog := by
    rw [parse_json_eq_ok_iff, ofJson, plain]
    exact bind_eq_ok_iff.mpr ⟨catalog, read, rfl⟩
  have result := exact_of_parse accepted place_passOpen (congrArg Json.Document.root plain)
  refine ⟨⟨catalog, accepted⟩, result.1, ?_⟩
  refine result.2 [] passMembers "unit" (.text "px") rfl (.inl ?_) _ (congrArg Json.Document.root grown)
  simp [Structure.keys]

end PageHealth.Catalog
