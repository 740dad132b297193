import PageHealth.Catalog.Init
import PageHealth.Catalog.Source
import PageHealth.Proofs.Catalog.Yaml
import PageHealth.Proofs.Files.Storage

namespace PageHealth

open Files (World Machine TextError run_bind_of_run)
open Yaml (fitsBlock keepsText isLongBlock isBare)

section OneLine

variable {text : String}

def bytesOf (text : String) : List UInt8 := text.toByteArray.data.toList

theorem bytesOf_eq (text : String) : bytesOf text = text.toList.flatMap String.utf8EncodeChar := by
  unfold bytesOf
  rw [← String.utf8Encode_toList]
  unfold List.utf8Encode
  simp

/-- A text on one line without a space at its end, as its bytes show: they are at hand where the
characters would have to be decoded first. -/
def isOneLine (text : String) : Bool :=
  !(bytesOf text).contains 10 && (bytesOf text).getLast? ≠ some 32

theorem fitsBlock_of_isOneLine (one : isOneLine text = true) (column : Nat) :
    fitsBlock column text = true := by
  simp only [isOneLine, Bool.and_eq_true, Bool.not_eq_true', List.contains_eq_mem,
    decide_eq_false_iff_not] at one
  have whole : '\n' ∉ text.toList := by
    intro broken
    refine one.1 ?_
    rw [bytesOf_eq]
    exact List.mem_flatMap.mpr ⟨'\n', broken, by decide⟩
  simp [fitsBlock, isLongBlock, whole]

theorem keepsText_of_isOneLine (one : isOneLine text = true) : keepsText text = true := by
  simp only [isOneLine, Bool.and_eq_true, decide_eq_true_eq] at one
  have shown : text.toList.getLast? ≠ some ' ' := by
    intro last
    obtain ⟨front, cut⟩ := List.getLast?_eq_some_iff.mp last
    have space : String.utf8EncodeChar ' ' = [32] := by decide
    refine one.2 ?_
    rw [bytesOf_eq, cut, List.flatMap_append, List.flatMap_singleton, space, List.getLast?_concat]
  simp [keepsText, shown]

end OneLine

section Parts

theorem Condition.keeps_of_isOneLine {condition : Condition Binary64}
    (field : isOneLine condition.field = true) (operator : isOneLine condition.operator = true)
    (kind : condition.value.kind ≠ "string") :
    condition.fitsBlocks = true ∧ condition.keepsTexts = true := by
  have value : condition.value.fitsBlocks = true ∧ condition.value.keepsTexts = true := by
    cases same : condition.value with
    | text s => exact absurd (by rw [same]; rfl) kind
    | _ => exact ⟨rfl, rfl⟩
  simp only [fitsBlocks, keepsTexts, Bool.and_eq_true]
  exact ⟨⟨⟨fitsBlock_of_isOneLine field _, fitsBlock_of_isOneLine operator _⟩, value.1⟩,
    ⟨keepsText_of_isOneLine field, keepsText_of_isOneLine operator⟩, value.2⟩

theorem Rule.keeps_of_isOneLine {rule : Rule Binary64} (id : isOneLine rule.id = true)
    (message : isOneLine rule.message = true) (recommendation : isOneLine rule.recommendation = true)
    (each : ∀ placed ∈ rule.conditions,
      placed.2.fitsBlocks = true ∧ placed.2.keepsTexts = true) :
    rule.fitsBlocks = true ∧ rule.keepsTexts = true := by
  simp only [fitsBlocks, keepsTexts, Bool.and_eq_true, List.all_eq_true]
  exact ⟨⟨⟨⟨fitsBlock_of_isOneLine id _, fitsBlock_of_isOneLine message _⟩,
        fitsBlock_of_isOneLine recommendation _⟩, fun placed present => (each placed present).1⟩,
    ⟨⟨keepsText_of_isOneLine id, keepsText_of_isOneLine message⟩,
        keepsText_of_isOneLine recommendation⟩, fun placed present => (each placed present).2⟩

theorem Category.keeps_of_isOneLine {category : Category Binary64}
    (id : isOneLine category.id = true) (name : isOneLine category.name = true)
    (each : ∀ rule ∈ category.rules, rule.fitsBlocks = true ∧ rule.keepsTexts = true) :
    category.fitsBlocks = true ∧ category.keepsTexts = true := by
  simp only [fitsBlocks, keepsTexts, Bool.and_eq_true, List.all_eq_true]
  exact ⟨⟨⟨fitsBlock_of_isOneLine id _, fitsBlock_of_isOneLine name _⟩,
      fun rule member => (each rule member).1⟩,
    ⟨keepsText_of_isOneLine id, keepsText_of_isOneLine name⟩, fun rule member => (each rule member).2⟩

end Parts

theorem textOf_toUTF8 (text : String) : Files.textOf text.toUTF8 = .ok text := by
  have valid : String.fromUTF8? text.toUTF8 = some text := dif_pos text.isValidUTF8
  unfold Files.textOf
  rw [valid]

namespace Catalog

section Standard

def texts (catalog : Catalog Binary64) : List String :=
  [catalog.version, catalog.engine] ++ catalog.categories.flatMap fun category =>
    [category.id, category.name] ++ category.rules.flatMap fun rule =>
      [rule.id, rule.message, rule.recommendation] ++ rule.conditions.flatMap fun (_, condition) =>
        [condition.field, condition.operator]

variable {catalog : Catalog Binary64}

theorem keeps_of_texts (lines : ∀ text ∈ catalog.texts, isOneLine text = true)
    (comparisons : ∀ placed ∈ catalog.conditions, placed.2.value.kind ≠ "string") :
    catalog.fitsBlocks = true ∧ catalog.keepsTexts = true := by
  have comparisons := (forall_conditions (P := fun c => c.value.kind ≠ "string")).mp comparisons
  simp only [texts, List.forall_mem_append, List.forall_mem_flatMap, List.forall_mem_cons,
    List.not_mem_nil, false_imp_iff, implies_true, and_true] at lines
  obtain ⟨⟨version, engine⟩, categories⟩ := lines
  have each : ∀ category ∈ catalog.categories,
      category.fitsBlocks = true ∧ category.keepsTexts = true := by
    intro category listed
    obtain ⟨⟨id, name⟩, rules⟩ := categories category listed
    apply Category.keeps_of_isOneLine id name
    intro rule member
    obtain ⟨⟨id, message, recommendation⟩, conditions⟩ := rules rule member
    apply Rule.keeps_of_isOneLine id message recommendation
    intro placed present
    obtain ⟨field, operator⟩ := conditions placed present
    exact Condition.keeps_of_isOneLine field operator
      (comparisons category listed rule member placed present)
  simp only [fitsBlocks, keepsTexts, Bool.and_eq_true, List.all_eq_true]
  exact ⟨⟨⟨fitsBlock_of_isOneLine version _, fitsBlock_of_isOneLine engine _⟩,
      fun category listed => (each category listed).1⟩,
    ⟨keepsText_of_isOneLine version, keepsText_of_isOneLine engine⟩,
      fun category listed => (each category listed).2⟩

theorem parse_yaml_standard : parse .yaml standard.toYaml = .ok standard := by
  have finite : ∀ placed ∈ (standard : Catalog Binary64).conditions,
      placed.2.value.isFinite = true := by decide +kernel
  have comparisons : ∀ placed ∈ (standard : Catalog Binary64).conditions,
      placed.2.value.kind ≠ "string" := by decide +kernel
  have lines : ∀ text ∈ (standard : Catalog Binary64).texts, isOneLine text = true := by
    decide +kernel
  obtain ⟨blocks, kept⟩ := keeps_of_texts lines comparisons
  exact parse_yaml_eq_ok_iff.mpr ((ofYaml_toYaml_iff standard_problems finite blocks).mpr kept)

/-- No JSON starts like the comment that a written catalog starts with. -/
theorem parse_json_toYaml (catalog : Catalog Binary64) :
    parse .json catalog.toYaml = .error (.json (.syntaxFault .expectedValue)) := by
  obtain ⟨rest, starts⟩ : ∃ rest, catalog.toYaml.toList = '#' :: rest := by
    obtain ⟨more, starts⟩ := List.head?_eq_some_iff.mp prefaceLines_idle.2.2.2
    rw [toList_toYaml, Yaml.textOfLines_append, starts]
    exact ⟨_, rfl⟩
  have read : ofJson catalog.toYaml = .error (.syntaxFault .expectedValue) := by
    unfold ofJson Json.Document.ofText Json.Document.ofChars
    rw [starts, Json.tokens]
    rfl
  unfold parse
  rw [read]
  rfl

end Standard

section Runs

variable {world after : World} {path : String} {force : Bool} {surroundings : Surroundings}

theorem writeStandard_cases {σ : Type} [Machine (StateM σ)] (path : String) (force : Bool)
    (before : σ) :
    (∃ after, (Machine.isThere path : StateM σ _).run before = (true, after) ∧ force = false ∧
      (writeStandard path force : StateM σ _).run before =
        (.error (.alreadyThere path), after)) ∨
    ∃ there middle outcome after,
      (Machine.isThere path : StateM σ _).run before = (there, middle) ∧
      (there = true → force = true) ∧
      (Files.save path standard.toYaml : StateM σ _).run middle = (outcome, after) ∧
      (writeStandard path force : StateM σ _).run before =
        (outcome.mapError .unsaved, after) := by
  unfold writeStandard
  cases looked : (Machine.isThere path : StateM σ _).run before with
  | mk there middle =>
    simp only [run_bind_of_run looked]
    by_cases refused : (there && !force) = true
    · obtain ⟨found, gentle⟩ : there = true ∧ force = false := by simpa using refused
      refine .inl ⟨middle, by rw [found], gentle, ?_⟩
      rw [if_pos refused]
      rfl
    · cases saved : (Files.save path standard.toYaml : StateM σ _).run middle with
      | mk outcome after =>
        refine .inr ⟨there, middle, outcome, after, rfl, by simpa using refused, saved, ?_⟩
        rw [if_neg refused, run_bind_of_run saved]
        rfl

theorem save_of_writeStandard
    (written : (writeStandard path force : StateM World _).run world = (.ok (), after)) :
    (Files.save path standard.toYaml : StateM World _).run world = (.ok (), after) := by
  obtain ⟨_, _, _, refused⟩ | ⟨_, _, outcome, _, looked, _, saved, ended⟩ :=
    writeStandard_cases path force world
  · cases written.symm.trans refused
  · cases (World.run_isThere path world).symm.trans looked
    cases outcome with
    | error cause => cases written.symm.trans ended
    | ok _ =>
      cases written.symm.trans ended
      exact saved

theorem run_load_of_run_read {σ : Type} [Machine (StateM σ)] {path : Option String}
    {before after : σ} {outcome : Except CatalogError Sourced}
    (found : (Catalog.read surroundings path : StateM σ _).run before = (outcome, after)) :
    (load surroundings path : StateM σ _).run before = (outcome >>= Sourced.check, after) := by
  unfold load
  rw [run_bind_of_run found]
  rfl

theorem run_load (surroundings : Surroundings) (path : String) (world : World) :
    (load surroundings (some path) : StateM World _).run world =
      ((if world.storage.isThere world.folder path then
          ofFile path
            (match world.storage.read world.folder path with
            | .ok bytes => Files.textOf bytes
            | .error cause => .error (.unreadable cause))
        else .error (.notFound path)) >>= Sourced.check, world) := by
  have text : (Files.readText path : StateM World _).run world =
      (match world.storage.read world.folder path with
        | .ok bytes => Files.textOf bytes
        | .error cause => .error (.unreadable cause), world) := by
    unfold Files.readText
    rw [run_bind_of_run (World.run_read path world)]
    cases world.storage.read world.folder path <;> rfl
  apply run_load_of_run_read
  unfold Catalog.read
  simp only [Option.getD_some, run_bind_of_run (World.run_isThere path world)]
  cases world.storage.isThere world.folder path with
  | true => exact run_bind_of_run text
  | false => rfl

theorem check_of_problems_eq_nil {sourced : Sourced} (accepted : sourced.catalog.problems = []) :
    sourced.check = .ok sourced := by
  unfold Sourced.check
  rw [accepted]

theorem ofFile_of_parse_eq_ok {text : String} {catalog : Catalog Binary64}
    (parsed : parse (.ofPath path) text = .ok catalog) :
    ofFile path (.ok text) = .ok ⟨catalog, some path⟩ := by
  unfold ofFile
  simp only [parsed]

theorem ofFile_of_parse_eq_error {text : String} {cause : SyntaxError}
    (parsed : parse (.ofPath path) text = .error cause) :
    ofFile path (.ok text) = .error (.malformed path cause) := by
  unfold ofFile
  simp only [parsed]

theorem run_load_of_endsInName (ends : Files.endsInName path = true)
    (written : (writeStandard path force : StateM World _).run world = (.ok (), after)) :
    (load surroundings (some path) : StateM World _).run after =
      (match CatalogFormat.ofPath path with
        | .yaml => .ok ⟨standard, some path⟩
        | .json => .error (.malformed path (.json (.syntaxFault .expectedValue))), after) := by
  obtain ⟨storage, replaced, same⟩ := World.save_eq_ok (save_of_writeStandard written)
  have folder : after.folder = world.folder := by rw [same]
  obtain ⟨there, bytes⟩ := Files.Storage.read_of_replace ends (folder ▸ replaced)
  rw [run_load, there, if_pos rfl, bytes]
  simp only [textOf_toUTF8]
  cases format : CatalogFormat.ofPath path with
  | yaml =>
    rw [ofFile_of_parse_eq_ok (format ▸ parse_yaml_standard)]
    change (Sourced.check ⟨standard, some path⟩, after) = _
    rw [@check_of_problems_eq_nil ⟨standard, some path⟩ standard_problems]
  | json =>
    rw [ofFile_of_parse_eq_error (format ▸ parse_json_toYaml standard)]
    rfl

theorem load_ne_ok_of_not_endsInName (ends : Files.endsInName path ≠ true)
    (written : (writeStandard path force : StateM World _).run world = (.ok (), after))
    (sourced : Sourced) :
    ((load surroundings (some path) : StateM World _).run after).1 ≠ .ok sourced := by
  obtain ⟨storage, replaced, _⟩ := World.save_eq_ok (save_of_writeStandard written)
  obtain ⟨name, _, named, _⟩ := Files.Storage.replace_eq_ok replaced
  rw [run_load]
  cases read : after.storage.read after.folder path with
  | ok bytes => exact absurd read (Files.Storage.read_ne_ok_of_not_endsInName named ends)
  | error cause =>
    cases after.storage.isThere after.folder path with
    | true => intro loaded; cases loaded
    | false => intro loaded; cases loaded

def bareWorld : World := ⟨.empty, [], .empty, ""⟩

theorem writeStandard_bareWorld {name : String} (named : Files.fileName? name = some name)
    (whole : '/' ∉ name.toList) :
    ∃ after, (writeStandard name false : StateM World _).run bareWorld = (.ok (), after) := by
  have here : bareWorld.storage.locateParent bareWorld.folder name = .ok bareWorld.folder :=
    Files.Storage.locateParent_name named whole rfl
  have absent : bareWorld.storage.isThere bareWorld.folder name = false := by
    unfold Files.Storage.isThere
    rw [Files.Storage.locate_of_locateParent named (Files.endsInName_name named whole)
      here]
    rfl
  have free : bareWorld.storage.entry? [name] ≠ some .folder := by
    simp [bareWorld, Files.Storage.empty, Files.Storage.entry?]
  obtain ⟨after, saved⟩ : ∃ after,
      (Files.save name standard.toYaml : StateM World _).run bareWorld = (.ok (), after) :=
    ⟨_, World.run_save_name named whole rfl free⟩
  refine ⟨after, ?_⟩
  unfold writeStandard
  simp only [run_bind_of_run (World.run_isThere name bareWorld), absent]
  exact run_bind_of_run saved

/-- The built-in catalog is loaded from where it was written exactly when the path ends in a file name
that does not ask for JSON; from no path is another catalog loaded. -/
theorem load_writeStandard_iff (surroundings : Surroundings) (path : String) (force : Bool)
    (world after : World)
    (written : (writeStandard path force : StateM World _).run world = (.ok (), after)) :
    ((load surroundings (some path) : StateM World _).run after =
        (.ok ⟨standard, some path⟩, after) ↔
      CatalogFormat.ofPath path = .yaml ∧ Files.endsInName path = true) ∧
    ∀ sourced, ((load surroundings (some path) : StateM World _).run after).1 = .ok sourced →
      sourced = ⟨standard, some path⟩ := by
  by_cases ends : Files.endsInName path = true
  · rw [run_load_of_endsInName ends written]
    cases CatalogFormat.ofPath path with
    | yaml =>
      refine ⟨iff_of_true rfl ⟨rfl, ends⟩, ?_⟩
      intro sourced loaded
      cases loaded
      rfl
    | json =>
      refine ⟨iff_of_false (fun loaded => ?_) (fun asked => ?_), ?_⟩
      · cases loaded
      · cases asked.1
      · intro sourced loaded
        cases loaded
  · have refused := @load_ne_ok_of_not_endsInName _ _ path force surroundings ends written
    refine ⟨iff_of_false (fun loaded => ?_) (fun asked => ends asked.2), ?_⟩
    · exact refused _ (congrArg Prod.fst loaded)
    · intro sourced loaded
      exact absurd loaded (refused sourced)

theorem load_writeStandard_yaml : ∃ after,
    (writeStandard "catalog.yaml" false : StateM World _).run bareWorld = (.ok (), after) ∧
      (load ⟨none, none, none⟩ (some "catalog.yaml") : StateM World _).run after =
        (.ok ⟨standard, some "catalog.yaml"⟩, after) := by
  have named : Files.fileName? "catalog.yaml" = some "catalog.yaml" := by decide +kernel
  obtain ⟨after, written⟩ := writeStandard_bareWorld named (by decide +kernel)
  refine ⟨after, written, ?_⟩
  exact (load_writeStandard_iff _ _ _ _ _ written).1.mpr (by decide +kernel)

/-- A file with the extension of JSON is written as YAML all the same, and is refused. -/
theorem load_writeStandard_json : ∃ after,
    (writeStandard "catalog.json" false : StateM World _).run bareWorld = (.ok (), after) ∧
      (load ⟨none, none, none⟩ (some "catalog.json") : StateM World _).run after =
        (.error (.malformed "catalog.json" (.json (.syntaxFault .expectedValue))), after) := by
  have named : Files.fileName? "catalog.json" = some "catalog.json" := by decide +kernel
  have whole : '/' ∉ "catalog.json".toList := by decide +kernel
  have format : CatalogFormat.ofPath "catalog.json" = .json := by decide +kernel
  obtain ⟨after, written⟩ := writeStandard_bareWorld named whole
  refine ⟨after, written, ?_⟩
  rw [run_load_of_endsInName (Files.endsInName_name named whole) written, format]

end Runs

end Catalog

end PageHealth
