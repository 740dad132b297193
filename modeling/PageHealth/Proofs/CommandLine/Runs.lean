import PageHealth.CommandLine.Run
import PageHealth.Proofs.Catalog.Init

/-! How a command ends on any machine: which steps it has taken, one after the other, and with which
exit code and output. A step that is not named was not taken: a run that ends with the catalog leaves
the machine as loading the catalog has left it. -/
namespace PageHealth.CommandLine

open Files (Machine run_bind_of_run state_bind_of_answers)

section Endings

variable {σ : Type} [Machine (StateM σ)]

/-- The moment that a report is stamped with, after the clock was looked at twice. -/
def moment : StateM σ String := do
  let _ ← Machine.clock
  let _ ← Machine.clock
  Machine.now

/-- The report on a page: the catalog is loaded, then the facts are, then it is stamped. -/
structure Reports (setting : Setting) (request : Request) (source : String) (before : σ)
    (report : Report) (after : σ) : Prop where
  steps : ∃ sourced middle facts read,
    (Catalog.load setting.surroundings request.catalog : StateM σ _).run before =
        (.ok sourced, middle) ∧
      (Facts.loadFrom source : StateM σ _).run middle = (.ok facts, read) ∧
      (moment : StateM σ _).run read = (report.evaluatedAt, after) ∧
      report.evaluation = sourced.catalog.evaluate facts
  source : report.source = source

/-- What is printed of a report, by its form. -/
inductive Prints (setting : Setting) (noColour : Bool) (report : Report) :
    ReportForm → String → Prop where
  | table : Prints setting noColour report .table
      (report.evaluation.table (setting.colours && !noColour) setting.width ++ "\n")
  | json : Prints setting noColour report .json (report.json ++ "\n")
  | tabSeparated :
      Prints setting noColour report .tabSeparated (report.evaluation.tabSeparated ++ "\n")

/-- How a run ends whose report is printed already. The threshold counts when the report has been
saved as far as that was asked for. -/
inductive Finishes (report : Report) (failUnder : Option Nat) (before : σ) :
    Option String → Nat → σ → Prop where
  | unsaved {path : String} {cause : Files.SaveError} {after : σ}
      (failed : (Files.save path report.json : StateM σ _).run before = (.error cause, after)) :
      Finishes report failUnder before (some path) 1 after
  | saved {path : String} {after : σ}
      (written : (Files.save path report.json : StateM σ _).run before = (.ok (), after)) :
      Finishes report failUnder before (some path)
        (if ∃ n ∈ failUnder, report.evaluation.healthScore < n then 5 else 0) after
  | unasked : Finishes report failUnder before none
      (if ∃ n ∈ failUnder, report.evaluation.healthScore < n then 5 else 0) before

/-- How scoring ends: with a code, an output and a state of the machine. -/
inductive Scores (setting : Setting) (request : Request) (source : String) (form : ReportForm)
    (output : Option String) (failUnder : Option Nat) (before : σ) : Nat → String → σ → Prop where
  | noCatalog {cause : CatalogError} {after : σ}
      (unusable : (Catalog.load setting.surroundings request.catalog : StateM σ _).run before =
        (.error cause, after)) :
      Scores setting request source form output failUnder before 4 "" after
  | noFacts {sourced : Catalog.Sourced} {cause : FactsError} {middle after : σ}
      (loaded : (Catalog.load setting.surroundings request.catalog : StateM σ _).run before =
        (.ok sourced, middle))
      (unusable : (Facts.loadFrom source : StateM σ _).run middle = (.error cause, after)) :
      Scores setting request source form output failUnder before 1 "" after
  | printed {report : Report} {stamped after : σ} {code : Nat} {text : String}
      (reported : Reports setting request source before report stamped)
      (prints : Prints setting request.noColour report form text)
      (finished : Finishes report failUnder stamped output code after) :
      Scores setting request source form output failUnder before code text after

/-- How the built-in catalog is written to a path, or not. -/
inductive Inits (path : String) (force : Bool) (before : σ) : Nat → String → σ → Prop where
  | refused {after : σ} (there : (Machine.isThere path : StateM σ _).run before = (true, after))
      (gentle : force = false) :
      Inits path force before 4 "" after
  | unsaved {there : Bool} {middle after : σ} {cause : Files.SaveError}
      (looked : (Machine.isThere path : StateM σ _).run before = (there, middle))
      (allowed : there = true → force = true)
      (failed : (Files.save path Catalog.standard.toYaml : StateM σ _).run middle =
        (.error cause, after)) :
      Inits path force before 4 "" after
  | written {there : Bool} {middle after : σ}
      (looked : (Machine.isThere path : StateM σ _).run before = (there, middle))
      (allowed : there = true → force = true)
      (saved : (Files.save path Catalog.standard.toYaml : StateM σ _).run middle =
        (.ok (), after)) :
      Inits path force before 0 ("Wrote default catalog to " ++ path ++ "\n") after

end Endings

section Steps

variable {σ : Type} [Machine (StateM σ)]

theorem code_atThreshold (result : Result) (healthScore : Nat) (failUnder : Option Nat) :
    (result.atThreshold healthScore failUnder).code =
      if ∃ n ∈ failUnder, healthScore < n then 5 else result.code := by
  cases failUnder with
  | none => simp [Result.atThreshold]
  | some n =>
    by_cases below : healthScore < n
    · simp [Result.atThreshold, below, belowThreshold]
    · simp [Result.atThreshold, below]

theorem output_atThreshold (result : Result) (healthScore : Nat) (failUnder : Option Nat) :
    (result.atThreshold healthScore failUnder).output = result.output := by
  cases failUnder with
  | none => rfl
  | some n =>
    by_cases below : healthScore < n
    · simp [Result.atThreshold, below]
    · simp [Result.atThreshold, below]

theorem Finishes.code_ne {report : Report} {failUnder : Option Nat} {before after : σ}
    {output : Option String} {code : Nat}
    (finished : Finishes report failUnder before output code after) : code ≠ 4 := by
  cases finished with
  | unsaved => decide
  | saved => split <;> decide
  | unasked => split <;> decide

theorem finish_ends (request : Request) (report : Report) (output : Option String)
    (failUnder : Option Nat) (printed : String) (notices : List Notice) (before : σ) :
    let ended := (finish request report output failUnder ⟨success, printed, notices⟩ :
      StateM σ Result).run before
    Finishes report failUnder before output ended.1.code ended.2 ∧ ended.1.output = printed := by
  unfold finish
  cases output with
  | none =>
    refine ⟨?_, output_atThreshold _ _ _⟩
    change Finishes _ _ _ _ (Result.atThreshold _ _ _).code _
    rw [code_atThreshold]
    exact .unasked
  | some path =>
    cases saved : (Files.save path report.json : StateM σ _).run before with
    | mk outcome after =>
      simp only [run_bind_of_run saved]
      cases outcome with
      | error cause => exact ⟨.unsaved saved, rfl⟩
      | ok _ =>
        refine ⟨?_, output_atThreshold _ _ _⟩
        change Finishes _ _ _ _ (Result.atThreshold _ _ _).code _
        rw [code_atThreshold]
        exact .saved saved

theorem prints_iff {setting : Setting} {request : Request} {form : ReportForm} {report : Report}
    {text : String} :
    Prints setting request.noColour report form text ↔
      text = render setting request form report ++ "\n" := by
  constructor
  · rintro (_ | _ | _) <;> rfl
  · rintro rfl
    cases form with
    | table => exact .table
    | json => exact .json
    | tabSeparated => exact .tabSeparated

theorem score_ends (setting : Setting) (request : Request) (source : String) (form : ReportForm)
    (output : Option String) (failUnder : Option Nat) (before : σ) :
    let ended := (score setting request source form output failUnder : StateM σ Result).run before
    Scores setting request source form output failUnder before
      ended.1.code ended.1.output ended.2 := by
  unfold score
  cases loaded : (Catalog.load setting.surroundings request.catalog : StateM σ _).run before with
  | mk outcome middle =>
    simp only [run_bind_of_run loaded]
    cases outcome with
    | error cause => exact .noCatalog loaded
    | ok sourced =>
      cases known : (Facts.loadFrom source : StateM σ _).run middle with
      | mk outcome read =>
        simp only [run_bind_of_run known]
        cases outcome with
        | error cause => exact .noFacts loaded known
        | ok facts =>
          obtain ⟨started, ticked, began⟩ : ∃ value after,
              (Machine.clock : StateM σ Nat).run read = (value, after) := ⟨_, _, rfl⟩
          obtain ⟨finished, ready, stopped⟩ : ∃ value after,
              (Machine.clock : StateM σ Nat).run ticked = (value, after) := ⟨_, _, rfl⟩
          obtain ⟨now, stamped, stamp⟩ : ∃ value after,
              (Machine.now : StateM σ String).run ready = (value, after) := ⟨_, _, rfl⟩
          have last : (moment : StateM σ String).run read = (now, stamped) := by
            rw [moment, run_bind_of_run began, run_bind_of_run stopped, stamp]
          let report : Report := ⟨source, now, sourced.catalog.evaluate facts⟩
          have reported : Reports setting request source before report stamped :=
            ⟨⟨sourced, middle, facts, read, loaded, known, last, rfl⟩, rfl⟩
          simp only [run_bind_of_run began, run_bind_of_run stopped, run_bind_of_run stamp]
          have ends (notices : List Notice) := finish_ends request report output failUnder
            (render setting request form report ++ "\n") notices stamped
          rw [(ends _).2]
          exact .printed reported (prints_iff.mpr rfl) (ends _).1

section Known

variable {setting : Setting} {request : Request} {source printed : String} {form : ReportForm}
  {output : Option String} {failUnder : Option Nat} {before middle read after : σ} {code : Nat}
  {sourced : Catalog.Sourced}

theorem Scores.noFacts_of_load
    (ended : Scores setting request source form output failUnder before code printed after)
    (loaded : (Catalog.load setting.surroundings request.catalog : StateM σ _).run before =
      (.ok sourced, middle)) {cause : FactsError}
    (known : (Facts.loadFrom source : StateM σ _).run middle = (.error cause, read)) :
    code = 1 ∧ printed = "" := by
  cases ended with
  | noCatalog unusable => cases loaded.symm.trans unusable
  | noFacts => exact ⟨rfl, rfl⟩
  | printed reported =>
    obtain ⟨_, _, _, _, found, factual, _⟩ := reported.steps
    cases loaded.symm.trans found
    cases known.symm.trans factual

theorem Scores.prints_of_load
    (ended : Scores setting request source form output failUnder before code printed after)
    (loaded : (Catalog.load setting.surroundings request.catalog : StateM σ _).run before =
      (.ok sourced, middle)) {facts : Facts Binary64}
    (known : (Facts.loadFrom source : StateM σ _).run middle = (.ok facts, read)) {now : String}
    {stamped : σ} (stamp : (moment : StateM σ _).run read = (now, stamped)) :
    let report : Report := ⟨source, now, sourced.catalog.evaluate facts⟩
    Prints setting request.noColour report form printed ∧
      Finishes report failUnder stamped output code after := by
  cases ended with
  | noCatalog unusable => cases loaded.symm.trans unusable
  | noFacts found unusable =>
    cases loaded.symm.trans found
    cases known.symm.trans unusable
  | @printed report _ _ _ _ reported prints finished =>
    obtain ⟨_, _, _, _, found, factual, stamps, evaluated⟩ := reported.steps
    cases loaded.symm.trans found
    cases known.symm.trans factual
    obtain ⟨same, rfl⟩ := Prod.ext_iff.mp (stamp.symm.trans stamps)
    have whole : report = ⟨source, now, sourced.catalog.evaluate facts⟩ := by
      rw [← reported.source, ← evaluated, show now = report.evaluatedAt from same]
    rw [← whole]
    exact ⟨prints, finished⟩

end Known

theorem init_ends (setting : Setting) (request : Request) (force : Bool) (before : σ) :
    let ended := (init setting request force : StateM σ Result).run before
    Inits (request.catalog.getD setting.surroundings.catalogPath) force before
      ended.1.code ended.1.output ended.2 := by
  unfold init
  obtain ⟨_, there, gentle, refused⟩ | ⟨_, _, outcome, _, looked, allowed, saved, written⟩ :=
    Catalog.writeStandard_cases (request.catalog.getD setting.surroundings.catalogPath) force before
  · simp only [run_bind_of_run refused]
    exact .refused there gentle
  · simp only [run_bind_of_run written]
    cases outcome with
    | error cause => exact .unsaved looked allowed saved
    | ok _ => exact .written looked allowed saved

/-- How a request ends on any machine. What only reads the catalog leaves the machine as reading the
catalog does. -/
def Request.Ends (setting : Setting) (request : Request) (before : σ) (ended : Result × σ) : Prop :=
  match request.command with
  | .score source form output failUnder =>
    Scores setting request source form output failUnder before ended.1.code ended.1.output ended.2
  | .validate =>
    ended.2 = ((Catalog.read setting.surroundings request.catalog : StateM σ _).run before).2
  | .init force =>
    Inits (request.catalog.getD setting.surroundings.catalogPath) force before
      ended.1.code ended.1.output ended.2
  | .catalog =>
    ended.2 = ((Catalog.load setting.surroundings request.catalog : StateM σ _).run before).2

theorem validate_state (setting : Setting) (request : Request) (before : σ) :
    ((validate setting request : StateM σ Result).run before).2 =
      ((Catalog.read setting.surroundings request.catalog : StateM σ _).run before).2 := by
  refine state_bind_of_answers (fun outcome => ?_) before
  cases outcome with
  | error cause => exact ⟨_, rfl⟩
  | ok sourced =>
    dsimp only
    split
    · exact ⟨_, rfl⟩
    · exact ⟨_, rfl⟩

theorem showCatalog_state (setting : Setting) (request : Request) (before : σ) :
    ((showCatalog setting request : StateM σ Result).run before).2 =
      ((Catalog.load setting.surroundings request.catalog : StateM σ _).run before).2 := by
  refine state_bind_of_answers (fun outcome => ?_) before
  cases outcome with
  | error cause => exact ⟨_, rfl⟩
  | ok sourced => exact ⟨_, rfl⟩

/-- Which notes are shown makes no difference to how a run ends. -/
theorem Request.ends_run (setting : Setting) (request : Request) (before : σ) :
    request.Ends setting before ((request.run setting : StateM σ Result).run before) := by
  unfold Request.Ends Request.run
  cases request.command with
  | score source form output failUnder =>
    exact score_ends setting request source form output failUnder before
  | validate => exact validate_state setting request before
  | init force => exact init_ends setting request force before
  | catalog => exact showCatalog_state setting request before

end Steps

end PageHealth.CommandLine
