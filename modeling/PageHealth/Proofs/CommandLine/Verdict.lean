import PageHealth.Proofs.CommandLine.Runs

/-! The commands that read the catalog pass the same verdict on it, though one of them reads it
without the check of the others. -/
namespace PageHealth

open Files (Machine run_bind_of_run)

section Loading

variable {σ : Type} [Machine (StateM σ)] {surroundings : Surroundings} {path : Option String}
  {before after : σ} {sourced : Catalog.Sourced}

namespace Catalog

def Loads (surroundings : Surroundings) (path : Option String) (before : σ) : Prop :=
  ∃ sourced after, (load surroundings path : StateM σ _).run before = (.ok sourced, after)

theorem eq_standard_of_read
    (found : (Catalog.read surroundings path : StateM σ _).run before = (.ok sourced, after))
    (builtIn : sourced.source = none) : sourced.catalog = Catalog.standard := by
  unfold Catalog.read at found
  cases looked : (Machine.isThere (path.getD surroundings.catalogPath) : StateM σ Bool).run before with
  | mk there middle =>
    simp only [run_bind_of_run looked] at found
    cases there with
    | true =>
      cases text : (Files.readText (path.getD surroundings.catalogPath) : StateM σ _).run middle with
      | mk content read =>
        rw [if_pos rfl, run_bind_of_run text] at found
        have made : ofFile (path.getD surroundings.catalogPath) content = .ok sourced :=
          congrArg Prod.fst found
        unfold ofFile at made
        split at made
        · cases made
        · split at made
          · cases made
          · cases made
            cases builtIn
    | false =>
      cases path with
      | some path => cases found
      | none =>
        cases found
        rfl

theorem exists_source_of_read
    (found : (Catalog.read surroundings path : StateM σ _).run before = (.ok sourced, after))
    (faulty : sourced.catalog.problems ≠ []) : ∃ file, sourced.source = some file := by
  cases origin : sourced.source with
  | some file => exact ⟨file, rfl⟩
  | none =>
    rw [eq_standard_of_read found origin] at faulty
    exact absurd standard_problems faulty

theorem check_of_problems_ne_nil {file : String} (origin : sourced.source = some file)
    (faulty : sourced.catalog.problems ≠ []) : sourced.check =
      .error (.unusable file sourced.catalog.version sourced.catalog.problems) := by
  obtain ⟨problem, rest, listed⟩ := List.exists_cons_of_ne_nil faulty
  unfold Sourced.check
  rw [origin, listed]

theorem run_load_eq_ok_iff :
    (load surroundings path : StateM σ _).run before = (.ok sourced, after) ↔
      (Catalog.read surroundings path : StateM σ _).run before = (.ok sourced, after) ∧
        sourced.catalog.problems = [] := by
  cases found : (Catalog.read surroundings path : StateM σ _).run before with
  | mk outcome read =>
    rw [run_load_of_run_read found]
    cases outcome with
    | error cause =>
      exact iff_of_false (fun loaded => nomatch loaded) (fun both => nomatch both.1)
    | ok parsed =>
      by_cases accepted : parsed.catalog.problems = []
      · have checked : (Except.ok parsed >>= Sourced.check) = .ok parsed :=
          check_of_problems_eq_nil accepted
        rw [checked]
        refine ⟨fun loaded => ⟨loaded, ?_⟩, And.left⟩
        cases loaded
        exact accepted
      · obtain ⟨file, origin⟩ := exists_source_of_read found accepted
        have checked : (Except.ok parsed >>= Sourced.check) = .error (.unusable file _ _) :=
          check_of_problems_ne_nil origin accepted
        rw [checked]
        refine iff_of_false (fun loaded => nomatch loaded) fun both => accepted ?_
        cases both.1
        exact both.2

theorem loads_iff : Loads surroundings path before ↔
    ∃ sourced after, (Catalog.read surroundings path : StateM σ _).run before =
      (.ok sourced, after) ∧ sourced.catalog.problems = [] := by
  simp only [Loads, run_load_eq_ok_iff]

end Catalog

end Loading

section Listing

theorem intercalate_items (first : String) (rest : List String) :
    "  - " ++ String.intercalate "\n  - " (first :: rest) =
      String.intercalate "\n" ((first :: rest).map fun item => "  - " ++ item) := by
  induction rest generalizing first with
  | nil => simp only [List.map_cons, List.map_nil, String.intercalate_singleton]
  | cons second rest ih =>
    have cut : "\n  - " = "\n" ++ "  - " := rfl
    rw [String.intercalate_cons_cons, List.map_cons, List.map_cons, String.intercalate_cons_cons,
      ← List.map_cons, ← ih second, cut]
    simp only [String.append_assoc]

/-- The text of a refused catalog has one line more than the catalog has problems. -/
theorem message_unusable (path version : String) {problems : List (Problem Binary64)}
    (faulty : problems ≠ []) : (CatalogError.unusable path version problems).message =
      String.intercalate "\n"
        (("Invalid catalog at " ++ path ++ ": Catalog " ++ version ++ " has " ++
            digitsText problems.length ++ " error(s):") ::
          (problems.map Problem.message).map fun item => "  - " ++ item) := by
  have heading : " error(s):\n  - " = " error(s):" ++ "\n" ++ "  - " := rfl
  have place : ": Catalog " = ": " ++ "Catalog " := rfl
  have full : problems.map Problem.message ≠ [] := by simpa using faulty
  obtain ⟨first, rest, listed⟩ := List.exists_cons_of_ne_nil full
  change "Invalid catalog at " ++ path ++ ": " ++ problemsText version problems = _
  unfold problemsText
  rw [String.intercalate_cons_of_ne_nil (by simpa using faulty), listed, ← intercalate_items, heading,
    place]
  simp only [String.append_assoc]

def CommandLine.Result.lines (result : CommandLine.Result) : List String :=
  result.notices.filterMap fun
    | .line text => some text
    | .note _ => none

def CommandLine.Result.listed (result : CommandLine.Result) : List String :=
  (result.lines.dropWhile (· ≠ "Catalog errors:")).drop 1

end Listing

namespace CommandLine

variable {σ : Type} [Machine (StateM σ)] {setting : Setting} {request : Request}
  {before after : σ} {sourced : Catalog.Sourced}

theorem Result.lines_shown (filter : Log.Filter) (result : Result) :
    (result.shown filter).lines = result.lines := by
  unfold lines shown
  rw [List.filterMap_filter]
  congr 1
  funext notice
  cases notice with
  | note event => simp
  | line text => simp

theorem Result.listed_append (code : Nat) (output : String) (events : List Log.Event)
    (warnings errors : List String) (apart : "Catalog errors:" ∉ warnings) :
    Result.listed ⟨code, output, notes events ++ warnings.map .line ++
      .line "Catalog errors:" :: errors.map .line⟩ = errors := by
  have lines : Result.lines ⟨code, output, notes events ++ warnings.map .line ++
      .line "Catalog errors:" :: errors.map .line⟩ = warnings ++ "Catalog errors:" :: errors := by
    simp [Result.lines, notes, List.filterMap_append, List.filterMap_map]
  unfold listed
  rw [lines, List.dropWhile_append_of_pos]
  · simp
  · intro warning member
    have : warning ≠ "Catalog errors:" := fun same => apart (same ▸ member)
    simpa using this

theorem run_validate_of_problems_ne_nil
    (found : (Catalog.read setting.surroundings request.catalog : StateM σ _).run before =
      (.ok sourced, after)) (faulty : sourced.catalog.problems ≠ []) :
    ∃ result, (validate setting request : StateM σ Result).run before = (result, after) ∧
      result.code = 4 ∧
        result.listed = (sourced.catalog.problems.map Problem.message).map fun m => "  - " ++ m := by
  obtain ⟨problem, rest, listed⟩ := List.exists_cons_of_ne_nil faulty
  have apart : "Catalog errors:" ∉
      sourced.catalog.suspicions.map fun s => "warning: " ++ s.message := by
    intro member
    obtain ⟨suspicion, _, same⟩ := List.mem_map.mp member
    have first := congrArg (fun text => text.toList.head?) same
    simp at first
  have ended := Result.listed_append 4 "" (sourced.readEvents setting.surroundings) _
    ((sourced.catalog.problems.map Problem.message).map fun m => "  - " ++ m) apart
  refine ⟨_, ?_, rfl, ended⟩
  unfold validate
  simp only [run_bind_of_run found, listed, List.map_map]
  rfl

theorem code_validate_eq_zero_iff :
    ((validate setting request : StateM σ Result).run before).1.code = 0 ↔
      Catalog.Loads setting.surroundings request.catalog before := by
  rw [Catalog.loads_iff]
  cases found : (Catalog.read setting.surroundings request.catalog : StateM σ _).run before with
  | mk outcome after =>
    cases outcome with
    | error cause =>
      refine iff_of_false ?_ (fun ⟨_, _, same, _⟩ => nomatch same)
      unfold validate
      rw [run_bind_of_run found]
      exact fun code => nomatch code
    | ok sourced =>
      by_cases accepted : sourced.catalog.problems = []
      · refine iff_of_true ?_ ⟨sourced, after, rfl, accepted⟩
        unfold validate
        simp only [run_bind_of_run found, accepted]
        rfl
      · obtain ⟨result, ended, code, _⟩ := run_validate_of_problems_ne_nil found accepted
        rw [ended, code]
        refine iff_of_false (by decide) ?_
        rintro ⟨other, _, same, none⟩
        cases same
        exact accepted none

theorem code_showCatalog_eq_zero_iff :
    ((showCatalog setting request : StateM σ Result).run before).1.code = 0 ↔
      Catalog.Loads setting.surroundings request.catalog before := by
  unfold showCatalog
  cases loaded : (Catalog.load setting.surroundings request.catalog : StateM σ _).run before with
  | mk outcome after =>
    rw [run_bind_of_run loaded]
    cases outcome with
    | error cause =>
      refine iff_of_false (fun code => nomatch code) ?_
      rintro ⟨sourced, later, same⟩
      cases loaded.symm.trans same
    | ok sourced => exact iff_of_true rfl ⟨sourced, after, loaded⟩

/-- Scoring uses the code of an unusable catalog for nothing else. -/
theorem Scores.code_ne_iff {source : String} {form : ReportForm} {output : Option String}
    {failUnder : Option Nat} {code : Nat} {printed : String}
    (ended : Scores setting request source form output failUnder before code printed after) :
    code ≠ 4 ↔ Catalog.Loads setting.surroundings request.catalog before := by
  cases ended with
  | noCatalog unusable =>
    refine iff_of_false (absurd rfl) ?_
    rintro ⟨sourced, later, same⟩
    cases unusable.symm.trans same
  | noFacts loaded => exact iff_of_true (by decide) ⟨_, _, loaded⟩
  | printed reported _ finished =>
    obtain ⟨sourced, middle, _, _, loaded, _⟩ := reported.steps
    exact iff_of_true finished.code_ne ⟨sourced, middle, loaded⟩

/-- What the commands say about the catalog in effect at a state of the machine, whatever else they are
asked for. -/
structure Agree (setting : Setting) (path : Option String) (before : σ) : Prop where
  validates : ∀ request : Request, request.catalog = path → request.command = .validate →
    (((request.run setting : StateM σ Result).run before).1.code = 0 ↔
      Catalog.Loads setting.surroundings path before)
  shows : ∀ request : Request, request.catalog = path → request.command = .catalog →
    (((request.run setting : StateM σ Result).run before).1.code = 0 ↔
      Catalog.Loads setting.surroundings path before)
  scores : ∀ (request : Request) (source : String) (form : ReportForm) (output : Option String)
    (failUnder : Option Nat), request.catalog = path →
      request.command = .score source form output failUnder →
        (((request.run setting : StateM σ Result).run before).1.code ≠ 4 ↔
          Catalog.Loads setting.surroundings path before)
  accepts : ∀ sourced after,
    (Catalog.load setting.surroundings path : StateM σ _).run before = (.ok sourced, after) →
      sourced.catalog.problems = []
  lists : ∀ sourced cause after later,
    (Catalog.read setting.surroundings path : StateM σ _).run before = (.ok sourced, after) →
      (Catalog.load setting.surroundings path : StateM σ _).run before = (.error cause, later) →
        ∃ file : String,
          cause = .unusable file sourced.catalog.version sourced.catalog.problems ∧
          ∀ request : Request, request.catalog = path → request.command = .validate →
            let listed := ((request.run setting : StateM σ Result).run before).1.listed
            listed = (sourced.catalog.problems.map Problem.message).map (fun m => "  - " ++ m) ∧
              cause.message = String.intercalate "\n"
                (("Invalid catalog at " ++ file ++ ": Catalog " ++ sourced.catalog.version ++
                    " has " ++ digitsText sourced.catalog.problems.length ++ " error(s):") :: listed)

/-- One state of the machine, read by whatever command, gives one verdict. -/
theorem commands_agree (setting : Setting) (path : Option String) (σ : Type) [Machine (StateM σ)]
    (before : σ) : Agree setting path before where
  validates := by
    rintro request rfl asked
    unfold Request.run
    rw [asked]
    exact code_validate_eq_zero_iff
  shows := by
    rintro request rfl asked
    unfold Request.run
    rw [asked]
    exact code_showCatalog_eq_zero_iff
  scores := by
    rintro request source form output failUnder rfl asked
    have ended := request.ends_run setting before
    unfold Request.Ends at ended
    rw [asked] at ended
    exact ended.code_ne_iff
  accepts := by
    intro sourced after loaded
    exact (Catalog.run_load_eq_ok_iff.mp loaded).2
  lists := by
    intro sourced cause after later found refused
    have faulty : sourced.catalog.problems ≠ [] := by
      intro none
      cases refused.symm.trans (Catalog.run_load_eq_ok_iff.mpr ⟨found, none⟩)
    obtain ⟨file, origin⟩ := Catalog.exists_source_of_read found faulty
    have checked : (Except.ok sourced >>= Catalog.Sourced.check) = .error (.unusable file _ _) :=
      Catalog.check_of_problems_ne_nil origin faulty
    rw [Catalog.run_load_of_run_read found, checked] at refused
    cases refused
    refine ⟨file, rfl, ?_⟩
    rintro request rfl asked
    obtain ⟨result, ended, _, listed⟩ := run_validate_of_problems_ne_nil found faulty
    have shown : ((request.run setting : StateM σ Result).run before).1.listed =
        (sourced.catalog.problems.map Problem.message).map fun m => "  - " ++ m := by
      unfold Request.run
      rw [asked]
      change Result.listed (Result.shown _ ((validate setting request : StateM σ _).run before).1) = _
      rw [ended, ← listed]
      unfold Result.listed
      rw [Result.lines_shown]
    refine ⟨shown, ?_⟩
    rw [shown]
    exact message_unusable file _ faulty

end CommandLine

end PageHealth
