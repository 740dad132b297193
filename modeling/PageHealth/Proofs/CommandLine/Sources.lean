import PageHealth.Proofs.CommandLine.Effects

/-! Facts on the standard input and facts in a file. The bytes are read in two ways, as a text or as they
are, and whichever way is taken the facts are the same or there are none; so the two ways to score end
alike. -/
namespace PageHealth

open Files (Machine Place Storage World run_bind_of_run)

namespace Files.World

def Looks {α : Type} (action : StateM World α) : Prop := ∀ world, (action.run world).2 = world

theorem looks_pure {α : Type} (value : α) : Looks (pure value) := fun _ => rfl

theorem Looks.bind {α β : Type} {action : StateM World α} {next : α → StateM World β}
    (first : Looks action) (rest : ∀ value, Looks (next value)) : Looks (action >>= next) := by
  intro world
  have kept : action.run world = ((action.run world).1, world) := Prod.ext rfl (first world)
  rw [run_bind_of_run kept]
  exact rest _ world

theorem looks_ofSteps : OfSteps fun _ => Looks where
  pure := looks_pure
  bind := Looks.bind
  isThere _ _ := rfl
  read _ _ := rfl

/-- The same files, seen from the same folder. What is on the standard input and what time it is may
differ. -/
structure SameDisk (first second : World) : Prop where
  storage : first.storage = second.storage
  folder : first.folder = second.folder

def OfDisk {α : Type} (action : StateM World α) : Prop :=
  ∀ ⦃first second : World⦄, first.SameDisk second →
    (action.run first).1 = (action.run second).1 ∧
      (action.run first).2.SameDisk (action.run second).2

section Actions

variable {α β : Type} {action : StateM World α} {first second : World}

theorem ofDisk_pure (value : α) : OfDisk (pure value) := fun _ _ same => ⟨rfl, same⟩

theorem OfDisk.bind {next : α → StateM World β} (start : OfDisk action)
    (rest : ∀ value, OfDisk (next value)) : OfDisk (action >>= next) := by
  intro first second same
  obtain ⟨value, disk⟩ := start same
  have here : (action >>= next).run first = (next (action.run first).1).run (action.run first).2 :=
    run_bind_of_run rfl
  have there : (action >>= next).run second =
      (next (action.run second).1).run (action.run second).2 := run_bind_of_run rfl
  rw [here, there, value]
  exact rest _ disk

theorem ofDisk_isThere (path : String) : OfDisk (Machine.isThere path) := by
  intro first second same
  rw [run_isThere, run_isThere, same.storage, same.folder]
  exact ⟨rfl, same⟩

theorem ofDisk_read (path : String) : OfDisk (Machine.read path) := by
  intro first second same
  rw [run_read, run_read, same.storage, same.folder]
  exact ⟨rfl, same⟩

theorem ofDisk_createFolder (path : String) : OfDisk (Machine.createFolder path) := by
  intro first second same
  have run (world : World) : (Machine.createFolder path : StateM World _).run world =
      ((world.storage.createFolder world.folder path).1,
        { world with storage := (world.storage.createFolder world.folder path).2 }) := rfl
  rw [run, run, same.storage, same.folder]
  exact ⟨rfl, rfl, rfl⟩

theorem ofDisk_ofSteps : OfSteps fun _ => OfDisk where
  pure := ofDisk_pure
  bind := OfDisk.bind
  isThere := ofDisk_isThere
  read := ofDisk_read

theorem ofDisk_ensureParent (path : String) : OfDisk (ensureParent path) := by
  unfold ensureParent
  split
  · exact ofDisk_pure _
  · exact ofDisk_pure _
  · apply (ofDisk_isThere _).bind
    intro there
    cases there with
    | true => exact ofDisk_pure _
    | false => exact (ofDisk_createFolder _).bind fun _ => ofDisk_pure _

/-- Whether a file can be replaced is not a question of what it is replaced with. -/
theorem replace_fst (storage : Storage) (folder : Place) (path : String) (content other : ByteArray) :
    (storage.replace folder path content).1 = (storage.replace folder path other).1 := by
  unfold Storage.replace
  cases fileName? path with
  | none => rfl
  | some name =>
    cases storage.locateParent folder path with
    | error cause => rfl
    | ok parent =>
      dsimp only
      split <;> rfl

theorem outcome_save (same : first.SameDisk second) (path text other : String) :
    ((save path text : StateM World _).run first).1 =
      ((save path other : StateM World _).run second).1 := by
  obtain ⟨ensured, middle, run⟩ : ∃ ensured middle,
      (ensureParent path : StateM World _).run first = (ensured, middle) := ⟨_, _, rfl⟩
  obtain ⟨otherwise, later, rerun⟩ : ∃ ensured middle,
      (ensureParent path : StateM World _).run second = (ensured, middle) := ⟨_, _, rfl⟩
  have alike := ofDisk_ensureParent path same
  rw [run, rerun] at alike
  obtain ⟨rfl, disk⟩ := alike
  unfold save
  rw [run_bind_of_run run, run_bind_of_run rerun]
  cases ensured with
  | error cause => rfl
  | ok _ =>
    dsimp only
    rw [run_bind_of_run (run_replace _ _ _), run_bind_of_run (run_replace _ _ _), disk.storage,
      disk.folder, replace_fst _ _ _ text.toUTF8 other.toUTF8]
    cases (later.storage.replace later.folder path other.toUTF8).1 with
    | error cause => cases cause <;> rfl
    | ok _ => rfl

end Actions

end Files.World

namespace CommandLine

variable {setting : Setting} {request : Request} {source path : String} {form : ReportForm}
  {output : Option String} {failUnder : Option Nat} {before after first second : World} {code : Nat}
  {printed : String} {sourced : Catalog.Sourced} {facts : Facts Binary64}

/-- How two runs compare that score the same bytes, one from the standard input of its machine and one
from a file of its own. -/
inductive Alike (setting : Setting) (request : Request) (form : ReportForm) (catalog : Catalog Binary64)
    (path : String) (first second : World) (fromInput fromFile : Result) : Prop where
  | refused (noInput : ∀ facts, Facts.ofInput first.input ≠ .ok facts)
      (noFile : ∀ facts, Facts.ofFile path (.ok first.input) ≠ .ok facts)
      (codes : fromInput.code = 1 ∧ fromFile.code = 1)
      (outputs : fromInput.output = "" ∧ fromFile.output = "")
  | scored (facts : Facts Binary64) (input : Facts.ofInput first.input = .ok facts)
      (file : Facts.ofFile path (.ok first.input) = .ok facts)
      (printed : Prints setting request.noColour ⟨"-", first.now, catalog.evaluate facts⟩ form
        fromInput.output)
      (printedFile : Prints setting request.noColour ⟨path, second.now, catalog.evaluate facts⟩ form
        fromFile.output)
      (outputs : form ≠ .json → fromInput.output = fromFile.output)
      (codes : fromInput.code = fromFile.code)

theorem Finishes.code_eq {report other : Report} {code otherCode : Nat} {after later : World}
    (finished : Finishes report failUnder first output code after)
    (refinished : Finishes other failUnder second output otherCode later)
    (same : first.SameDisk second) (score : report.evaluation = other.evaluation) :
    code = otherCode := by
  have outcome (path : String) := World.outcome_save same path report.json other.json
  cases finished with
  | @unsaved path _ _ failed =>
    cases refinished with
    | unsaved => rfl
    | saved written =>
      have differs := outcome path
      rw [failed, written] at differs
      cases differs
  | @saved path _ written =>
    cases refinished with
    | unsaved failed =>
      have differs := outcome path
      rw [failed, written] at differs
      cases differs
    | saved => rw [score]
  | unasked =>
    cases refinished with
    | unasked => rw [score]

/-- The same form of the same evaluation is the same text, unless it says where the facts are from. -/
theorem Prints.eq {report other : Report} {text otherText : String}
    (prints : Prints setting request.noColour report form text)
    (reprints : Prints setting request.noColour other form otherText)
    (same : report.evaluation = other.evaluation) (apart : form ≠ .json) : text = otherText := by
  cases prints with
  | table =>
    cases reprints
    rw [same]
  | tabSeparated =>
    cases reprints
    rw [same]
  | json => exact absurd rfl apart

theorem scores_of_read {arguments : List String} (setting : Setting)
    (asked : Request.read arguments = .ok request)
    (scores : request.command = .score source form output failUnder) (before : World) :
    let ended := (run setting arguments : StateM World Result).run before
    Scores setting request source form output failUnder before
      ended.1.code ended.1.output ended.2 := by
  have ends := request.ends_run setting before
  unfold Request.Ends at ends
  rw [scores] at ends
  unfold run
  rw [asked]
  exact ends

/-- Scoring what is on the standard input and scoring a file that holds it end alike. -/
theorem run_score_alike {fromInput fromFile : List String}
    (asked : Request.read fromInput = .ok { request with command := .score "-" form output failUnder })
    (askedFile : Request.read fromFile =
      .ok { request with command := .score path form output failUnder })
    (named : path ≠ "-") (same : first.SameDisk second)
    (held : second.storage.read second.folder path = .ok first.input)
    (loaded : ((Catalog.load setting.surroundings request.catalog : StateM World _).run first).1 =
      .ok sourced) :
    Alike setting request form sourced.catalog path first second
      ((run setting fromInput : StateM World Result).run first).1
      ((run setting fromFile : StateM World Result).run second).1 := by
  have here : (Catalog.load setting.surroundings request.catalog : StateM World _).run first =
      (.ok sourced, first) := Prod.ext loaded (World.looks_ofSteps.loadCatalog _ _ first)
  have there : (Catalog.load setting.surroundings request.catalog : StateM World _).run second =
      (.ok sourced, second) := by
    refine Prod.ext ?_ (World.looks_ofSteps.loadCatalog _ _ second)
    exact (World.ofDisk_ofSteps.loadCatalog _ _ same).1.symm.trans loaded
  have input : (Facts.loadFrom "-" : StateM World _).run first =
      (Facts.ofInput first.input, first) := rfl
  have file : (Facts.loadFrom path : StateM World _).run second =
      (Facts.ofFile path (.ok first.input), second) := by
    rw [← held, Facts.loadFrom, if_neg named]
    rfl
  have ends := scores_of_read setting asked rfl first
  have endsFile := scores_of_read setting askedFile rfl second
  cases read : Facts.ofBytes first.input with
  | ok facts =>
    have fromText := Facts.ofInput_eq_ok_iff.mpr read
    have fromBytes := (Facts.ofFile_eq_ok_iff path).mpr read
    rw [fromText] at input
    rw [fromBytes] at file
    obtain ⟨printed, finished⟩ := ends.prints_of_load here input rfl
    obtain ⟨printedFile, finishedFile⟩ := endsFile.prints_of_load there file rfl
    exact .scored facts fromText fromBytes printed printedFile (printed.eq printedFile rfl)
      (finished.code_eq finishedFile same rfl)
  | error cause =>
    have noFacts (facts : Facts Binary64) : Facts.ofBytes first.input ≠ .ok facts := by
      rw [read]
      exact fun same => nomatch same
    have noInput (facts : Facts Binary64) : Facts.ofInput first.input ≠ .ok facts :=
      fun found => noFacts facts (Facts.ofInput_eq_ok_iff.mp found)
    have noFile (facts : Facts Binary64) : Facts.ofFile path (.ok first.input) ≠ .ok facts :=
      fun found => noFacts facts ((Facts.ofFile_eq_ok_iff path).mp found)
    cases text : Facts.ofInput first.input with
    | ok facts => exact absurd text (noInput facts)
    | error notInput =>
      cases content : Facts.ofFile path (.ok first.input) with
      | ok facts => exact absurd content (noFile facts)
      | error notFile =>
        rw [text] at input
        rw [content] at file
        have ended := ends.noFacts_of_load here input
        have endedFile := endsFile.noFacts_of_load there file
        exact .refused noInput noFile ⟨ended.1, endedFile.1⟩ ⟨ended.2, endedFile.2⟩

/-- What is no text is refused both ways, and a page is scored both ways. -/
theorem run_score_alike_worldOf :
    let setting : Setting := ⟨⟨none, none, none⟩, none, false, none⟩
    let request : Request := ⟨true, false, none, .validate⟩
    let fromInput := ["score", "-", "-f", "json", "--fail-under=50", "-v"]
    let fromFile := ["-v", "score", "./facts.json", "-f", "json", "--fail-under", "50"]
    let noText : ByteArray := ⟨#[0x7b, 0x22, 0xff, 0x22, 0x3a, 0x31, 0x7d]⟩
    let page := ofTitle.toJson.toUTF8
    let first (content : ByteArray) := worldOf content "2024-02-29T23:59:59Z"
    let second (content : ByteArray) := { worldOf content "2024-03-01T00:00:00Z" with input := .empty }
    let input (content : ByteArray) :=
      ((run setting fromInput : StateM World Result).run (first content)).1
    let file (content : ByteArray) :=
      ((run setting fromFile : StateM World Result).run (second content)).1
    let alike (content : ByteArray) :=
      Alike setting request .json Catalog.standard "./facts.json" (first content) (second content)
        (input content) (file content)
    alike noText ∧ (input noText).code = 1 ∧ alike page ∧
      Prints setting false ⟨"-", "2024-02-29T23:59:59Z", Catalog.standard.evaluate ofTitle⟩ .json
        (input page).output ∧
      Prints setting false ⟨"./facts.json", "2024-03-01T00:00:00Z", Catalog.standard.evaluate ofTitle⟩
        .json (file page).output := by
  intro setting request fromInput fromFile noText page first second input file alike
  have asked : Request.read fromInput =
      .ok { request with command := .score "-" .json none (some 50) } := by rfl
  have askedFile : Request.read fromFile =
      .ok { request with command := .score "./facts.json" .json none (some 50) } := by rfl
  have held (content : ByteArray) :
      (second content).storage.read (second content).folder "./facts.json" = .ok content := by rfl
  have loaded (content : ByteArray) :
      ((Catalog.load setting.surroundings none : StateM World _).run (first content)).1 =
        .ok ⟨Catalog.standard, none⟩ := congrArg Prod.fst (load_worldOf content _)
  have same (content : ByteArray) : (first content).SameDisk (second content) := ⟨rfl, rfl⟩
  have ends (content : ByteArray) : alike content :=
    run_score_alike asked askedFile (by decide) (same content) (held content) (loaded content)
  have known : Facts.ofInput page = .ok ofTitle := Facts.ofInput_eq_ok_iff.mpr ofBytes_ofTitle
  have unknown (facts : Facts Binary64) : Facts.ofInput noText ≠ .ok facts := by
    intro found
    obtain ⟨text, decoded, _⟩ := Facts.ofBytes_eq_ok_iff.mp (Facts.ofInput_eq_ok_iff.mp found)
    have broken : String.fromUTF8? noText = none := by decide +kernel
    cases broken.symm.trans decoded
  refine ⟨ends noText, ?_, ends page, ?_⟩
  · cases ends noText with
    | refused _ _ codes => exact codes.1
    | scored facts found => exact absurd found (unknown facts)
  · cases ends page with
    | refused noInput => exact absurd known (noInput ofTitle)
    | scored facts found _ printed printedFile =>
      cases known.symm.trans found
      exact ⟨printed, printedFile⟩

end CommandLine

end PageHealth
