import PageHealth.Proofs.CommandLine.Runs
import PageHealth.Proofs.Facts.Json
import PageHealth.Proofs.Files.Disk

/-! What a command does to the files of a machine, by the code that it exits with: a run that fails changes
none, and only a report that is asked for or the built-in catalog is ever written. -/
namespace PageHealth

open Files (Disk FileError Machine World run_bind_of_run)

section Steps

variable {σ : Type} [Machine (StateM σ)]

/-- What holds of looking for a file and into it, and of steps one after the other as soon as it holds of
each. -/
structure OfSteps (P : (α : Type) → StateM σ α → Prop) : Prop where
  pure {α : Type} (value : α) : P α (Pure.pure value)
  bind {α β : Type} {action : StateM σ α} {next : α → StateM σ β} (first : P α action)
    (rest : ∀ value, P β (next value)) : P β (action >>= next)
  isThere (path : String) : P Bool (Machine.isThere path)
  read (path : String) : P (Except FileError ByteArray) (Machine.read path)

namespace OfSteps

variable {P : (α : Type) → StateM σ α → Prop}

theorem readText (steps : OfSteps P) (path : String) : P _ (Files.readText path) := by
  apply steps.bind (steps.read path)
  intro outcome
  cases outcome with
  | error cause => exact steps.pure _
  | ok bytes => exact steps.pure _

theorem readCatalog (steps : OfSteps P) (surroundings : Surroundings) (path : Option String) :
    P _ (Catalog.read surroundings path) := by
  apply steps.bind (steps.isThere _)
  intro there
  cases there with
  | true => exact steps.bind (steps.readText _) fun _ => steps.pure _
  | false =>
    cases path with
    | none => exact steps.pure _
    | some path => exact steps.pure _

theorem loadCatalog (steps : OfSteps P) (surroundings : Surroundings) (path : Option String) :
    P _ (Catalog.load surroundings path) :=
  steps.bind (steps.readCatalog surroundings path) fun _ => steps.pure _

theorem loadFrom (steps : OfSteps P) (input : P _ Machine.input) (source : String) :
    P _ (Facts.loadFrom source) := by
  unfold Facts.loadFrom
  split
  · apply steps.bind input
    intro outcome
    cases outcome with
    | error cause => exact steps.pure _
    | ok bytes => exact steps.pure _
  · exact steps.bind (steps.read source) fun _ => steps.pure _

end OfSteps

theorem Files.Disk.Lawful.ofSteps {disk : Disk σ} (lawful : disk.Lawful) :
    OfSteps fun _ => disk.Keeps where
  pure := Disk.keeps_pure
  bind := Disk.Keeps.bind
  isThere := lawful.isThere
  read := lawful.read

end Steps

namespace CommandLine

section Effects

variable {σ : Type} [Machine (StateM σ)] {disk : Disk σ} {setting : Setting} {request : Request}
  {source : String} {form : ReportForm} {output : Option String} {failUnder : Option Nat}
  {report : Report} {before after : σ} {code : Nat} {printed path : String} {force : Bool}

theorem keeps_moment (lawful : disk.Lawful) : disk.Keeps moment :=
  lawful.clock.bind fun _ => lawful.clock.bind fun _ => lawful.now

theorem Reports.same (lawful : disk.Lawful)
    (reported : Reports setting request source before report after) : disk.Same before after := by
  obtain ⟨sourced, middle, facts, read, loaded, known, stamp, _⟩ := reported.steps
  have first := (lawful.ofSteps.loadCatalog _ _).same loaded
  have second := (lawful.ofSteps.loadFrom lawful.input source).same known
  exact (first.trans second).trans ((keeps_moment lawful).same stamp)

theorem Finishes.same (lawful : disk.Lawful)
    (finished : Finishes report failUnder before output code after) (failed : code = 1) :
    disk.Same before after := by
  cases finished with
  | unsaved cause => exact lawful.same_of_save_eq_error cause
  | saved written => split at failed <;> cases failed
  | unasked => exact .refl _

theorem Finishes.stored (lawful : disk.Lawful)
    (finished : Finishes report failUnder before (some path) code after) (fine : code ≠ 1) :
    disk.Stored before after path report.json.toUTF8 := by
  cases finished with
  | unsaved cause => exact absurd rfl fine
  | saved written => exact lawful.stored_of_save_eq_ok written

theorem Scores.same (lawful : disk.Lawful)
    (ended : Scores setting request source form output failUnder before code printed after)
    (failed : code = 1 ∨ code = 4) : disk.Same before after := by
  cases ended with
  | noCatalog unusable => exact (lawful.ofSteps.loadCatalog _ _).same unusable
  | noFacts loaded unusable =>
    have first := (lawful.ofSteps.loadCatalog _ _).same loaded
    exact first.trans ((lawful.ofSteps.loadFrom lawful.input source).same unusable)
  | printed reported _ finished =>
    exact (reported.same lawful).trans (finished.same lawful (failed.resolve_right finished.code_ne))

/-- Scoring that had a report to save and did not fail has printed it and saved all of it. -/
theorem Scores.stored (lawful : disk.Lawful)
    (ended : Scores setting request source form (some path) failUnder before code printed after)
    (fine : code = 0 ∨ code = 5) : ∃ report stamped,
      Reports setting request source before report stamped ∧
        Prints setting request.noColour report form printed ∧
          disk.Stored before after path report.json.toUTF8 := by
  cases ended with
  | noCatalog => simp at fine
  | noFacts => simp at fine
  | printed reported prints finished =>
    have stored := finished.stored lawful (by omega)
    exact ⟨_, _, reported, prints, stored.of_same (reported.same lawful)⟩

theorem Inits.same (lawful : disk.Lawful) (ended : Inits path force before code printed after)
    (failed : code ≠ 0) : disk.Same before after := by
  cases ended with
  | refused there => exact (lawful.isThere path).same there
  | unsaved looked _ cause =>
    exact ((lawful.isThere path).same looked).trans (lawful.same_of_save_eq_error cause)
  | written => exact absurd rfl failed

end Effects

def worldOf (content : ByteArray) (now : String) : World :=
  ⟨⟨[(["facts.json"], .file content)]⟩, [], content, now⟩

theorem load_worldOf (content : ByteArray) (now : String) :
    (Catalog.load ⟨none, none, none⟩ none : StateM World _).run (worldOf content now) =
      (.ok ⟨Catalog.standard, none⟩, worldOf content now) := by
  have missing : (worldOf content now).storage.isThere (worldOf content now).folder
      (Surroundings.catalogPath ⟨none, none, none⟩) = false := by rfl
  have found : (Catalog.read ⟨none, none, none⟩ none : StateM World _).run (worldOf content now) =
      (.ok ⟨Catalog.standard, none⟩, worldOf content now) := by
    unfold Catalog.read
    rw [run_bind_of_run (World.run_isThere _ _), Option.getD_none, missing]
    rfl
  have checked : Catalog.Sourced.check ⟨Catalog.standard, none⟩ = .ok ⟨Catalog.standard, none⟩ :=
    Catalog.check_of_problems_eq_nil Catalog.standard_problems
  simp only [Catalog.run_load_of_run_read found, bind, Except.bind, checked]

def ofTitle : Facts Binary64 := .mk [("title", .map [("length", .number (.ofNat 40))])]

theorem ofBytes_ofTitle : Facts.ofBytes ofTitle.toJson.toUTF8 = .ok ofTitle := by
  have finite : (Binary64.ofNat 40).isFinite = true := by decide +kernel
  apply Facts.ofBytes_toJson
  · simp [Facts.tree, ofTitle, finite]
  · decide

end CommandLine

end PageHealth
