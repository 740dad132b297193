import PageHealth.Proofs.Files.Storage

/-! The files of any machine. What is assumed of them is written down as laws, and it is enough to tell what
saving a file does; a machine in memory obeys the laws. -/
namespace PageHealth.Files

/-- What the files of a machine hold in a state, and which of them a path names. -/
structure Disk (σ : Type) where
  Spot : Type
  content? : σ → Spot → Option ByteArray
  spot? : σ → String → Option Spot

namespace Disk

variable {σ : Type} (disk : Disk σ)

/-- Both have the same files, and these hold the same. -/
def Same (before after : σ) : Prop := ∀ spot, disk.content? after spot = disk.content? before spot

def Keeps {α : Type} (action : StateM σ α) : Prop :=
  ∀ before, disk.Same before (action.run before).2

section Keeping

variable {disk} {before middle after : σ}

theorem Same.refl (state : σ) : disk.Same state state := fun _ => rfl

theorem Same.trans (first : disk.Same before middle) (second : disk.Same middle after) :
    disk.Same before after :=
  fun spot => (second spot).trans (first spot)

theorem keeps_pure {α : Type} (value : α) : disk.Keeps (pure value) := fun before => .refl before

theorem Keeps.bind {α β : Type} {action : StateM σ α} {next : α → StateM σ β}
    (first : disk.Keeps action) (rest : ∀ value, disk.Keeps (next value)) :
    disk.Keeps (action >>= next) := by
  intro before
  have run : (action >>= next).run before = (next (action.run before).1).run (action.run before).2 :=
    run_bind_of_run rfl
  rw [run]
  exact (first before).trans (rest _ _)

theorem Keeps.same {α : Type} {action : StateM σ α} {value : α} (keeps : disk.Keeps action)
    (run : action.run before = (value, after)) : disk.Same before after := by
  have same := keeps before
  rwa [run] at same

end Keeping

variable [Machine (StateM σ)]

/-- The content is all of the file that a path names, and no other file has changed. -/
structure Stored (before after : σ) (path : String) (content : ByteArray) : Prop where
  placed : ∃ spot, disk.spot? after path = some spot ∧ disk.content? after spot = some content ∧
    ∀ other, other ≠ spot → disk.content? after other = disk.content? before other
  read : endsInName path = true →
    ((Machine.read path : StateM σ (Except FileError ByteArray)).run after).1 = .ok content

/-- A file is replaced as a whole or not at all, and nothing else that a machine does changes one. -/
structure Lawful : Prop where
  isThere : ∀ path, disk.Keeps (Machine.isThere path)
  read : ∀ path, disk.Keeps (Machine.read path)
  createFolder : ∀ path, disk.Keeps (Machine.createFolder path)
  input : disk.Keeps Machine.input
  now : disk.Keeps Machine.now
  clock : disk.Keeps Machine.clock
  replace_error : ∀ path content before cause after,
    (Machine.replace path content : StateM σ _).run before = (.error cause, after) →
      disk.Same before after
  replace_ok : ∀ path content before after,
    (Machine.replace path content : StateM σ (Except ReplaceError Unit)).run before = (.ok (), after) →
      disk.Stored before after path content

variable {disk} {before middle after : σ} {path text : String} {content : ByteArray}

theorem Stored.of_same (same : disk.Same before middle)
    (stored : disk.Stored middle after path content) : disk.Stored before after path content := by
  obtain ⟨spot, named, there, others⟩ := stored.placed
  refine ⟨⟨spot, named, there, ?_⟩, stored.read⟩
  intro other apart
  exact (others other apart).trans (same other)

namespace Lawful

theorem keeps_ensureParent (lawful : disk.Lawful) (path : String) : disk.Keeps (ensureParent path) := by
  unfold ensureParent
  split
  · exact keeps_pure _
  · exact keeps_pure _
  · refine (lawful.isThere _).bind fun there => ?_
    cases there with
    | true => exact keeps_pure _
    | false => exact (lawful.createFolder _).bind fun _ => keeps_pure _

/-- How saving ends: with all files as they were, or with the text at the path. -/
theorem save_cases (lawful : disk.Lawful) {outcome : Except SaveError Unit}
    (saved : (save path text : StateM σ _).run before = (outcome, after)) :
    (∃ cause, outcome = .error cause ∧ disk.Same before after) ∨
      outcome = .ok () ∧ disk.Stored before after path text.toUTF8 := by
  unfold save at saved
  obtain ⟨ensured, middle, run⟩ : ∃ ensured middle,
      (ensureParent path : StateM σ _).run before = (ensured, middle) := ⟨_, _, rfl⟩
  have same := (lawful.keeps_ensureParent path).same run
  rw [run_bind_of_run run] at saved
  cases ensured with
  | error cause =>
    cases saved
    exact .inl ⟨cause, rfl, same⟩
  | ok _ =>
    obtain ⟨result, last, replaced⟩ : ∃ result last,
        (Machine.replace path text.toUTF8 : StateM σ _).run middle = (result, last) := ⟨_, _, rfl⟩
    dsimp only at saved
    rw [run_bind_of_run replaced] at saved
    cases result with
    | error cause =>
      have unchanged := lawful.replace_error _ _ _ _ _ replaced
      cases cause <;> cases saved <;> exact .inl ⟨_, rfl, same.trans unchanged⟩
    | ok _ =>
      cases saved
      exact .inr ⟨rfl, (lawful.replace_ok _ _ _ _ replaced).of_same same⟩

theorem same_of_save_eq_error (lawful : disk.Lawful) {cause : SaveError}
    (failed : (save path text : StateM σ _).run before = (.error cause, after)) :
    disk.Same before after := by
  obtain ⟨_, _, same⟩ | ⟨done, _⟩ := lawful.save_cases failed
  · exact same
  · cases done

theorem stored_of_save_eq_ok (lawful : disk.Lawful)
    (saved : (save path text : StateM σ (Except SaveError Unit)).run before = (.ok (), after)) :
    disk.Stored before after path text.toUTF8 := by
  obtain ⟨_, failed, _⟩ | ⟨_, stored⟩ := lawful.save_cases saved
  · cases failed
  · exact stored

end Lawful

end Disk

namespace World

def disk : Disk World where
  Spot := Place
  content? world := world.storage.content?
  spot? world path :=
    match fileName? path, world.storage.locateParent world.folder path with
    | some name, .ok parent => some (parent ++ [name])
    | _, _ => none

end World

end PageHealth.Files
