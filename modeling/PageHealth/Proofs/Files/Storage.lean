import PageHealth.Files.Save
import PageHealth.Files.Storage
import PageHealth.Proofs.Files.Path

namespace PageHealth.Files

namespace Storage

variable {storage after : Storage} {folder place target : Place} {path name : String}

section Entries

variable {entry : Entry}

theorem entry?_put_self (below : place ≠ []) :
    Storage.entry? (storage.put place entry) place = some entry := by
  unfold Storage.entry? put
  simp [below]

theorem entry?_put_of_ne (apart : place ≠ target) :
    Storage.entry? (storage.put target entry) place = storage.entry? place := by
  unfold entry? put
  split
  · rfl
  · rw [List.find?_cons_of_neg (by simpa using apart.symm), List.find?_filter]
    congr 2
    funext e
    by_cases same : e.1 = place
    · simp [same, apart]
    · simp [same]

end Entries

section Walks

variable {segment : String} {segments : List String} {content : ByteArray}

theorem folder_of_step (found : storage.step place segment = .ok target) :
    storage.entry? place = some .folder := by
  unfold step at found
  split at found
  · cases found
  · cases found
  · assumption

theorem step_of_staysInPlace (stays : staysInPlace segment = true) :
    storage.step place segment = storage.step place "." := by
  have point : staysInPlace "." = true := rfl
  simp only [step, stays, point, if_true]

theorem eq_of_step_of_staysInPlace (stays : staysInPlace segment = true)
    (found : storage.step place segment = .ok target) : target = place := by
  have folder := folder_of_step found
  simp only [step, folder, stays, if_true, Except.ok.injEq] at found
  exact found.symm

theorem step_name (folder : storage.entry? place = some .folder) (real : staysInPlace name = false)
    (onward : name ≠ "..") : storage.step place name = .ok (place ++ [name]) := by
  simp [step, folder, real, onward]

theorem step_bind_step : (storage.step place "." >>= fun p => storage.step p ".") =
    storage.step place "." := by
  cases found : storage.step place "." with
  | error cause => rfl
  | ok target =>
    have same := eq_of_step_of_staysInPlace rfl found
    subst same
    exact found

/-- A file that is put where no folder is does not change where a path leads. -/
theorem step_put (free : storage.entry? target ≠ some .folder) {next : Place}
    (found : storage.step place segment = .ok next) :
    (storage.put target (.file content)).step place segment = .ok next := by
  have folder := folder_of_step found
  have apart : place ≠ target := fun same => free (same ▸ folder)
  unfold step at found ⊢
  rwa [entry?_put_of_ne apart]

theorem foldlM_step_put (free : storage.entry? target ≠ some .folder) {next : Place}
    (found : segments.foldlM storage.step place = .ok next) :
    segments.foldlM (storage.put target (.file content)).step place = .ok next := by
  induction segments generalizing place with
  | nil => exact found
  | cons segment segments ih =>
    rw [List.foldlM_cons] at found ⊢
    cases first : storage.step place segment with
    | error cause =>
      rw [first] at found
      cases found
    | ok middle =>
      rw [first] at found
      rw [step_put free first]
      exact ih found

theorem locate_put (free : storage.entry? target ≠ some .folder)
    (found : storage.locate folder path = .ok place) :
    (storage.put target (.file content)).locate folder path = .ok place := by
  unfold locate at found ⊢
  split at found
  · cases found
  · rw [if_neg ‹_›]
    exact foldlM_step_put free found

end Walks

section Parents

def walk (storage : Storage) (place : Place) (cs : List Char) : Except FileError Place :=
  ((splitAt '/' cs).map String.ofList).foldlM storage.step place

theorem walk_append {before after : List Char} : storage.walk place (before ++ '/' :: after) =
    (storage.walk place before >>= fun middle => storage.walk middle after) := by
  unfold walk
  rw [splitAt_append_cons, List.map_append, List.foldlM_append]

theorem walk_nil : storage.walk place [] = storage.step place "." := by
  have nothing : storage.walk place [] = (storage.step place "" >>= pure) := rfl
  rw [nothing, bind_pure, step_of_staysInPlace rfl]

theorem walk_name (whole : '/' ∉ name.toList) :
    storage.walk place name.toList = storage.step place name := by
  rw [walk, splitAt_of_notMem whole, List.map_singleton, String.ofList_toList]
  exact bind_pure (storage.step place name)

theorem walk_point : storage.walk place ['.'] = storage.step place "." :=
  @walk_name _ _ "." (by decide)

theorem walk_trimSlashes (cs : List Char) :
    (storage.walk place (trimSlashes cs).reverse >>= fun p => storage.step p ".") =
      (storage.walk place cs.reverse >>= fun p => storage.step p ".") := by
  fun_induction trimSlashes cs with
  | case1 c rest ih =>
    have cut : ('/' :: c :: rest).reverse = (c :: rest).reverse ++ '/' :: [] := List.reverse_cons
    rw [ih, cut, walk_append, bind_assoc]
    simp only [walk_nil, step_bind_step]
  | case2 rest ih =>
    have shorter : ('/' :: rest).reverse = rest.reverse ++ '/' :: [] := List.reverse_cons
    have longer : ('.' :: '/' :: rest).reverse = rest.reverse ++ '/' :: ['.'] := by simp
    rw [ih, shorter, longer, walk_append, walk_append]
    simp only [walk_nil, walk_point]
  | case3 cs => rfl

theorem locate_eq_walk (full : path ≠ "") : storage.locate folder path =
    storage.walk (if path.toList.head? = some '/' then [] else folder) path.toList := by
  unfold locate walk isAbsolute segments
  rw [if_neg full]
  simp

/-- The folder that a path of several segments lies in is where the walk stands before the last. -/
theorem locateParent_append {before : List Char} (real : staysInPlace name = false)
    (whole : '/' ∉ name.toList) (cut : path.toList = before ++ '/' :: name.toList) :
    storage.locateParent folder path =
      (storage.walk (if path.toList.head? = some '/' then [] else folder) before >>= fun p =>
        storage.step p ".") := by
  let trimmed := trimSlashes ('/' :: before.reverse)
  have shown : trimmed.reverse ≠ [] := by simpa using trimSlashes_ne_nil (List.cons_ne_nil _ _)
  have full : String.ofList trimmed.reverse ≠ "" := by simpa using shown
  have cutAbove : ('/' :: before.reverse).reverse = before ++ '/' :: [] := by simp
  have start : (String.ofList trimmed.reverse).toList.head? = path.toList.head? := by
    rw [String.toList_ofList, List.head?_reverse, getLast?_trimSlashes, ← List.head?_reverse, cutAbove,
      cut]
    cases before <;> rfl
  have parent : parent? path = some (String.ofList trimmed.reverse) := parent?_append real whole cut
  have here : storage.locateParent folder path =
      (storage.locate folder (String.ofList trimmed.reverse) >>= fun p => storage.step p ".") := by
    unfold locateParent
    rw [parent, Option.getD_some, if_neg full]
  rw [here, locate_eq_walk full, start, String.toList_ofList, walk_trimSlashes, cutAbove, walk_append,
    bind_assoc]
  simp only [walk_nil, step_bind_step]

theorem locate_of_locateParent (named : fileName? path = some name)
    (ends : endsInName path = true) (found : storage.locateParent folder path = .ok place) :
    storage.locate folder path = .ok (place ++ [name]) := by
  obtain ⟨real, onward⟩ := real_of_fileName? named
  obtain ⟨whole, rfl | ⟨before, cut⟩⟩ := exists_cut_of_endsInName named ends
  · -- A single name lies in the folder that relative paths start from.
    have absent : path.toList.head? ≠ some '/' := fun same => whole (List.mem_of_head? same)
    have full : path ≠ "" := by
      rintro rfl
      cases real
    have here : storage.step folder "." = .ok place := by
      simpa [locateParent, parent?_name named whole, bind, Except.bind] using found
    have same := eq_of_step_of_staysInPlace rfl here
    subst same
    rw [locate_eq_walk full, if_neg absent, walk_name whole]
    exact step_name (folder_of_step here) real onward
  · -- Else the folder is where the walk stands before the last segment.
    have full : path ≠ "" := by
      rintro rfl
      cases before <;> cases cut
    rw [locateParent_append real whole cut] at found
    cases walked : storage.walk (if path.toList.head? = some '/' then [] else folder) before with
    | error cause =>
      rw [walked] at found
      cases found
    | ok middle =>
      rw [walked] at found
      have same := eq_of_step_of_staysInPlace rfl found
      subst same
      rw [locate_eq_walk full, cut, walk_append, ← cut, walked]
      exact (walk_name whole).trans (step_name (folder_of_step found) real onward)

end Parents

section Replacing

variable {content : ByteArray}

theorem replace_eq_ok (replaced : storage.replace folder path content = (.ok (), after)) :
    ∃ name place, fileName? path = some name ∧ storage.locateParent folder path = .ok place ∧
      storage.entry? (place ++ [name]) ≠ some .folder ∧
        after = storage.put (place ++ [name]) (.file content) := by
  unfold replace at replaced
  split at replaced
  · cases replaced
  · cases replaced
  · rename_i name place named found
    refine ⟨name, place, named, found, ?_⟩
    simp only at replaced
    split at replaced
    · cases replaced
    · rename_i free
      exact ⟨free, (congrArg Prod.snd replaced).symm⟩

theorem locate_of_replace (ends : endsInName path = true)
    (replaced : storage.replace folder path content = (.ok (), after)) :
    ∃ place, after.locate folder path = .ok place ∧ after.entry? place = some (.file content) := by
  obtain ⟨name, place, named, found, free, rfl⟩ := replace_eq_ok replaced
  refine ⟨place ++ [name], ?_, entry?_put_self (by simp)⟩
  exact locate_put free (locate_of_locateParent named ends found)

theorem read_of_replace (ends : endsInName path = true)
    (replaced : storage.replace folder path content = (.ok (), after)) :
    after.isThere folder path = true ∧ after.read folder path = .ok content := by
  obtain ⟨place, found, there⟩ := locate_of_replace ends replaced
  constructor
  · simp only [isThere, found, there, Option.isSome_some]
  · simp only [Storage.read, found, bind, Except.bind, there]

theorem folder_of_foldlM {front : List String} {last : String} {start : Place}
    (stays : staysInPlace last = true)
    (found : (front ++ [last]).foldlM storage.step start = .ok place) :
    storage.entry? place = some .folder := by
  rw [List.foldlM_append] at found
  cases first : front.foldlM storage.step start with
  | error cause =>
    rw [first] at found
    cases found
  | ok middle =>
    rw [first] at found
    have here : storage.step middle last = .ok place :=
      (bind_pure (storage.step middle last)).symm.trans found
    have same := eq_of_step_of_staysInPlace stays here
    subst same
    exact folder_of_step here

theorem read_ne_ok_of_not_endsInName (named : fileName? path = some name)
    (ends : endsInName path ≠ true) : storage.read folder path ≠ .ok content := by
  obtain ⟨front, last, pieces, stays⟩ := staysInPlace_of_not_endsInName named ends
  intro done
  cases found : storage.locate folder path with
  | error cause =>
    rw [Storage.read, found] at done
    cases done
  | ok place =>
    have walked := found
    unfold locate at walked
    split at walked
    · cases walked
    · rw [pieces] at walked
      simp only [Storage.read, found, bind, Except.bind, folder_of_foldlM stays walked] at done
      cases done

end Replacing

section Keeping

variable {content : ByteArray}

def content? (storage : Storage) (place : Place) : Option ByteArray :=
  match storage.entry? place with
  | some (.file content) => some content
  | _ => none

end Keeping

theorem locateParent_name (named : fileName? name = some name) (whole : '/' ∉ name.toList)
    (here : storage.entry? folder = some .folder) : storage.locateParent folder name = .ok folder := by
  unfold locateParent
  rw [parent?_name named whole]
  simp [step, here, staysInPlace, bind, Except.bind]

end Storage

/-- A program goes on with what its first step came to, from where that step left the machine. -/
theorem run_bind_of_run {σ α β : Type} {action : StateM σ α} {next : α → StateM σ β}
    {before after : σ} {value : α} (first : action.run before = (value, after)) :
    (action >>= next).run before = (next value).run after := by
  rw [StateT.run_bind, first]
  rfl

theorem state_bind_of_answers {σ α β : Type} {action : StateM σ α} {next : α → StateM σ β}
    (answers : ∀ value, ∃ answer, next value = pure answer) (before : σ) :
    ((action >>= next).run before).2 = (action.run before).2 := by
  obtain ⟨value, after, ran⟩ : ∃ value after, action.run before = (value, after) := ⟨_, _, rfl⟩
  obtain ⟨answer, same⟩ := answers value
  rw [run_bind_of_run ran, same, ran]
  rfl

namespace World

variable {world after : World} {path text : String}

theorem run_replace (path : String) (content : ByteArray) (world : World) :
    (Machine.replace path content : StateM World _).run world =
      ((world.storage.replace world.folder path content).1,
        { world with storage := (world.storage.replace world.folder path content).2 }) := rfl

theorem run_isThere (path : String) (world : World) :
    (Machine.isThere path : StateM World _).run world =
      (world.storage.isThere world.folder path, world) := rfl

theorem run_read (path : String) (world : World) :
    (Machine.read path : StateM World _).run world =
      (world.storage.read world.folder path, world) := rfl

theorem run_ensureParent (path : String) (world : World) : ∃ outcome storage,
    (ensureParent path : StateM World (Except SaveError Unit)).run world =
      (outcome, { world with storage := storage }) := by
  unfold ensureParent
  split
  · exact ⟨_, _, rfl⟩
  · exact ⟨_, _, rfl⟩
  · rename_i parent _ _
    rw [run_bind_of_run (run_isThere parent world)]
    cases there : world.storage.isThere world.folder parent with
    | true => exact ⟨_, _, rfl⟩
    | false => exact ⟨_, _, rfl⟩

/-- A file that was saved is there by a replacement, which only folders were created for. -/
theorem save_eq_ok
    (saved : (save path text : StateM World (Except SaveError Unit)).run world = (.ok (), after)) :
    ∃ storage, Storage.replace storage world.folder path text.toUTF8 = (.ok (), after.storage) ∧
      after = { world with storage := after.storage } := by
  obtain ⟨ensured, storage, run⟩ := run_ensureParent path world
  refine ⟨storage, ?_⟩
  unfold save at saved
  rw [run_bind_of_run run] at saved
  cases ensured with
  | error e => cases saved
  | ok _ =>
    dsimp only at saved
    rw [run_bind_of_run (run_replace path text.toUTF8 _)] at saved
    cases replaced : storage.replace world.folder path text.toUTF8 with
    | mk result next =>
      rw [replaced] at saved
      cases result with
      | error cause => cases cause <;> cases saved
      | ok _ =>
        cases saved
        exact ⟨rfl, rfl⟩

theorem run_save_name {name : String} (named : fileName? name = some name) (whole : '/' ∉ name.toList)
    (here : world.storage.entry? world.folder = some .folder)
    (free : world.storage.entry? (world.folder ++ [name]) ≠ some .folder) :
    (save name text : StateM World (Except SaveError Unit)).run world =
      (.ok (), { world with
        storage := world.storage.put (world.folder ++ [name]) (.file text.toUTF8) }) := by
  have parent := Storage.locateParent_name named whole here
  have ensured : (ensureParent name : StateM World _).run world = (.ok (), world) := by
    unfold ensureParent
    rw [parent?_name named whole]
    rfl
  have replaced : world.storage.replace world.folder name text.toUTF8 =
      (.ok (), world.storage.put (world.folder ++ [name]) (.file text.toUTF8)) := by
    unfold Storage.replace
    rw [named, parent]
    dsimp only
    split
    · exact absurd ‹_› free
    · rfl
  unfold save
  rw [run_bind_of_run ensured]
  dsimp only
  rw [run_bind_of_run (run_replace name text.toUTF8 world), replaced]
  rfl

end World

end PageHealth.Files
