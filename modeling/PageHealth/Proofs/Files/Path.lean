import PageHealth.Files.Path
import PageHealth.Proofs.Text.Split

namespace PageHealth.Files

/-- A path that ends in its file name, without a slash or a point after it. -/
def endsInName (path : String) : Bool := fileName? path = (segments path).getLast?

section Trimming

variable {cs name : List Char}

theorem trimSlashes_ne_nil (full : cs ≠ []) : trimSlashes cs ≠ [] := by
  fun_induction trimSlashes cs with
  | case1 c rest ih => exact ih (List.cons_ne_nil _ _)
  | case2 rest ih => exact ih (List.cons_ne_nil _ _)
  | case3 cs => exact full

theorem getLast?_trimSlashes (cs : List Char) : (trimSlashes cs).getLast? = cs.getLast? := by
  fun_induction trimSlashes cs with
  | case1 c rest ih => rw [ih, List.getLast?_cons_cons]
  | case2 rest ih => rw [ih, List.getLast?_cons_cons]
  | case3 cs => rfl

theorem trimSlashes_reverse_append (full : name ≠ []) (apart : name ≠ ['.']) (whole : '/' ∉ name)
    (more : List Char) : trimSlashes (name.reverse ++ more) = name.reverse ++ more := by
  obtain ⟨c, rest, reversed⟩ : ∃ c rest, name.reverse = c :: rest :=
    List.exists_cons_of_ne_nil (by simpa using full)
  have letters : '/' ∉ c :: rest := by rw [← reversed]; simpa using whole
  have noSlash : c ≠ '/' := fun same => letters (by simp [same])
  rw [reversed]
  cases rest with
  | nil =>
    have noPoint : c ≠ '.' := fun same => apart (by
      rw [← List.reverse_reverse name, reversed, same]
      rfl)
    unfold trimSlashes
    split <;> simp_all
  | cons d rest =>
    have noSecond : d ≠ '/' := fun same => letters (by simp [same])
    unfold trimSlashes
    split <;> simp_all

theorem dropWhile_reverse_append (whole : '/' ∉ name) (more : List Char) :
    (name.reverse ++ more).dropWhile (· ≠ '/') = more.dropWhile (· ≠ '/') := by
  apply List.dropWhile_append_of_pos
  intro c member
  have : c ≠ '/' := fun same => whole (same ▸ List.mem_reverse.mp member)
  simpa using this

end Trimming

section Names

variable {path name : String}

theorem fileName?_eq_some_iff : fileName? path = some name ↔
    ((segments path).filter fun s => !staysInPlace s).getLast? = some name ∧ name ≠ ".." := by
  unfold fileName?
  split
  · rename_i upward
    rw [upward]
    exact iff_of_false (by simp) fun ⟨same, apart⟩ => apart (Option.some.inj same).symm
  · rename_i none
    rw [none]
    exact iff_of_false (by simp) fun ⟨same, _⟩ => nomatch same
  · rename_i other apart found
    rw [found]
    refine ⟨fun same => ⟨same, ?_⟩, And.left⟩
    rintro rfl
    exact apart (Option.some.inj same)

theorem real_of_fileName? (named : fileName? path = some name) :
    staysInPlace name = false ∧ name ≠ ".." := by
  obtain ⟨last, upward⟩ := fileName?_eq_some_iff.mp named
  have kept := (List.mem_filter.mp (List.mem_of_getLast? last)).2
  exact ⟨by simpa using kept, upward⟩

theorem segments_of_endsInName (named : fileName? path = some name) (ends : endsInName path = true) :
    ∃ front, segments path = front ++ [name] := by
  have last : (segments path).getLast? = some name := by
    rw [← named]
    exact (of_decide_eq_true ends).symm
  exact List.getLast?_eq_some_iff.mp last

theorem staysInPlace_of_not_endsInName (named : fileName? path = some name)
    (ends : endsInName path ≠ true) :
    ∃ front last, segments path = front ++ [last] ∧ staysInPlace last = true := by
  have full : segments path ≠ [] := by
    unfold segments
    simpa using splitAt_ne_nil '/' path.toList
  obtain ⟨front, last, pieces⟩ : ∃ front last, segments path = front ++ [last] :=
    ⟨_, _, (List.dropLast_concat_getLast full).symm⟩
  refine ⟨front, last, pieces, ?_⟩
  cases real : staysInPlace last with
  | true => rfl
  | false =>
    have found := (fileName?_eq_some_iff.mp named).1
    rw [pieces, List.filter_append] at found
    have same : last = name := by simpa [real] using found
    refine absurd (decide_eq_true ?_) ends
    rw [named, pieces, ← same, List.getLast?_concat]

theorem exists_cut_of_endsInName (named : fileName? path = some name)
    (ends : endsInName path = true) : '/' ∉ name.toList ∧
      (path = name ∨ ∃ before, path.toList = before ++ '/' :: name.toList) := by
  obtain ⟨front, pieces⟩ := segments_of_endsInName named ends
  obtain ⟨lefts, rights, cut, _, single⟩ := List.map_eq_append_iff.mp pieces
  obtain ⟨piece, rfl, rfl⟩ := List.map_eq_singleton_iff.mp single
  rw [String.toList_ofList]
  cases lefts with
  | nil =>
    obtain ⟨same, absent⟩ := eq_of_splitAt_eq_singleton (List.nil_append _ ▸ cut)
    refine ⟨same ▸ absent, .inl ?_⟩
    rw [← same, String.ofList_toList]
  | cons first others =>
    obtain ⟨before, after, whole, _, last⟩ := exists_cut_of_splitAt_eq_append cut
      (List.cons_ne_nil _ _) (List.cons_ne_nil _ _)
    obtain ⟨rfl, absent⟩ := eq_of_splitAt_eq_singleton last
    exact ⟨absent, .inr ⟨before, whole⟩⟩

theorem parent?_of_trimSlashes {cs : List Char} (same : trimSlashes path.toList.reverse = cs)
    (full : cs ≠ []) (below : cs ≠ ['/']) :
    parent? path = some (String.ofList (trimSlashes (cs.dropWhile (· ≠ '/'))).reverse) := by
  unfold parent?
  rw [same]
  split <;> simp_all

theorem endsInName_name (named : fileName? path = some path) (whole : '/' ∉ path.toList) :
    endsInName path = true := by
  have single : segments path = [path] := by
    rw [segments, splitAt_of_notMem whole, List.map_singleton, String.ofList_toList]
  apply decide_eq_true
  rw [named, single]
  rfl

theorem parent?_name (named : fileName? path = some path) (whole : '/' ∉ path.toList) :
    parent? path = some "" := by
  have real := (real_of_fileName? named).1
  simp only [staysInPlace, Bool.or_eq_false_iff, decide_eq_false_iff_not] at real
  have full : path.toList ≠ [] := by simpa using real.1
  have apart : path.toList ≠ ['.'] := fun same => real.2 (String.toList_inj.mp same)
  have kept := trimSlashes_reverse_append full apart whole []
  rw [List.append_nil] at kept
  have below : path.toList.reverse ≠ ['/'] := fun same => whole (by
    rw [← List.mem_reverse, same]
    exact List.mem_singleton_self _)
  rw [parent?_of_trimSlashes kept (by simpa using full) below]
  have dropped := dropWhile_reverse_append whole []
  rw [List.append_nil] at dropped
  rw [dropped]
  rfl

theorem parent?_append {before : List Char} (real : staysInPlace name = false)
    (whole : '/' ∉ name.toList) (cut : path.toList = before ++ '/' :: name.toList) :
    parent? path = some (String.ofList (trimSlashes ('/' :: before.reverse)).reverse) := by
  simp only [staysInPlace, Bool.or_eq_false_iff, decide_eq_false_iff_not] at real
  have full : name.toList ≠ [] := by simpa using real.1
  have apart : name.toList ≠ ['.'] := fun same => real.2 (String.toList_inj.mp same)
  have reversed : path.toList.reverse = name.toList.reverse ++ '/' :: before.reverse := by
    rw [cut]
    simp
  have kept := trimSlashes_reverse_append full apart whole ('/' :: before.reverse)
  rw [← reversed] at kept
  have below : path.toList.reverse ≠ ['/'] := fun same => full (by
    have length := congrArg List.length (reversed.symm.trans same)
    rw [List.length_append, List.length_reverse] at length
    apply List.length_eq_zero_iff.mp
    simp at length
    omega)
  rw [parent?_of_trimSlashes kept (by simp [reversed]) below, reversed,
    dropWhile_reverse_append whole]
  rfl

end Names

end PageHealth.Files
