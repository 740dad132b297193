import Mathlib.Tactic.SplitIfs
import PageHealth.Text

namespace PageHealth

section Pieces

variable {separator : Char} {cs : List Char}

theorem splitAt_ne_nil (separator : Char) (cs : List Char) : splitAt separator cs ≠ [] := by
  cases cs with
  | nil => simp [splitAt]
  | cons c cs =>
    unfold splitAt
    split_ifs
    · simp
    · split <;> simp

theorem splitAt_cons_separator : splitAt separator (separator :: cs) = [] :: splitAt separator cs := by
  simp [splitAt]

theorem splitAt_cons_of_ne {c : Char} (apart : c ≠ separator) : ∃ piece pieces,
    splitAt separator cs = piece :: pieces ∧ splitAt separator (c :: cs) = (c :: piece) :: pieces := by
  cases same : splitAt separator cs with
  | nil => exact absurd same (splitAt_ne_nil separator cs)
  | cons piece pieces => exact ⟨piece, pieces, rfl, by simp [splitAt, apart, same]⟩

/-- A separator starts a new piece; any other character belongs to the first piece of what follows. -/
@[elab_as_elim]
theorem splitAt_ind (separator : Char) {motive : List Char → Prop} (nil : motive [])
    (cut : ∀ cs, motive cs → motive (separator :: cs))
    (grow : ∀ c cs piece pieces, c ≠ separator → splitAt separator cs = piece :: pieces →
      splitAt separator (c :: cs) = (c :: piece) :: pieces → motive cs → motive (c :: cs))
    (cs : List Char) : motive cs := by
  induction cs with
  | nil => exact nil
  | cons c cs ih =>
    by_cases same : c = separator
    · exact same ▸ cut cs ih
    · obtain ⟨piece, pieces, found, longer⟩ := @splitAt_cons_of_ne separator cs c same
      exact grow c cs piece pieces same found longer ih

theorem mem_of_mem_splitAt {piece : List Char} (member : piece ∈ splitAt separator cs) :
    ∀ c ∈ piece, c ∈ cs ∧ c ≠ separator := by
  induction cs using splitAt_ind separator generalizing piece with
  | nil =>
    rw [splitAt, List.mem_singleton] at member
    simp [member]
  | cut cs ih =>
    intro d within
    rw [splitAt_cons_separator] at member
    rcases List.mem_cons.mp member with rfl | later
    · cases within
    · exact ⟨List.mem_cons_of_mem _ (ih later d within).1, (ih later d within).2⟩
  | grow c cs first pieces apart found longer ih =>
    intro d within
    rw [longer] at member
    rw [found] at ih
    rcases List.mem_cons.mp member with rfl | later
    · rcases List.mem_cons.mp within with rfl | inside
      · exact ⟨List.mem_cons_self, apart⟩
      · obtain ⟨old, other⟩ := ih List.mem_cons_self d inside
        exact ⟨List.mem_cons_of_mem _ old, other⟩
    · obtain ⟨old, other⟩ := ih (List.mem_cons_of_mem _ later) d within
      exact ⟨List.mem_cons_of_mem _ old, other⟩

theorem getLast_splitAt {last : Char} (ending : cs.getLast? = some last) (apart : last ≠ separator) :
    ∃ piece, (splitAt separator cs).getLast? = some piece ∧ piece ≠ [] := by
  induction cs with
  | nil => cases ending
  | cons c cs ih =>
    cases cs with
    | nil =>
      have : c = last := by simpa using ending
      exact ⟨[c], by simp [splitAt, this, apart], by simp⟩
    | cons d ds =>
      rw [List.getLast?_cons_cons] at ending
      obtain ⟨piece, found, full⟩ := ih ending
      by_cases same : c = separator
      · refine ⟨piece, ?_, full⟩
        rw [same, splitAt_cons_separator, List.getLast?_cons, found]
        rfl
      · obtain ⟨first, pieces, cut, longer⟩ := @splitAt_cons_of_ne separator (d :: ds) c same
        rw [longer]
        rw [cut] at found
        cases pieces with
        | nil => exact ⟨c :: first, rfl, by simp⟩
        | cons next rest => exact ⟨piece, by rwa [List.getLast?_cons_cons] at found ⊢, full⟩

theorem exists_cut_of_splitAt_eq_append {front back : List (List Char)}
    (pieces : splitAt separator cs = front ++ back) (some : front ≠ []) (more : back ≠ []) :
    ∃ before after, cs = before ++ separator :: after ∧ splitAt separator before = front ∧
      splitAt separator after = back := by
  induction cs using splitAt_ind separator generalizing front with
  | nil =>
    have length := congrArg List.length pieces
    have := List.length_pos_iff.mpr some
    have := List.length_pos_iff.mpr more
    simp [splitAt] at length
    omega
  | cut cs ih =>
    -- The first piece is empty; the cut is right here, or it is one further on.
    obtain ⟨first, others, rfl⟩ := List.exists_cons_of_ne_nil some
    rw [splitAt_cons_separator, List.cons_append] at pieces
    injection pieces with empty rest
    cases others with
    | nil => exact ⟨[], cs, rfl, by rw [← empty]; rfl, rest⟩
    | cons next later =>
      obtain ⟨before, after, rfl, left, right⟩ := ih rest (List.cons_ne_nil _ _)
      refine ⟨separator :: before, after, rfl, ?_, right⟩
      rw [splitAt_cons_separator, left, empty]
  | grow c cs piece grown apart found longer ih =>
    -- The first piece grows by a character, and the cut stays where it was.
    obtain ⟨first, others, rfl⟩ := List.exists_cons_of_ne_nil some
    rw [longer, List.cons_append] at pieces
    injection pieces with start rest
    rw [rest, ← List.cons_append] at found
    obtain ⟨before, after, rfl, left, right⟩ := ih found (List.cons_ne_nil _ _)
    refine ⟨c :: before, after, rfl, ?_, right⟩
    obtain ⟨head, tail, cutBefore, longerBefore⟩ := @splitAt_cons_of_ne separator before c apart
    rw [left] at cutBefore
    injection cutBefore with sameHead sameTail
    rw [longerBefore, ← sameHead, ← sameTail, start]

theorem splitAt_append_cons {before after : List Char} :
    splitAt separator (before ++ separator :: after) =
      splitAt separator before ++ splitAt separator after := by
  induction before using splitAt_ind separator with
  | nil => exact splitAt_cons_separator
  | cut before ih =>
    rw [List.cons_append, splitAt_cons_separator, ih, splitAt_cons_separator]
    rfl
  | grow c before first pieces apart found longer ih =>
    rw [found] at ih
    rw [longer, List.cons_append]
    simp [splitAt, apart, ih]

theorem splitAt_of_notMem (absent : separator ∉ cs) : splitAt separator cs = [cs] := by
  induction cs with
  | nil => rfl
  | cons c cs ih =>
    rw [List.mem_cons, not_or] at absent
    simp [splitAt, Ne.symm absent.1, ih absent.2]

theorem eq_of_splitAt_eq_singleton {piece : List Char} (single : splitAt separator cs = [piece]) :
    cs = piece ∧ separator ∉ cs := by
  induction cs using splitAt_ind separator generalizing piece with
  | nil =>
    have : [] = piece := by simpa [splitAt] using single
    exact ⟨this, by simp⟩
  | cut cs _ =>
    rw [splitAt_cons_separator] at single
    exact absurd (List.cons.inj single).2 (splitAt_ne_nil separator cs)
  | grow c cs first pieces apart found longer ih =>
    rw [longer] at single
    obtain ⟨rfl, rfl⟩ := List.cons.inj single
    obtain ⟨rfl, absent⟩ := ih found
    exact ⟨rfl, by simp [absent, Ne.symm apart]⟩

theorem splitAt_eq_splitOn (separator : Char) (cs : List Char) :
    splitAt separator cs = cs.splitOn separator := by
  induction cs using splitAt_ind separator with
  | nil => exact (List.splitOn_nil separator).symm
  | cut cs ih =>
    rw [List.splitOn_eq_splitOnP, List.splitOnP_cons_eq_if_modifyHead, ← List.splitOn_eq_splitOnP,
      ← ih, splitAt_cons_separator, if_pos (beq_self_eq_true _)]
  | grow c cs piece pieces apart found longer ih =>
    rw [List.splitOn_eq_splitOnP, List.splitOnP_cons_eq_if_modifyHead, ← List.splitOn_eq_splitOnP,
      ← ih, longer, found, if_neg (by simpa using apart)]
    rfl

theorem splitAt_intercalate {pieces : List (List Char)} (nonempty : pieces ≠ [])
    (absent : ∀ piece ∈ pieces, separator ∉ piece) :
    splitAt separator ([separator].intercalate pieces) = pieces := by
  rw [splitAt_eq_splitOn]
  exact List.splitOn_intercalate separator absent nonempty

theorem mem_intercalate {pieces : List (List Char)} {c : Char}
    (member : c ∈ [separator].intercalate pieces) : c = separator ∨ ∃ piece ∈ pieces, c ∈ piece := by
  induction pieces with
  | nil => cases member
  | cons piece pieces ih =>
    cases pieces with
    | nil => exact .inr ⟨piece, List.mem_cons_self, by rwa [List.intercalate_singleton] at member⟩
    | cons next later =>
      rw [List.intercalate_cons_cons, List.mem_append, List.mem_append] at member
      rcases member with (here | between) | behind
      · exact .inr ⟨piece, List.mem_cons_self, here⟩
      · exact .inl (List.mem_singleton.mp between)
      · exact (ih behind).imp_right fun ⟨other, listed, within⟩ =>
          ⟨other, List.mem_cons_of_mem _ listed, within⟩

end Pieces

section Paths

theorem pathSegments_ne_nil (path : String) : pathSegments path ≠ [] := by
  unfold pathSegments
  simpa using splitAt_ne_nil '.' path.toList

theorem exists_path_of_pathSegments_eq_append {path : String} {front back : List String}
    (segments : pathSegments path = front ++ back) (some : front ≠ []) (more : back ≠ []) :
    ∃ before after, path = before ++ "." ++ after ∧ pathSegments before = front := by
  obtain ⟨left, right, pieces, rfl, rfl⟩ := List.map_eq_append_iff.mp segments
  obtain ⟨before, after, cut, same, _⟩ := exists_cut_of_splitAt_eq_append pieces
    (fun none => some (by rw [none]; rfl)) (fun none => more (by rw [none]; rfl))
  refine ⟨String.ofList before, String.ofList after, ?_, ?_⟩
  · apply String.toList_inj.mp
    simpa using cut
  · unfold pathSegments
    rw [String.toList_ofList, same]

theorem pathSegments_append (before after : String) :
    pathSegments (before ++ "." ++ after) = pathSegments before ++ pathSegments after := by
  have chars : (before ++ "." ++ after).toList = before.toList ++ '.' :: after.toList := by simp
  unfold pathSegments
  rw [chars, splitAt_append_cons, List.map_append]

theorem pathSegments_of_notMem {key : String} (absent : '.' ∉ key.toList) : pathSegments key = [key] := by
  unfold pathSegments
  rw [splitAt_of_notMem absent, List.map_singleton, String.ofList_toList]

theorem eq_of_pathSegments_eq_singleton {path segment : String}
    (single : pathSegments path = [segment]) : path = segment := by
  obtain ⟨piece, cut, rfl⟩ := List.map_eq_singleton_iff.mp single
  rw [← (eq_of_splitAt_eq_singleton cut).1, String.ofList_toList]

theorem notMem_of_mem_pathSegments {path key : String} (listed : key ∈ pathSegments path) :
    '.' ∉ key.toList := by
  obtain ⟨piece, cut, rfl⟩ := List.mem_map.mp listed
  rw [String.toList_ofList]
  exact fun within => (mem_of_mem_splitAt cut '.' within).2 rfl

theorem hasEmptySegment_eq_true_iff {path : String} :
    hasEmptySegment path = true ↔ "" ∈ pathSegments path := by
  simp [hasEmptySegment, String.isEmpty_iff]

end Paths

end PageHealth
