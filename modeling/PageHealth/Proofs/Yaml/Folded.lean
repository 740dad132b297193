import PageHealth.Proofs.Yaml.Literal

/-! Folded blocks: a long text is broken only where one space becomes a line break, and no line of it
starts with a space, so folding the lines gives the text back. -/
namespace PageHealth.Yaml

/-- Text that starts with a character which is no space. -/
def Solid (cs : List Char) : Prop := ∃ c rest, cs = c :: rest ∧ isSpace c = false

theorem Solid.ne_nil {cs : List Char} (solid : Solid cs) : cs ≠ [] := by
  obtain ⟨c, rest, rfl, _⟩ := solid
  simp

theorem Solid.of_append {cs ds : List Char} (solid : Solid (cs ++ ds)) (full : cs ≠ []) :
    Solid cs := by
  obtain ⟨c, rest, same, notSpace⟩ := solid
  cases cs with
  | nil => exact absurd rfl full
  | cons d cs =>
    cases same
    exact ⟨c, cs, rfl, notSpace⟩

theorem solid_of_startsQuoted {cs : List Char} (solid : startsQuoted cs = false) : Solid cs := by
  cases cs with
  | nil => cases solid
  | cons c rest =>
    simp only [startsQuoted, Bool.or_eq_false_iff] at solid
    refine ⟨c, rest, rfl, ?_⟩
    by_contra space
    rw [isBlank_of_isSpace (by simpa using space)] at solid
    cases solid.1.1.1

theorem foldText_singleton {line : List Char} (solid : Solid line) : foldText [line] = line := by
  obtain ⟨c, rest, rfl, _⟩ := solid
  simp [foldText, foldLines]

theorem foldText_cons {line : List Char} {lines : List (List Char)} (solid : Solid line)
    (others : ∀ other ∈ lines, Solid other) (more : lines ≠ []) :
    foldText (line :: lines) = line ++ ' ' :: foldText lines := by
  obtain ⟨c, rest, rfl, notSpace⟩ := solid
  cases lines with
  | nil => exact absurd rfl more
  | cons next lines =>
    obtain ⟨d, others, rfl, notSpace'⟩ := others next List.mem_cons_self
    simp [foldText, foldLines, blockBreak, notSpace, notSpace']

theorem mem_foldText {lines : List (List Char)} (solid : ∀ line ∈ lines, Solid line)
    {line : List Char} (member : line ∈ lines) {c : Char} (within : c ∈ line) :
    c ∈ foldText lines := by
  induction lines with
  | nil => cases member
  | cons first others ih =>
    have start := solid first List.mem_cons_self
    have later : ∀ other ∈ others, Solid other :=
      fun other listed => solid other (List.mem_cons_of_mem _ listed)
    by_cases more : others = []
    · subst more
      rw [foldText_singleton start]
      rwa [List.mem_singleton.mp member] at within
    · rw [foldText_cons start later more]
      rcases List.mem_cons.mp member with rfl | behind
      · exact List.mem_append_left _ within
      · exact List.mem_append_right _ (List.mem_cons_of_mem _ (ih later behind))

/-- What the lines have in common that a text is wrapped into. -/
structure Wraps (lines : List (List Char)) (cs : List Char) : Prop where
  solid : ∀ line ∈ lines, Solid line
  nonempty : lines ≠ []
  folded : foldText lines = cs

theorem Wraps.singleton {cs : List Char} (solid : Solid cs) : Wraps [cs] cs where
  solid := by simpa using solid
  nonempty := by simp
  folded := foldText_singleton solid

theorem Wraps.cons {lines : List (List Char)} {line cs : List Char} (wraps : Wraps lines cs)
    (solid : Solid line) : Wraps (line :: lines) (line ++ ' ' :: cs) where
  solid := by
    intro other member
    rcases List.mem_cons.mp member with rfl | later
    · exact solid
    · exact wraps.solid other later
  nonempty := by simp
  folded := by rw [foldText_cons solid wraps.solid wraps.nonempty, wraps.folded]

/-- The two parts of an open line with a character added: a run of spaces that ended opens a new tail, so
neither the tail nor what follows it starts with a space. -/
theorem exists_parts_add {line tail rest : List Char} {c : Char}
    (spaced : line = [] ∨ line.head? = some ' ') (last : Solid (tail.reverse ++ c :: rest))
    (notTab : c ≠ '\t') : ∃ line' tail',
      (if c ≠ ' ' ∧ tail.head? = some ' ' then (tail ++ line, [c]) else (line, c :: tail)) =
        (line', tail') ∧
      (tail' ++ line').reverse ++ rest = (tail ++ line).reverse ++ c :: rest ∧
      (line' = [] ∨ line'.head? = some ' ') ∧ Solid (tail'.reverse ++ rest) := by
  split_ifs with ended
  · obtain ⟨notSpace, run⟩ := ended
    refine ⟨tail ++ line, [c], rfl, by simp, .inr ?_, c, rest, rfl, ?_⟩
    · obtain ⟨before, rfl⟩ := List.head?_eq_some_iff.mp run
      rfl
    · simp [isSpace, notSpace, notTab]
  · exact ⟨line, c :: tail, rfl, by simp, spaced, by simpa using last⟩

/-- The open line ends in a run of spaces, if it has one, and neither it nor what follows that run
starts with a space. -/
theorem wraps_wrapFrom {line tail rest : List Char} (width : Nat)
    (spaced : line = [] ∨ line.head? = some ' ') (whole : Solid ((tail ++ line).reverse ++ rest))
    (last : Solid (tail.reverse ++ rest)) (noTabs : ∀ c ∈ rest, c ≠ '\t') :
    Wraps (wrapFrom line tail width rest) ((tail ++ line).reverse ++ rest) := by
  induction rest generalizing line tail width with
  | nil =>
    rw [List.append_nil] at *
    exact Wraps.singleton whole
  | cons c rest ih =>
    rw [List.forall_mem_cons] at noTabs
    obtain ⟨line', tail', parts, same, spaced', last'⟩ := exists_parts_add spaced last noTabs.1
    unfold wrapFrom
    rw [← same] at whole ⊢
    simp only [parts]
    split_ifs with short
    · exact ih (width + 1) spaced' whole last' noTabs.2
    · split
      · rename_i before
        have text : (tail' ++ ' ' :: before).reverse ++ rest =
            before.reverse ++ ' ' :: (tail'.reverse ++ rest) := by simp
        rw [text] at whole ⊢
        have full : before.reverse ≠ [] := by
          intro none
          obtain ⟨d, _, start, notSpace⟩ := whole
          rw [none, List.nil_append] at start
          cases start
          cases notSpace
        have next := @ih [] tail' 0 (.inl rfl) (by simpa using last') last' noTabs.2
        rw [List.append_nil] at next
        exact next.cons (whole.of_append full)
      · exact Wraps.singleton whole

theorem wraps_wrap {cs : List Char} (solid : Solid cs) (noTabs : ∀ c ∈ cs, c ≠ '\t') :
    Wraps (wrap cs) cs :=
  wraps_wrapFrom 0 (.inl rfl) solid solid noTabs

theorem textOf_folded {lines : List (List Char)} {cs : List Char} (wraps : Wraps lines cs) :
    BlockHeader.textOf ⟨true, .strip, none⟩ lines = cs := by
  have found := List.getLast?_eq_some_getLast wraps.nonempty
  generalize lines.getLast wraps.nonempty = piece at found
  have full := (wraps.solid piece (List.mem_of_getLast? found)).ne_nil
  have content := dropWhile_isEmpty_append found full 0
  rw [List.replicate_zero, List.append_nil] at content
  simp only [BlockHeader.textOf, content, wraps.folded, if_true]
  exact List.append_nil cs

theorem Wraps.exists_ne_nil {lines : List (List Char)} {cs : List Char} (wraps : Wraps lines cs) :
    ∃ line ∈ lines, line ≠ [] := by
  obtain ⟨line, member⟩ := List.exists_mem_of_ne_nil lines wraps.nonempty
  exact ⟨line, member, (wraps.solid line member).ne_nil⟩

theorem Wraps.startsIndented {lines : List (List Char)} {cs : List Char} (wraps : Wraps lines cs) :
    startsIndented lines = false := by
  cases same : lines with
  | nil => exact absurd same wraps.nonempty
  | cons line others =>
    obtain ⟨c, rest, rfl, notSpace⟩ := wraps.solid line (same ▸ List.mem_cons_self)
    rw [startsIndented_cons_cons, decide_eq_false_iff_not]
    rintro rfl
    cases notSpace

end PageHealth.Yaml
