import PageHealth.Proofs.Yaml.Plain

/-! Blocks of text are read back as they were cut into lines: a literal block keeps every line, and a
folded one was cut only where a space is read between its lines. -/
namespace PageHealth.Yaml

/-- The document goes on with a line that says something and is indented by less. -/
def Ends (least : Nat) (rest : List Line) : Prop :=
  ∀ line ∈ rest.head?, line.isIdle = false ∧ line.indent < least

def blockLines (column : Nat) (lines : List (List Char)) : List Line :=
  lines.map fun line => (Line.mk column line).normal

section Reading

variable {column least : Nat} {lines : List (List Char)} {rest : List Line}

theorem text_ne_nil_of_not_isIdle {line : Line} (told : line.isIdle = false) :
    line.text.isEmpty = false := by
  cases same : line.text with
  | nil => simp [Line.isIdle, Line.isBlank, same, skipSpaces] at told
  | cons => rfl

theorem Ends.not_isBlockLine (ends : Ends least rest) (wide : least ≤ column) :
    ∀ line ∈ rest.head?, isBlockLine column line = false := by
  intro line member
  obtain ⟨told, low⟩ := ends line member
  simp only [isBlockLine, text_ne_nil_of_not_isIdle told, Bool.false_or, decide_eq_false_iff_not]
  omega

theorem isBlockLine_of_mem {line : Line} (member : line ∈ blockLines column lines) :
    isBlockLine column line = true := by
  obtain ⟨cs, _, rfl⟩ := List.mem_map.mp member
  have := (Line.mk column cs).indent_le_normal
  simp [isBlockLine, this]

theorem takeWhile_blockLines (ends : Ends least rest) (wide : least ≤ column) :
    (blockLines column lines ++ rest).takeWhile (isBlockLine column) = blockLines column lines ∧
      (blockLines column lines ++ rest).dropWhile (isBlockLine column) = rest := by
  have all : ∀ line ∈ blockLines column lines, isBlockLine column line = true :=
    fun line member => isBlockLine_of_mem member
  rw [List.takeWhile_append_of_pos all, List.dropWhile_append_of_pos all]
  cases rest with
  | nil => simp
  | cons line below =>
    have := ends.not_isBlockLine wide line rfl
    simp [this]

theorem map_blockText_blockLines : (blockLines column lines).map (blockText column) = lines := by
  rw [blockLines, List.map_map]
  refine (List.map_congr_left fun cs _ => ?_).trans (List.map_id lines)
  exact (Line.mk column cs).blockText_normal

def startsIndented (lines : List (List Char)) : Bool :=
  (lines.find? fun line => !line.isEmpty).any fun line => line.head? = some ' '

theorem blockLines_nil_cons :
    blockLines column ([] :: lines) = ⟨column, []⟩ :: blockLines column lines :=
  congrArg (· :: _) (Line.normal_of_head (by simp))

theorem blockLines_cons_of_solid {c : Char} {cs : List Char} (solid : c ≠ ' ') :
    blockLines column ((c :: cs) :: lines) = ⟨column, c :: cs⟩ :: blockLines column lines :=
  congrArg (· :: _) (Line.normal_of_head (by simpa using solid))

theorem startsIndented_cons_cons {c : Char} {cs : List Char} :
    startsIndented ((c :: cs) :: lines) = decide (c = ' ') := by
  simp [startsIndented]

theorem detectIndent_blockLines (wide : least ≤ column) (solid : startsIndented lines = false)
    (full : ∃ line ∈ lines, line ≠ []) :
    detectIndent least (blockLines column lines ++ rest) = column := by
  suffices found : ∃ line, (blockLines column lines ++ rest).find? (fun line => !line.text.isEmpty) =
      some line ∧ line.indent = column by
    obtain ⟨line, same, indent⟩ := found
    simp only [detectIndent, same, indent]
    exact Nat.max_eq_right wide
  induction lines with
  | nil =>
    obtain ⟨_, member, _⟩ := full
    cases member
  | cons cs lines ih =>
    cases cs with
    | nil =>
      obtain ⟨line, member, text⟩ := full
      have later : line ∈ lines := (List.mem_cons.mp member).resolve_left text
      obtain ⟨line, same, indent⟩ := ih solid ⟨line, later, text⟩
      exact ⟨line, by rwa [blockLines_nil_cons, List.cons_append, List.find?_cons_of_neg (by simp)],
        indent⟩
    | cons c cs =>
      have notSpace : c ≠ ' ' := by simpa [startsIndented_cons_cons] using solid
      rw [blockLines_cons_of_solid notSpace]
      exact ⟨⟨column, c :: cs⟩, by simp, rfl⟩

theorem leading_blockLines (solid : startsIndented lines = false) :
    ((blockLines column lines).takeWhile fun line => line.text.isEmpty).any
      (fun line => decide (column < line.indent)) = false := by
  induction lines with
  | nil => rfl
  | cons cs lines ih =>
    cases cs with
    | nil =>
      rw [blockLines_nil_cons, List.takeWhile_cons_of_pos (by simp), List.any_cons, ih solid]
      simp
    | cons c cs =>
      have notSpace : c ≠ ' ' := by simpa [startsIndented_cons_cons] using solid
      rw [blockLines_cons_of_solid notSpace, List.takeWhile_cons_of_neg (by simp)]
      rfl

theorem readText_blockLines {header : BlockHeader} (ends : Ends least rest) (wide : least ≤ column)
    (known : header.indentation = none ∧ startsIndented lines = false ∧ (∃ line ∈ lines, line ≠ []) ∨
      ∃ digit, header.indentation = some digit ∧ least - 1 + digit = column) :
    header.readText least (blockLines column lines ++ rest) = .ok (header.textOf lines, rest) := by
  obtain ⟨taken, dropped⟩ := @takeWhile_blockLines column least lines rest ends wide
  unfold BlockHeader.readText
  rcases known with ⟨detected, solid, full⟩ | ⟨digit, given, same⟩
  · simp only [detected, detectIndent_blockLines wide solid full, taken, dropped,
      leading_blockLines solid, map_blockText_blockLines, Bool.false_and]
    rfl
  · simp only [given, same, taken, dropped, map_blockText_blockLines, Option.isNone_some,
      Bool.and_false]
    rfl

end Reading

end PageHealth.Yaml
