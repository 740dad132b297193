import Mathlib.Data.Bool.AllAny
import Mathlib.Data.List.TakeWhile
import PageHealth.Yaml.Reader
import PageHealth.Yaml.Writer

namespace PageHealth.Yaml

/-- Text without a character that ends a line or the whole text. -/
def FitsLine (cs : List Char) : Prop := ∀ c ∈ cs, c ≠ '\n' ∧ c ≠ '\r' ∧ c.toNat ≠ 0

instance : DecidablePred FitsLine := fun cs => List.decidableBAll _ cs

theorem FitsLine.append {cs ds : List Char} (first : FitsLine cs) (second : FitsLine ds) :
    FitsLine (cs ++ ds) := by
  intro c member
  rcases List.mem_append.mp member with left | right
  · exact first c left
  · exact second c right

theorem FitsLine.cons {c : Char} {cs : List Char} (first : c ≠ '\n' ∧ c ≠ '\r' ∧ c.toNat ≠ 0)
    (others : FitsLine cs) : FitsLine (c :: cs) := by
  intro d member
  rcases List.mem_cons.mp member with rfl | later
  · exact first
  · exact others d later

theorem FitsLine.spaces (n : Nat) : FitsLine (List.replicate n ' ') := by
  intro c member
  rw [List.eq_of_mem_replicate member]
  decide

theorem cutLines_append {cs : List Char} (fits : FitsLine cs) (rest : List Char) :
    cutLines (cs ++ '\n' :: rest) = cs :: cutLines rest := by
  induction cs with
  | nil => simp [cutLines]
  | cons c cs ih =>
    obtain ⟨notFeed, notReturn, _⟩ := fits c List.mem_cons_self
    have others : FitsLine cs := fun d member => fits d (List.mem_cons_of_mem _ member)
    rw [List.cons_append, cutLines, if_neg (by simp [notFeed, notReturn]), ih others]
    intro _ same
    exact absurd same notReturn

namespace Line

def normal (line : Line) : Line := ofChars line.chars

theorem normal_eq (line : Line) : line.normal =
    ⟨line.indent + (line.text.takeWhile (· = ' ')).length, line.text.dropWhile (· = ' ')⟩ := by
  have indented (n : Nat) : ∀ c ∈ List.replicate n ' ', decide (c = ' ') = true := by
    intro c member
    simp [List.eq_of_mem_replicate member]
  unfold normal ofChars chars
  rw [List.takeWhile_append_of_pos (indented _), List.dropWhile_append_of_pos (indented _)]
  simp

theorem normal_of_head {line : Line} (solid : line.text.head? ≠ some ' ') : line.normal = line := by
  obtain ⟨indent, text⟩ := line
  rw [normal_eq]
  cases text with
  | nil => rfl
  | cons c rest =>
    have : c ≠ ' ' := fun same => solid (congrArg some same)
    simp [this]

theorem blockText_normal (line : Line) : blockText line.indent line.normal = line.text := by
  have spaces : List.replicate (line.text.takeWhile (· = ' ')).length ' ' =
      line.text.takeWhile (· = ' ') := by
    refine (List.eq_replicate_of_mem fun c member => ?_).symm
    simpa using List.mem_takeWhile_imp member
  rw [normal_eq, blockText, Nat.add_sub_cancel_left, spaces, List.takeWhile_append_dropWhile]

theorem indent_le_normal (line : Line) : line.indent ≤ line.normal.indent := by
  rw [normal_eq]
  exact Nat.le_add_right _ _

end Line

theorem cutLines_textOfLines {lines : List Line} (fit : ∀ line ∈ lines, FitsLine line.text) :
    cutLines (textOfLines lines) = lines.map Line.chars := by
  induction lines with
  | nil => rfl
  | cons line rest ih =>
    have first : FitsLine line.chars :=
      (FitsLine.spaces line.indent).append (fit line List.mem_cons_self)
    have others := ih fun other member => fit other (List.mem_cons_of_mem _ member)
    change cutLines ((line.chars ++ ['\n']) ++ textOfLines rest) = _
    rw [List.append_assoc, List.singleton_append, cutLines_append first, others, List.map_cons]

theorem mem_textOfLines {lines : List Line} {c : Char} (member : c ∈ textOfLines lines) :
    c = ' ' ∨ c = '\n' ∨ ∃ line ∈ lines, c ∈ line.text := by
  obtain ⟨line, listed, within⟩ := List.mem_flatMap.mp member
  simp only [Line.chars, List.mem_append, List.mem_replicate, List.mem_singleton] at within
  rcases within with (⟨_, space⟩ | text) | feed
  · exact .inl space
  · exact .inr (.inr ⟨line, listed, text⟩)
  · exact .inr (.inl feed)

theorem linesOf_textOfLines {lines : List Line} (fit : ∀ line ∈ lines, FitsLine line.text)
    (unmarked : (textOfLines lines).head? ≠ some '\uFEFF') :
    linesOf (textOfLines lines) = lines.map Line.normal := by
  have whole : (textOfLines lines).takeWhile (fun c => c.toNat ≠ 0) = textOfLines lines := by
    refine List.takeWhile_eq_self_iff.mpr fun c member => ?_
    rcases mem_textOfLines member with rfl | rfl | ⟨line, listed, within⟩
    · decide
    · decide
    · exact decide_eq_true (fit line listed c within).2.2
  unfold linesOf
  rw [whole]
  simp only [if_neg unmarked]
  rw [cutLines_textOfLines fit, List.map_map]
  rfl

end PageHealth.Yaml
