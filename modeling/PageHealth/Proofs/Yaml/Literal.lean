import PageHealth.Proofs.Text.Split
import PageHealth.Proofs.Yaml.Block

namespace PageHealth.Yaml

section Pieces

variable {separator : Char} {cs : List Char}

theorem literalText_cons {line : List Char} {lines : List (List Char)} (more : lines ≠ []) :
    literalText (line :: lines) = line ++ '\n' :: literalText lines := by
  cases lines with
  | nil => exact absurd rfl more
  | cons next rest => rfl

theorem literalText_cons_cons {c : Char} {line : List Char} {lines : List (List Char)} :
    literalText ((c :: line) :: lines) = c :: literalText (line :: lines) := by
  cases lines <;> rfl

theorem literalText_splitAt (cs : List Char) : literalText (splitAt '\n' cs) = cs := by
  induction cs using splitAt_ind '\n' with
  | nil => rfl
  | cut cs ih =>
    rw [splitAt_cons_separator, literalText_cons (splitAt_ne_nil _ cs), ih, List.nil_append]
  | grow c cs piece pieces _ found longer ih => rw [longer, literalText_cons_cons, ← found, ih]

def isIndented (cs : List Char) : Bool := (cs.dropWhile (· = '\n')).head? = some ' '

theorem startsIndented_splitAt (cs : List Char) :
    startsIndented (splitAt '\n' cs) = isIndented cs := by
  induction cs using splitAt_ind '\n' with
  | nil => rfl
  | cut cs ih =>
    rw [splitAt_cons_separator, isIndented, List.dropWhile_cons_of_pos (by simp)]
    exact ih
  | grow c cs piece pieces feed _ longer _ =>
    rw [longer, startsIndented_cons_cons, isIndented,
      List.dropWhile_cons_of_neg (by simpa using feed)]
    simp

end Pieces

section Breaks

def endingBreaks (cs : List Char) : Nat := (cs.reverse.takeWhile (· = '\n')).length

def beforeBreaks (cs : List Char) : List Char := cs.take (cs.length - endingBreaks cs)

variable {cs : List Char}

theorem beforeBreaks_eq (cs : List Char) :
    beforeBreaks cs = (cs.reverse.dropWhile (· = '\n')).reverse := by
  have split := congrArg List.reverse (@List.takeWhile_append_dropWhile _ (· = '\n') cs.reverse)
  rw [List.reverse_append, List.reverse_reverse] at split
  have length := congrArg List.length split
  simp only [List.length_append, List.length_reverse] at length
  unfold beforeBreaks endingBreaks
  generalize cs.reverse.takeWhile (· = '\n') = feeds at *
  generalize cs.reverse.dropWhile (· = '\n') = others at *
  rw [← length, Nat.add_sub_cancel, ← split, List.take_left' List.length_reverse]

theorem beforeBreaks_append (cs : List Char) :
    beforeBreaks cs ++ List.replicate (endingBreaks cs) '\n' = cs := by
  have feeds : cs.reverse.takeWhile (· = '\n') = List.replicate (endingBreaks cs) '\n' := by
    refine List.eq_replicate_of_mem fun c member => ?_
    simpa using List.mem_takeWhile_imp member
  rw [beforeBreaks_eq, ← List.reverse_replicate, ← feeds, ← List.reverse_append,
    List.takeWhile_append_dropWhile, List.reverse_reverse]

theorem getLast_beforeBreaks (full : ∃ c ∈ cs, c ≠ '\n') :
    ∃ last, (beforeBreaks cs).getLast? = some last ∧ last ≠ '\n' := by
  rw [beforeBreaks_eq, List.getLast?_reverse]
  cases rest : cs.reverse.dropWhile (· = '\n') with
  | nil =>
    obtain ⟨c, member, solid⟩ := full
    have := List.dropWhile_eq_nil_iff.mp rest c (List.mem_reverse.mpr member)
    exact absurd (by simpa using this) solid
  | cons last others =>
    refine ⟨last, rfl, ?_⟩
    have first := List.head?_dropWhile_not (fun c => decide (c = '\n')) cs.reverse
    simpa [rest] using first

end Breaks

theorem isIndented_beforeBreaks (cs : List Char) : isIndented (beforeBreaks cs) = isIndented cs := by
  have feeds : (List.replicate (endingBreaks cs) '\n').dropWhile (· = '\n') = [] := by
    refine List.dropWhile_eq_nil_iff.mpr fun c member => ?_
    simp [List.eq_of_mem_replicate member]
  unfold isIndented
  conv => rhs; rw [← beforeBreaks_append cs, List.dropWhile_append, feeds]
  split_ifs with empty
  · rw [List.isEmpty_iff.mp empty]
  · cases same : (beforeBreaks cs).dropWhile (· = '\n') with
    | nil => simp [same] at empty
    | cons => rfl

def literalLines (cs : List Char) : List (List Char) :=
  splitAt '\n' (beforeBreaks cs) ++ List.replicate (endingBreaks cs - 1) []

theorem startsIndented_literalLines (cs : List Char) :
    startsIndented (literalLines cs) = isIndented cs := by
  have none : (List.replicate (endingBreaks cs - 1) ([] : List Char)).find?
      (fun line => !line.isEmpty) = none := by
    refine List.find?_eq_none.mpr fun line member => ?_
    simp [List.eq_of_mem_replicate member]
  rw [← isIndented_beforeBreaks, ← startsIndented_splitAt]
  unfold startsIndented literalLines
  rw [List.find?_append, none, Option.or_none]

theorem literalBlock_eq (column : Nat) (cs : List Char) : literalBlock column cs =
    if !isIndented cs then ⟨'|' :: literalSign (endingBreaks cs), literalLines cs⟩
    else if column ≤ 9 then
      ⟨'|' :: Nat.toDigits 10 column ++ literalSign (endingBreaks cs), literalLines cs⟩
    else .inline (doubleQuoted cs) := by
  rw [← isIndented_beforeBreaks, ← startsIndented_splitAt]
  rfl

def literalChomping : Nat → Chomping
  | 0 => .strip
  | 1 => .clip
  | _ => .keep

theorem read_literalSign (breaks : Nat) :
    BlockHeader.read false (literalSign breaks) = .ok ⟨false, literalChomping breaks, none⟩ := by
  rcases breaks with _ | _ | breaks <;> rfl

theorem read_two_literalSign (breaks : Nat) :
    BlockHeader.read false ('2' :: literalSign breaks) =
      .ok ⟨false, literalChomping breaks, some 2⟩ := by
  rcases breaks with _ | _ | breaks <;> rfl

theorem dropWhile_isEmpty_append {lines : List (List Char)} {piece : List Char}
    (ending : lines.getLast? = some piece) (full : piece ≠ []) (n : Nat) :
    ((lines ++ List.replicate n []).reverse.dropWhile List.isEmpty).reverse = lines := by
  obtain ⟨before, rfl⟩ := List.getLast?_eq_some_iff.mp ending
  have empty : ∀ line ∈ List.replicate n ([] : List Char), line.isEmpty = true := by
    intro line member
    rw [List.eq_of_mem_replicate member]
    rfl
  have solid : ¬ piece.isEmpty = true := by simpa using full
  rw [List.reverse_append, List.reverse_replicate, List.dropWhile_append_of_pos empty,
    List.reverse_append, List.reverse_singleton, List.singleton_append,
    List.dropWhile_cons_of_neg solid]
  simp

theorem textOf_literalBlock {cs : List Char} (full : ∃ c ∈ cs, c ≠ '\n') (indentation : Option Nat) :
    BlockHeader.textOf ⟨false, literalChomping (endingBreaks cs), indentation⟩
      (literalLines cs) = cs := by
  obtain ⟨last, ending, solid⟩ := getLast_beforeBreaks full
  obtain ⟨piece, found, nonempty⟩ := getLast_splitAt ending solid
  have more : (splitAt '\n' (beforeBreaks cs)).isEmpty = false := by
    simpa using splitAt_ne_nil '\n' (beforeBreaks cs)
  simp only [BlockHeader.textOf, literalLines, dropWhile_isEmpty_append found nonempty, literalText_splitAt, more,
    List.length_append, List.length_replicate, Nat.add_sub_cancel_left, if_neg Bool.false_ne_true]
  conv => rhs; rw [← beforeBreaks_append cs]
  congr 1
  rcases endingBreaks cs with _ | _ | breaks <;> rfl

theorem exists_mem_literalLines {cs : List Char} (full : ∃ c ∈ cs, c ≠ '\n') :
    ∃ line ∈ literalLines cs, line ≠ [] := by
  obtain ⟨last, ending, solid⟩ := getLast_beforeBreaks full
  obtain ⟨piece, found, nonempty⟩ := getLast_splitAt ending solid
  exact ⟨piece, List.mem_append_left _ (List.mem_of_getLast? found), nonempty⟩

theorem fitsLine_literalLines {cs : List Char} (fits : ∀ c ∈ cs, c ≠ '\r' ∧ c.toNat ≠ 0) :
    ∀ line ∈ literalLines cs, FitsLine line := by
  intro line member c within
  rcases List.mem_append.mp member with piece | empty
  · obtain ⟨inside, notFeed⟩ := mem_of_mem_splitAt piece c within
    exact ⟨notFeed, fits c (List.mem_of_mem_take inside)⟩
  · rw [List.eq_of_mem_replicate empty] at within
    cases within

end PageHealth.Yaml
