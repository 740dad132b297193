import PageHealth.Proofs.Yaml.Lines

namespace PageHealth.Yaml

section Pieces

variable {piece : Char → List Char → Piece} {least : Nat} {done spaces : List Char} {c : Char}
  {rest : List Char} {below : List Line}

theorem readPieces_char {meant : Char} {length : Nat} (next : piece c rest = .char meant length) :
    readPieces piece least done spaces (c :: rest) below =
      readPieces piece least (meant :: spaces ++ done) [] (rest.drop (length - 1)) below := by
  rw [readPieces, next]

theorem readPieces_space (next : piece c rest = .space c) :
    readPieces piece least done spaces (c :: rest) below =
      readPieces piece least done (c :: spaces) rest below := by
  rw [readPieces, next]

theorem readPieces_close (next : piece c rest = .close) :
    readPieces piece least done spaces (c :: rest) below =
      .ok ((spaces ++ done).reverse, ⟨rest, below⟩) := by
  rw [readPieces, next]

end Pieces

theorem eq_of_toNat {c d : Char} (same : c.toNat = d.toNat) : c = d := by
  rw [← Char.ofNat_toNat c, same, Char.ofNat_toNat]

theorem hexNumber?_upperHexDigits :
    ∀ n < 256, hexNumber? [upperHexDigit (n / 16), upperHexDigit (n % 16)] = some n := by decide +kernel

theorem isControl_lt {c : Char} (control : isControl c = true) : c.toNat < 0xA0 := by
  simp [isControl, inRanges] at control
  omega

def spelling (c : Char) (length : Nat) : Piece := if c = ' ' then .space c else .char c length

theorem doublePiece_spellChar (c : Char) : ∃ first others, spellChar c = first :: others ∧
    ∀ rest, doublePiece first (others ++ rest) = spelling c (others.length + 1) := by
  unfold spellChar
  split
  case h_16 _ _ _ _ tab _ _ _ _ _ quote backslash _ _ _ _ =>
    split_ifs with control
    · refine ⟨_, _, rfl, fun rest => ?_⟩
      have small := isControl_lt control
      have valid : c.toNat.isValidChar := c.valid
      have apart : c ≠ ' ' := by
        rintro rfl
        exact absurd control (by decide)
      have read := hexNumber?_upperHexDigits c.toNat (by omega)
      simp [doublePiece, escaped, numberedChar, read, valid, spelling, apart]
    · refine ⟨_, _, rfl, fun rest => ?_⟩
      have notTab : c ≠ '\t' := fun same => tab (congrArg Char.toNat same)
      have notQuote : c ≠ '"' := fun same => quote (congrArg Char.toNat same)
      have notBackslash : c ≠ '\\' := fun same => backslash (congrArg Char.toNat same)
      by_cases space : c = ' '
      · subst space
        rfl
      · simp [doublePiece, isSpace, spelling, notTab, notQuote, notBackslash, space]
  case h_15 same =>
    obtain rfl : c = '\uFEFF' := eq_of_toNat same
    refine ⟨_, _, rfl, fun rest => ?_⟩
    have read : hexNumber? ['F', 'E', 'F', 'F'] = some 0xFEFF := by decide
    have enough : ¬ rest.length + 1 + 1 + 1 + 1 < 4 := by omega
    simp [doublePiece, escaped, numberedChar, spelling, read, enough]
  all_goals
    rename_i same
    have letter := congrArg Char.ofNat same
    rw [Char.ofNat_toNat] at letter
    subst letter
    exact ⟨_, _, rfl, fun _ => rfl⟩

/-- Spaces are only kept in mind until it is clear that text follows them on the line. -/
theorem readPieces_spellChar {least : Nat} {done spaces rest : List Char} {below : List Line}
    (c : Char) : ∃ done' spaces', spaces' ++ done' = c :: (spaces ++ done) ∧
      readPieces doublePiece least done spaces (spellChar c ++ rest) below =
        readPieces doublePiece least done' spaces' rest below := by
  by_cases space : c = ' '
  · subst space
    exact ⟨done, ' ' :: spaces, rfl, readPieces_space rfl⟩
  · obtain ⟨first, others, same, next⟩ := doublePiece_spellChar c
    specialize next rest
    rw [spelling, if_neg space] at next
    refine ⟨c :: spaces ++ done, [], rfl, ?_⟩
    rw [same, List.cons_append, readPieces_char next, Nat.add_sub_cancel, List.drop_left]

theorem readPieces_spellChars {least : Nat} {rest : List Char} {below : List Line} (cs : List Char)
    (done spaces : List Char) :
    readPieces doublePiece least done spaces (cs.flatMap spellChar ++ '"' :: rest) below =
      .ok ((spaces ++ done).reverse ++ cs, ⟨rest, below⟩) := by
  induction cs generalizing done spaces with
  | nil =>
    rw [List.flatMap_nil, List.nil_append, readPieces_close rfl, List.append_nil]
  | cons c cs ih =>
    obtain ⟨done', spaces', same, step⟩ := @readPieces_spellChar least done spaces
      (cs.flatMap spellChar ++ '"' :: rest) below c
    rw [List.flatMap_cons, List.append_assoc, step, ih, same, List.reverse_cons, List.append_assoc,
      List.singleton_append]

theorem readQuoted_doubleQuoted {least : Nat} {below : List Line} (cs : List Char) :
    readQuoted true least ⟨cs.flatMap spellChar ++ ['"'], below⟩ = .ok (cs, ⟨[], below⟩) := by
  exact readPieces_spellChars cs [] []

theorem readQuoted_singleQuoted {least : Nat} {below : List Line} {c : Char} (solid : c ≠ ' ')
    (solid' : c ≠ '\t') (unquoted : c ≠ '\'') :
    readQuoted false least ⟨[c, '\''], below⟩ = .ok ([c], ⟨[], below⟩) := by
  have next : singlePiece c ['\''] = .char c 1 := by simp [singlePiece, isSpace, solid, solid', unquoted]
  change readPieces singlePiece least [] [] [c, '\''] below = _
  rw [readPieces_char next]
  exact readPieces_close rfl

theorem fits_of_not_isControl {c : Char} (shown : isControl c = false) :
    c ≠ '\n' ∧ c ≠ '\r' ∧ c.toNat ≠ 0 := by
  have apart : c ∉ ['\n', '\r', '\x00'] := by
    intro member
    have control : ∀ d ∈ ['\n', '\r', '\x00'], isControl d = true :=
      List.all_eq_true.mp (by decide)
    rw [control c member] at shown
    cases shown
  simp only [List.mem_cons, List.not_mem_nil, or_false, not_or] at apart
  exact ⟨apart.1, apart.2.1, fun none => apart.2.2 (eq_of_toNat none)⟩

theorem fitsLine_spellChar (c : Char) : FitsLine (spellChar c) := by
  unfold spellChar
  split
  case h_16 =>
    split_ifs with control
    · have digits : ∀ n < 16, isControl (upperHexDigit n) = false := by decide
      have small := isControl_lt control
      intro d member
      simp only [List.mem_cons, List.not_mem_nil, or_false] at member
      rcases member with rfl | rfl | rfl | rfl
      · decide
      · decide
      · exact fits_of_not_isControl (digits _ (by omega))
      · exact fits_of_not_isControl (digits _ (by omega))
    · intro d member
      rw [List.mem_singleton.mp member]
      exact fits_of_not_isControl (by simpa using control)
  all_goals decide

theorem fitsLine_doubleQuoted (cs : List Char) : FitsLine (doubleQuoted cs) := by
  refine FitsLine.cons (by decide) (FitsLine.append (fun d member => ?_) ?_)
  · obtain ⟨c, _, within⟩ := List.mem_flatMap.mp member
    exact fitsLine_spellChar c d within
  · exact FitsLine.cons (by decide) fun d member => absurd member List.not_mem_nil

end PageHealth.Yaml
