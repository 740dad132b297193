import PageHealth.Proofs.Yaml.Quoted

namespace PageHealth.Yaml

structure ReadsPlain (cs : List Char) : Prop where
  starts : startsPlain false cs = true
  whole : cutPlain false false cs = (cs, [])

theorem isBlank_of_isSpace {c : Char} (space : isSpace c = true) : isBlank c = true := by
  simp only [isSpace, Bool.or_eq_true, decide_eq_true_eq] at space
  rcases space with rfl | rfl <;> decide

theorem trimEnd_of_getLast {cs : List Char} (solid : ∀ c ∈ cs.getLast?, isSpace c = false) :
    trimEnd cs = cs := by
  unfold trimEnd
  rw [← List.head?_reverse] at solid
  cases reversed : cs.reverse with
  | nil =>
    rw [List.reverse_eq_nil_iff.mp reversed]
    rfl
  | cons last others =>
    rw [reversed] at solid
    rw [List.dropWhile_cons_of_neg (by simp [solid last rfl]), ← reversed, List.reverse_reverse]

theorem of_keepsStructure_cons {c : Char} {rest : List Char}
    (safe : keepsStructure (c :: rest) = true) :
    c ≠ '#' ∧ isControl c = false ∧ (c = ':' → rest.head? ≠ some ' ') ∧
      keepsStructure rest = true := by
  unfold keepsStructure at safe
  split at safe
  · cases safe
  · rename_i separate same
    cases same
    simp only [Bool.and_eq_true, decide_eq_true_eq, Bool.not_eq_true'] at safe
    refine ⟨safe.1.1, safe.1.2, fun colon spaced => ?_, safe.2⟩
    obtain ⟨others, rfl⟩ := List.head?_eq_some_iff.mp spaced
    exact separate _ (by rw [colon]) rfl
  · rename_i same
    cases same

theorem not_isControl_of_keepsStructure {cs : List Char} (safe : keepsStructure cs = true) :
    ∀ c ∈ cs, isControl c = false := by
  induction cs with
  | nil => simp
  | cons c cs ih =>
    obtain ⟨_, shown, _, others⟩ := of_keepsStructure_cons safe
    intro d member
    rcases List.mem_cons.mp member with rfl | later
    · exact shown
    · exact ih others d later

theorem cutPlain_of_keepsStructure {cs : List Char} (safe : keepsStructure cs = true)
    (last : cs.getLast? ≠ some ':') (afterSpace : Bool) :
    cutPlain false afterSpace cs = (cs, []) := by
  induction cs generalizing afterSpace with
  | nil => rfl
  | cons c cs ih =>
    obtain ⟨notHash, _, separate, others⟩ := of_keepsStructure_cons safe
    have goesOn : endsPlain false afterSpace c cs = false := by
      have apart : ¬ (c = ':' ∧ startsSpace cs = true) := by
        rintro ⟨rfl, spaced⟩
        cases cs with
        | nil => exact last rfl
        | cons d ds =>
          have shown := not_isControl_of_keepsStructure others d List.mem_cons_self
          simp only [startsSpace, isSpace, Bool.or_eq_true, decide_eq_true_eq] at spaced
          rcases spaced with rfl | rfl
          · exact separate rfl rfl
          · exact absurd shown (by decide)
      simp only [endsPlain, notHash, Bool.false_and, Bool.or_false, decide_false]
      simpa using apart
    have lastOfRest : cs.getLast? ≠ some ':' := by
      cases cs with
      | nil => simp
      | cons d ds => rwa [List.getLast?_cons_cons] at last
    rw [cutPlain, goesOn, if_neg (by decide), ih others lastOfRest]

theorem getLast_of_trimBlanks {cs : List Char} (last : (trimBlanks cs).getLast? ≠ some ':') :
    cs.getLast? ≠ some ':' := by
  intro colon
  obtain ⟨before, rfl⟩ := List.getLast?_eq_some_iff.mp colon
  apply last
  have kept : (before ++ [':']).dropWhile isBlank = before.dropWhile isBlank ++ [':'] := by
    rw [List.dropWhile_append]
    split_ifs with empty
    · rw [List.isEmpty_iff.mp empty]
      rfl
    · rfl
  rw [trimBlanks, kept, List.reverse_append, List.reverse_singleton, List.singleton_append,
    List.dropWhile_cons_of_neg (by decide), List.reverse_cons, List.getLast?_append]
  rfl

theorem startsPlain_of_startsQuoted {cs : List Char} (solid : startsQuoted cs = false) :
    startsPlain false cs = true := by
  cases cs with
  | nil => cases solid
  | cons c rest =>
    simp only [startsQuoted, Bool.or_eq_false_iff, Bool.and_eq_false_iff, decide_eq_false_iff_not]
      at solid
    obtain ⟨⟨⟨notBlank, notIndicator⟩, notColon⟩, separate⟩ := solid
    have notSpace (d : Char) (shown : isBlank d = false) : isSpace d = false := by
      by_contra space
      exact absurd (isBlank_of_isSpace (by simpa using space)) (by simp [shown])
    simp only [startsPlain, Bool.false_and, Bool.not_false, Bool.and_true]
    split_ifs with mark
    · have marked : ¬ (¬ c = '-' ∧ ¬ c = '?') := by
        rintro ⟨notDash, notQuestion⟩
        rcases mark with dash | question | colon
        · exact notDash dash
        · exact notQuestion question
        · exact notColon colon
      obtain ⟨more, shown⟩ := separate.resolve_left marked
      cases rest with
      | nil => cases more
      | cons d ds =>
        have : isSpace d = false := notSpace d shown
        simp [startsSpace, this]
    · simp [notSpace c notBlank, notIndicator]

theorem readsPlain_of_isPlainSafe {cs : List Char} (safe : isPlainSafe cs = true) : ReadsPlain cs := by
  simp only [isPlainSafe, Bool.and_eq_true, Bool.not_eq_true', decide_eq_true_eq] at safe
  obtain ⟨⟨⟨_, solid⟩, structured⟩, colon⟩ := safe
  exact ⟨startsPlain_of_startsQuoted solid,
    cutPlain_of_keepsStructure structured (getLast_of_trimBlanks colon) false⟩

theorem trimEnd_eq_iff {cs : List Char} (safe : isPlainSafe cs = true) :
    trimEnd cs = cs ↔ cs.getLast? ≠ some ' ' := by
  constructor
  · intro same space
    obtain ⟨before, rfl⟩ := List.getLast?_eq_some_iff.mp space
    have shorter := (List.dropWhile_sublist isSpace (l := before.reverse)).length_le
    have lengths := congrArg List.length same
    have spaced : isSpace ' ' = true := rfl
    simp [trimEnd, spaced] at lengths shorter
    omega
  · intro last
    refine trimEnd_of_getLast fun c member => ?_
    simp only [isPlainSafe, Bool.and_eq_true] at safe
    have shown := not_isControl_of_keepsStructure safe.1.2 c (List.mem_of_getLast? member)
    have notSpace : c ≠ ' ' := fun space => last (space ▸ member)
    have notTab : c ≠ '\t' := by
      rintro rfl
      exact absurd shown (by decide)
    simp [isSpace, notSpace, notTab]

theorem fitsLine_of_isPlainSafe {cs : List Char} (safe : isPlainSafe cs = true) : FitsLine cs := by
  simp only [isPlainSafe, Bool.and_eq_true] at safe
  exact fun c member =>
    fits_of_not_isControl (not_isControl_of_keepsStructure safe.1.2 c member)

end PageHealth.Yaml
