import PageHealth.Proofs.Yaml.Nodes

/-! Scalars are read as the kind of value that they were written for. A text that is written without
quotes is nothing to its reader and no boolean, but it can still spell a number. -/
namespace PageHealth.Yaml

def spellsNumber (text : String) : Bool :=
  (integer? text.toList).isSome || (double? text.toList).isSome

section Words

theorem toLower_of_isBlank {c : Char} (blank : isBlank c = true) : c.toLower = c := by
  unfold Char.toLower
  refine dif_neg fun upper => ?_
  have shown : isBlank c = false :=
    not_isBlank_of_range (Nat.lt_of_lt_of_le (by decide) upper.1)
      (Nat.lt_of_le_of_lt upper.2 (by decide))
  rw [shown] at blank
  cases blank

theorem shown_of_lowerCase {cs : List Char} {word : String} (same : lowerCase cs = word)
    (shown : word.toList.all (fun c => !isBlank c) = true) : ∀ c ∈ cs, isBlank c = false := by
  subst same
  rw [lowerCase, String.toList_ofList, List.all_eq_true] at shown
  intro c member
  by_contra blank
  have stays := toLower_of_isBlank (by simpa using blank)
  have lower := shown c.toLower (List.mem_map_of_mem member)
  rw [stays] at lower
  simp [blank] at lower

theorem boolean?_trimBlanks {cs : List Char} (word : (boolean? (String.ofList cs)).isSome = true) :
    trimBlanks cs = cs := by
  refine trimBlanks_eq ?_
  unfold boolean? at word
  rw [String.toList_ofList] at word
  dsimp only at word
  split_ifs at word with positive negative
  · rcases positive with same | same | same | same <;> exact shown_of_lowerCase same (by decide)
  · rcases negative with same | same | same | same <;> exact shown_of_lowerCase same (by decide)
  · cases word

end Words

section Texts

variable {text : String}

theorem of_isBare (bare : isBare text = true) : isNullText text = false ∧ boolean? text = none := by
  have safe := isPlainSafe_of_isBare bare
  simp only [isPlainSafe, isAmbiguous, Bool.and_eq_true, Bool.not_eq_true', Bool.or_eq_false_iff]
    at safe
  obtain ⟨⟨⟨⟨⟨⟨notNull, notBoolean⟩, _⟩, _⟩, _⟩, _⟩, _⟩ := safe
  rw [String.ofList_toList] at notNull
  refine ⟨notNull, ?_⟩
  by_contra some
  have word : (boolean? (String.ofList text.toList)).isSome = true := by
    rw [String.ofList_toList]
    simpa [Option.isSome_iff_ne_none] using some
  rw [boolean?_trimBlanks word, word] at notBoolean
  cases notBoolean

theorem textOf_ofText : textOf (Node.ofText text).asRead = .ok text ↔ keepsText text = true := by
  have read : textOf (Node.ofText text).asRead =
      if ¬ (Node.scalar (isBare text) none (readBack text)).isNull then .ok (readBack text)
      else .error (.wrongKind "text") := by
    change (if Tag.admitsText none = true ∧ _ then _ else _) = _
    simp [Tag.admitsText]
  rw [read, ← readBack_eq_iff]
  constructor
  · intro kept
    split_ifs at kept
    exact Except.ok.inj kept
  · intro same
    have shown : (Node.scalar (isBare text) none text).isNull = false := by
      cases bare : isBare text with
      | false => rfl
      | true => exact (of_isBare bare).1
    rw [same, shown, if_pos (by decide)]

theorem not_isBare_specialText (x : Binary64) : isBare (specialText x) = false := by
  cases x with
  | nan => rfl
  | signed negative _ =>
    cases negative
    · change isBare ".inf" = false
      rfl
    · change isBare "-.inf" = false
      rfl

theorem plainExpected_eq_text_iff (bare : isBare text = true) {read : String} :
    plainExpected read = .text text ↔
      read = text ∧ boolean? text = none ∧ spellsNumber text = false := by
  unfold plainExpected spellsNumber
  constructor
  · intro kept
    cases word : boolean? read with
    | some b => simp [word] at kept
    | none =>
      cases whole : integer? read.toList with
      | some n => simp [word, whole] at kept
      | none =>
        cases number : double? read.toList with
        | some x =>
          simp only [word, whole, number] at kept
          split_ifs at kept
          have special := Expected.text.inj kept
          rw [← special, not_isBare_specialText] at bare
          cases bare
        | none =>
          simp only [word, whole, number] at kept
          obtain rfl := Expected.text.inj kept
          exact ⟨rfl, word, by simp [whole, number]⟩
  · rintro ⟨rfl, word, apart⟩
    simp only [Bool.or_eq_false_iff, Option.isSome_eq_false_iff, Option.isNone_iff_eq_none] at apart
    simp only [word, apart]

theorem expectedOf_ofText : expectedOf (Node.ofText text).asRead = .ok (.text text) ↔
    keepsText text = true ∧ (isBare text && spellsNumber text) = false := by
  change expectedOf (.scalar (isBare text) none (readBack text)) = _ ↔ _
  rw [← readBack_eq_iff]
  cases bare : isBare text with
  | false =>
    have same : readBack text = text := by simp [readBack, bare]
    rw [same]
    exact iff_of_true rfl ⟨rfl, rfl⟩
  | true =>
    obtain ⟨notNull, notBoolean⟩ := of_isBare bare
    have read : expectedOf (.scalar true none (readBack text)) =
        if isNullText (readBack text) then .error (.wrongKind "an expected value")
        else .ok (plainExpected (readBack text)) := by
      simp [expectedOf, Tag.admitsText, Node.isNull]
    rw [read, Bool.true_and]
    constructor
    · intro kept
      split_ifs at kept
      obtain ⟨same, _, apart⟩ := (plainExpected_eq_text_iff bare).mp (Except.ok.inj kept)
      exact ⟨same, apart⟩
    · rintro ⟨same, apart⟩
      rw [same, notNull, (plainExpected_eq_text_iff bare).mpr ⟨rfl, notBoolean, apart⟩]
      rfl

end Texts

end PageHealth.Yaml
