import PageHealth.Proofs.Text.Digits
import PageHealth.Proofs.Yaml.Plain

namespace PageHealth.Yaml

def isWordChar (c : Char) : Bool := c.isAlphanum || c = '.' || c = '+' || c = '-'

structure IsWord (cs : List Char) : Prop where
  starts : startsPlain false cs = true
  chars : ∀ c ∈ cs, isWordChar c = true

theorem range_of_isWordChar {c : Char} (word : isWordChar c = true) :
    0x20 < c.toNat ∧ c.toNat < 0x7F := by
  delta isWordChar Char.isAlphanum Char.isAlpha Char.isUpper Char.isLower Char.isDigit at word
  simp only [Bool.or_eq_true, Bool.and_eq_true, decide_eq_true_eq, ge_iff_le,
    UInt32.le_iff_toNat_le] at word
  change _ < c.val.toNat ∧ c.val.toNat < _
  rcases word with (((((⟨low, high⟩ | ⟨low, high⟩) | ⟨low, high⟩) | rfl) | rfl) | rfl)
  · exact ⟨Nat.lt_of_lt_of_le (by decide) low, Nat.lt_of_le_of_lt high (by decide)⟩
  · exact ⟨Nat.lt_of_lt_of_le (by decide) low, Nat.lt_of_le_of_lt high (by decide)⟩
  · exact ⟨Nat.lt_of_lt_of_le (by decide) low, Nat.lt_of_le_of_lt high (by decide)⟩
  all_goals decide

theorem not_isBlank_of_range {c : Char} (low : 0x20 < c.toNat) (high : c.toNat < 0x7F) :
    isBlank c = false := by
  simp only [isBlank, inRanges, blankRanges, List.any_cons, List.any_nil, Bool.or_eq_false_iff,
    Bool.and_eq_false_iff, decide_eq_false_iff_not, and_true]
  omega

theorem trimBlanks_eq {cs : List Char} (shown : ∀ c ∈ cs, isBlank c = false) : trimBlanks cs = cs := by
  have kept (ds : List Char) (same : ∀ d ∈ ds, d ∈ cs) : ds.dropWhile isBlank = ds := by
    refine List.dropWhile_eq_self_iff.mpr fun long => ?_
    simp [shown _ (same _ (List.getElem_mem long))]
  rw [trimBlanks, kept cs fun _ => id, kept _ fun d => List.mem_reverse.mp, List.reverse_reverse]

theorem not_isSpace_of_not_isBlank {c : Char} (shown : isBlank c = false) : isSpace c = false := by
  by_contra space
  rw [isBlank_of_isSpace (by simpa using space)] at shown
  cases shown

theorem isAlphanum_of_isDigit {c : Char} (digit : isDigit c = true) : c.isAlphanum = true := by
  rw [isDigit_eq] at digit
  simp [Char.isAlphanum, digit]

theorem isWordChar_of_isAlphanum {c : Char} (letter : c.isAlphanum = true) : isWordChar c = true := by
  simp [isWordChar, letter]

theorem isWordChar_of_isDigit {c : Char} (digit : isDigit c = true) : isWordChar c = true :=
  isWordChar_of_isAlphanum (isAlphanum_of_isDigit digit)

def plainStops : List Char :=
  ['-', '?', ':', ' ', '\t', ',', '[', ']', '\x7b', '\x7d', '#', '&', '*', '!', '|', '>', '\'', '"',
    '%', '@', '\x60']

theorem not_mem_plainStops {c : Char} (letter : c.isAlphanum = true) : c ∉ plainStops := by
  intro member
  have none : ∀ d ∈ plainStops, d.isAlphanum = false := List.all_iff_forall_prop.mp (by decide)
  rw [none c member] at letter
  cases letter

theorem startsPlain_of_isAlphanum {c : Char} (letter : c.isAlphanum = true) (rest : List Char) :
    startsPlain false (c :: rest) = true := by
  have apart := not_mem_plainStops letter
  simp only [plainStops, List.mem_cons, not_or] at apart
  simp [startsPlain, isSpace, isIndicator, isFlowMark, apart]

namespace IsWord

variable {cs : List Char}

theorem shown (word : IsWord cs) {c : Char} (member : c ∈ cs) : isBlank c = false := by
  obtain ⟨low, high⟩ := range_of_isWordChar (word.chars c member)
  exact not_isBlank_of_range low high

theorem cutPlain_of_isWordChar (chars : ∀ c ∈ cs, isWordChar c = true) (afterSpace : Bool) :
    cutPlain false afterSpace cs = (cs, []) := by
  induction cs generalizing afterSpace with
  | nil => rfl
  | cons c cs ih =>
    have first := chars c List.mem_cons_self
    have notColon : c ≠ ':' := by
      rintro rfl
      cases first
    have notHash : c ≠ '#' := by
      rintro rfl
      cases first
    rw [cutPlain, if_neg (by simp [endsPlain, notColon, notHash]),
      ih fun d member => chars d (List.mem_cons_of_mem _ member)]

theorem readsPlain (word : IsWord cs) : ReadsPlain cs where
  starts := word.starts
  whole := cutPlain_of_isWordChar word.chars false

theorem trimEnd (word : IsWord cs) : trimEnd cs = cs :=
  trimEnd_of_getLast fun _ last => not_isSpace_of_not_isBlank (word.shown (List.mem_of_getLast? last))

theorem fitsLine (word : IsWord cs) : FitsLine cs := by
  intro c member
  obtain ⟨low, high⟩ := range_of_isWordChar (word.chars c member)
  refine fits_of_not_isControl ?_
  simp only [isControl, inRanges, List.any_cons, List.any_nil, Bool.or_eq_false_iff,
    Bool.and_eq_false_iff, decide_eq_false_iff_not, and_true]
  omega

theorem trimBlanks (word : IsWord cs) : trimBlanks cs = cs := trimBlanks_eq fun _ => word.shown

theorem of_isAlphanum {c : Char} {rest : List Char} (letter : c.isAlphanum = true)
    (others : ∀ d ∈ rest, isWordChar d = true) : IsWord (c :: rest) := by
  refine ⟨startsPlain_of_isAlphanum letter rest, fun d member => ?_⟩
  rcases List.mem_cons.mp member with rfl | later
  · exact isWordChar_of_isAlphanum letter
  · exact others d later

theorem minus (word : IsWord cs) : IsWord ('-' :: cs) := by
  refine ⟨?_, fun d member => ?_⟩
  · cases cs with
    | nil => cases word.starts
    | cons c rest =>
      have shown := not_isSpace_of_not_isBlank (word.shown (List.mem_cons_self (a := c)))
      simp [startsPlain, startsSpace, shown]
  · rcases List.mem_cons.mp member with rfl | later
    · rfl
    · exact word.chars d later

end IsWord

end PageHealth.Yaml
