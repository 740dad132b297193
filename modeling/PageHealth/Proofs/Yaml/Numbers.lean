import PageHealth.Proofs.Number.Notation
import PageHealth.Proofs.Yaml.Words
import PageHealth.Yaml.Writer

namespace PageHealth.Yaml

/-- Digits around a point and an exponent, which together spell a decimal of the given rank. -/
inductive Magnitude (rank : Nat) : List Char → Prop where
  | pointed (whole fraction suffix : List Char) (exponent : Int) (nonempty : whole ≠ [])
      (digits : ∀ c ∈ whole ++ fraction, isDigit c = true)
      (ends : exponent? suffix = some exponent) (chars : ∀ c ∈ suffix, isWordChar c = true)
      (same : Decimal.rank ⟨digitsValue (whole ++ fraction), exponent - fraction.length⟩ = rank) :
      Magnitude rank (whole ++ '.' :: (fraction ++ suffix))

section Layout

theorem exponent?_exponentText (n : Int) : exponent? (exponentText n) = some n := by
  have digits : (Nat.toDigits 10 n.natAbs).all isDigit = true :=
    List.all_eq_true.mpr fun c member => isDigit_of_mem_toDigits member
  have some : (Nat.toDigits 10 n.natAbs).isEmpty = false := by
    simp [Nat.toDigits_ne_nil]
  unfold exponent? exponentText
  split_ifs with negative
  · simp only [true_or, if_true, splitSign, digits, some, Bool.not_true, Bool.false_eq_true, or_self,
      if_false, digitsValue_toDigits]
    exact congrArg _ (by omega)
  · simp only [true_or, if_true, splitSign, digits, some, Bool.not_true, Bool.false_eq_true, or_self,
      if_false, digitsValue_toDigits]
    exact congrArg _ (by omega)

theorem isWordChar_exponentText (n : Int) : ∀ c ∈ exponentText n, isWordChar c = true := by
  intro c member
  simp only [exponentText, List.mem_cons] at member
  rcases member with rfl | rfl | digit
  · rfl
  · split_ifs <;> rfl
  · exact isWordChar_of_isDigit (isDigit_of_mem_toDigits digit)

theorem magnitude_layout (d : Decimal) : Magnitude d.rank (numberNotation.layout d).toList := by
  obtain ⟨⟨whole, fraction, exponent⟩, laid⟩ := @NumberNotation.exists_laysOut numberNotation rfl rfl d
  obtain ⟨digits, rfl⟩ := Option.isSome_iff_exists.mp (laid.point rfl)
  rw [laid.chars, ← laid.rank_eq]
  have sound := laid.spells.sound
  cases exponent with
  | none => exact .pointed whole digits [] 0 sound.whole_nonempty sound.digits rfl (by simp) rfl
  | some n =>
    exact .pointed whole digits (exponentText n) n sound.whole_nonempty sound.digits
      (exponent?_exponentText n) (isWordChar_exponentText n) rfl

end Layout

section Reading

theorem digitsInBase?_of_dot {base : Nat} {cs : List Char} (dot : '.' ∈ cs) :
    digitsInBase? base cs = none := by
  unfold digitsInBase?
  rw [mapM_hexDigit?_eq_none rfl (List.mem_filter.mpr ⟨dot, rfl⟩)]
  rfl

theorem natural?_of_dot {cs : List Char} (dot : '.' ∈ cs) : natural? cs = none := by
  unfold natural?
  split
  · rename_i c rest
    have behind (marked : c ≠ '.') : '.' ∈ rest := by
      simpa [marked.symm] using dot
    split_ifs with hex octal binary
    · exact digitsInBase?_of_dot (behind (by rcases hex with rfl | rfl <;> decide))
    · exact digitsInBase?_of_dot (behind (by rcases octal with rfl | rfl <;> decide))
    · exact digitsInBase?_of_dot (behind (by rcases binary with rfl | rfl <;> decide))
    · exact digitsInBase?_of_dot dot
  · exact digitsInBase?_of_dot dot

namespace Magnitude

variable {rank : Nat} {cs : List Char}

theorem head (spelt : Magnitude rank cs) : ∃ c rest, cs = c :: rest ∧ isDigit c = true := by
  obtain ⟨whole, fraction, suffix, _, nonempty, digits, _⟩ := spelt
  cases whole with
  | nil => exact absurd rfl nonempty
  | cons c whole => exact ⟨c, _, rfl, digits c (by simp)⟩

theorem dot (spelt : Magnitude rank cs) : '.' ∈ cs := by
  obtain ⟨whole, fraction, suffix⟩ := spelt
  simp

theorem isWord (spelt : Magnitude rank cs) : IsWord cs := by
  obtain ⟨whole, fraction, suffix, _, nonempty, digits, _, chars⟩ := spelt
  have word : ∀ c ∈ whole ++ '.' :: (fraction ++ suffix), isWordChar c = true := by
    intro c member
    simp only [List.mem_append, List.mem_cons] at member digits
    rcases member with before | rfl | after | behind
    · exact isWordChar_of_isDigit (digits c (.inl before))
    · rfl
    · exact isWordChar_of_isDigit (digits c (.inr after))
    · exact chars c behind
  cases whole with
  | nil => exact absurd rfl nonempty
  | cons c whole =>
    exact .of_isAlphanum (isAlphanum_of_isDigit (digits c (by simp))) fun d member => word d (List.mem_cons_of_mem _ member)

theorem decimal? (spelt : Magnitude rank cs) : ∃ d, Yaml.decimal? cs = some d ∧ d.rank = rank := by
  obtain ⟨whole, fraction, suffix, exponent, nonempty, digits, ends, _, same⟩ := spelt
  refine ⟨_, ?_, same⟩
  have stops : ∀ c ∈ suffix.head?, isDigit c = false := by
    cases suffix with
    | nil => simp
    | cons c rest =>
      rintro d ⟨⟩
      by_cases mark : c = 'e' ∨ c = 'E'
      · rcases mark with rfl | rfl <;> rfl
      · simp [exponent?, mark] at ends
  have first := @takeDigits_append whole ('.' :: (fraction ++ suffix))
    (fun c member => digits c (List.mem_append_left _ member)) (by simp; rfl)
  have second := @takeDigits_append fraction suffix
    (fun c member => digits c (List.mem_append_right _ member)) stops
  have some : ¬ (whole.isEmpty = true ∧ fraction.isEmpty = true) := by simp [nonempty]
  simp only [Yaml.decimal?, first, second, if_neg some, ends]
  rfl

end Magnitude

def signed (negative : Bool) (cs : List Char) : List Char := if negative then '-' :: cs else cs

section Signed

variable {rank : Nat} {cs : List Char} {negative : Bool}

theorem toLower_of_isDigit {c : Char} (digit : isDigit c = true) : c.toLower = c := by
  simp only [isDigit, Bool.and_eq_true, decide_eq_true_eq] at digit
  unfold Char.toLower
  refine dif_neg fun upper => ?_
  exact absurd (UInt32.le_trans upper.1 digit.2) (by decide)

theorem Magnitude.signed_head (spelt : Magnitude rank cs) :
    ∃ c rest, signed negative cs = c :: rest ∧ c.toLower = c ∧ (c = '-' ∨ isDigit c = true) := by
  obtain ⟨c, rest, same, digit⟩ := spelt.head
  cases negative
  · exact ⟨c, rest, same, toLower_of_isDigit digit, .inr digit⟩
  · exact ⟨'-', cs, rfl, rfl, .inl rfl⟩

theorem Magnitude.splitSign_signed (spelt : Magnitude rank cs) :
    splitSign (signed negative cs) = (negative, cs) := by
  cases negative
  · obtain ⟨c, rest, rfl, digit⟩ := spelt.head
    have apart : c ≠ '-' ∧ c ≠ '+' := by
      constructor <;> (rintro rfl; cases digit)
    unfold signed splitSign
    simp [apart]
  · rfl

theorem lowerCase_ne {c : Char} {rest : List Char} {word : String}
    (apart : word.toList.head? ≠ some c.toLower) : lowerCase (c :: rest) ≠ word := by
  rintro rfl
  simp [lowerCase] at apart

theorem Magnitude.lowerCase_ne (spelt : Magnitude rank cs) (negative : Bool) (word : String)
    (apart : word.toList.head?.all (fun c => c ≠ '-' && !isDigit c) = true) :
    lowerCase (signed negative cs) ≠ word := by
  obtain ⟨c, rest, same, lower, mark⟩ := @Magnitude.signed_head rank cs negative spelt
  rw [same]
  refine Yaml.lowerCase_ne fun first => ?_
  rw [first, lower] at apart
  rcases mark with rfl | digit
  · cases apart
  · simp [digit] at apart

theorem Magnitude.boolean?_signed (spelt : Magnitude rank cs) :
    boolean? (String.ofList (signed negative cs)) = none := by
  have apart := spelt.lowerCase_ne negative
  unfold boolean?
  simp only [String.toList_ofList, apart "true" rfl, apart "yes" rfl, apart "y" rfl,
    apart "on" rfl, apart "false" rfl, apart "no" rfl, apart "n" rfl, apart "off" rfl, or_self,
    if_false]

theorem Magnitude.integer?_signed (spelt : Magnitude rank cs) :
    integer? (signed negative cs) = none := by
  unfold integer?
  rw [spelt.splitSign_signed]
  simp only [natural?_of_dot spelt.dot]
  rfl

theorem Magnitude.double?_signed (spelt : Magnitude rank cs) (bounded : rank < infiniteRank + 1) :
    double? (signed negative cs) = some (.signed negative ⟨rank, bounded⟩) := by
  have apart := spelt.lowerCase_ne false
  obtain ⟨d, read, rfl⟩ := spelt.decimal?
  unfold double?
  rw [spelt.splitSign_signed]
  simp only [signed, Bool.false_eq_true, if_false] at apart
  simp only [apart "inf" rfl, apart "infinity" rfl, apart ".inf" rfl, apart "nan" rfl,
    spelt.lowerCase_ne negative ".nan" rfl, or_self, if_false, read]
  rfl

end Signed

section Nodes

variable {x : Binary64}

theorem magnitude_write {negative : Bool} {rank : Fin (infiniteRank + 1)}
    (finite : (Binary64.signed negative rank).isFinite = true) :
    ∃ cs, Magnitude rank cs ∧
      (numberNotation.write (.signed negative rank)).toList = signed negative cs := by
  obtain ⟨d, same, _, laidOut⟩ := numberNotation.exists_write finite
  refine ⟨_, same ▸ magnitude_layout d, ?_⟩
  rw [laidOut]
  cases negative <;> simp [signed]

theorem isWord_write (finite : x.isFinite = true) : IsWord (numberNotation.write x).toList := by
  cases x with
  | nan => cases finite
  | signed negative rank =>
    obtain ⟨cs, spelt, written⟩ := magnitude_write finite
    rw [written]
    cases negative
    · exact spelt.isWord
    · exact spelt.isWord.minus

theorem double?_write (finite : x.isFinite = true) :
    double? (numberNotation.write x).toList = some x := by
  cases x with
  | nan => cases finite
  | signed negative rank =>
    obtain ⟨cs, spelt, written⟩ := magnitude_write finite
    rw [written, spelt.double?_signed rank.isLt]

theorem plainExpected_write (finite : x.isFinite = true) :
    plainExpected (numberNotation.write x) = .number x := by
  have read := double?_write finite
  cases x with
  | nan => cases finite
  | signed negative rank =>
    obtain ⟨cs, spelt, written⟩ := magnitude_write finite
    have text : numberNotation.write (.signed negative rank) = String.ofList (signed negative cs) := by
      rw [← written, String.ofList_toList]
    have noWord := @Magnitude.boolean?_signed _ _ negative spelt
    rw [← text] at noWord
    have noInteger := @Magnitude.integer?_signed _ _ negative spelt
    rw [← written] at noInteger
    simp only [plainExpected, noWord, noInteger, read, finite, if_true]

theorem isNullText_write (finite : x.isFinite = true) :
    isNullText (numberNotation.write x) = false := by
  cases x with
  | nan => cases finite
  | signed negative rank =>
    obtain ⟨cs, spelt, written⟩ := magnitude_write finite
    have apart (word : String) (sign : word.toList.head?.all (fun c => c ≠ '-' && !isDigit c) = true) :
        lowerCase (numberNotation.write (.signed negative rank)).toList ≠ word :=
      written ▸ spelt.lowerCase_ne negative word sign
    have notEmpty : numberNotation.write (.signed negative rank) ≠ "" := fun same =>
      apart "" rfl (by rw [same]; rfl)
    have notTilde : numberNotation.write (.signed negative rank) ≠ "~" := fun same =>
      apart "~" rfl (by rw [same]; rfl)
    simp [isNullText, notEmpty, notTilde, apart "null" rfl]

theorem doubleOf_ofBinary64 (finite : x.isFinite = true) :
    doubleOf (Node.ofBinary64 x) = .ok x := by
  simp only [doubleOf, Node.ofBinary64, (isWord_write finite).trimBlanks, double?_write finite]

theorem isWord_digitsText (n : Nat) : IsWord (digitsText n).toList := by
  rw [digitsText, String.toList_ofList]
  have digits : ∀ c ∈ Nat.toDigits 10 n, isDigit c = true := fun c => isDigit_of_mem_toDigits
  cases same : Nat.toDigits 10 n with
  | nil => exact absurd same Nat.toDigits_ne_nil
  | cons c rest =>
    rw [same] at digits
    exact .of_isAlphanum (isAlphanum_of_isDigit (digits c List.mem_cons_self)) fun d member =>
      isWordChar_of_isDigit (digits d (List.mem_cons_of_mem _ member))

theorem digitsInBase?_of_isDigit {ds : List Char} (nonempty : ds ≠ [])
    (digits : ∀ c ∈ ds, isDigit c = true) : digitsInBase? 10 ds = some (digitsValue ds) := by
  have whole : ds.filter (· ≠ '_') = ds := by
    refine List.filter_eq_self.mpr fun c member => ?_
    have digit := digits c member
    simp only [decide_eq_true_eq]
    rintro rfl
    cases digit
  have read (ds : List Char) (digits : ∀ c ∈ ds, isDigit c = true) :
      ds.mapM hexDigit? = some (ds.map digitValue) := by
    induction ds with
    | nil => rfl
    | cons d ds ih =>
      rw [List.mapM_cons, ih fun c member => digits c (List.mem_cons_of_mem _ member), hexDigit?,
        if_pos (digits d List.mem_cons_self)]
      rfl
  have low : (ds.map digitValue).any (10 ≤ ·) = false := by
    simp only [List.any_map, List.any_eq_false, Function.comp, decide_eq_true_eq]
    intro c member
    have digit := digits c member
    rw [isDigit_eq, Char.isDigit_iff_toNat] at digit
    simp only [Char.reduceToNat] at digit
    simp only [digitValue, Char.reduceToNat]
    omega
  unfold digitsInBase?
  rw [whole, read ds digits]
  change (if _ then none else some _) = _
  rw [if_neg (by simp [nonempty, low]), List.foldl_map]
  rfl

theorem natural?_of_isDigit {ds : List Char} (nonempty : ds ≠ [])
    (digits : ∀ c ∈ ds, isDigit c = true) : natural? ds = some (digitsValue ds) := by
  have read := digitsInBase?_of_isDigit nonempty digits
  unfold natural?
  split
  · rename_i c rest
    have digit := digits c (by simp)
    have apart : ∀ d ∈ ['x', 'X', 'o', 'O', 'b', 'B'], c ≠ d := by
      rintro d member rfl
      have none : ∀ d ∈ ['x', 'X', 'o', 'O', 'b', 'B'], isDigit d = false :=
        List.all_iff_forall_prop.mp (by decide)
      rw [none _ member] at digit
      cases digit
    simp only [List.forall_mem_cons] at apart
    simpa [apart] using read
  · exact read

theorem countOf_ofNat (n : UInt32) : countOf (Node.ofNat n.toNat) = .ok n := by
  have read : unsigned? (digitsText n.toNat).toList = some n.toNat := by
    rw [digitsText, String.toList_ofList]
    have digits : ∀ c ∈ Nat.toDigits 10 n.toNat, isDigit c = true := fun c => isDigit_of_mem_toDigits
    have natural := natural?_of_isDigit Nat.toDigits_ne_nil digits
    rw [digitsValue_toDigits] at natural
    unfold unsigned?
    split
    · rename_i rest same
      rw [same] at digits
      exact absurd (digits '+' List.mem_cons_self) (by decide)
    · exact natural
  simp only [countOf, Node.ofNat, (isWord_digitsText n.toNat).trimBlanks, read]
  rw [if_pos n.toNat_lt, UInt32.ofNat_toNat]

theorem isWord_ofBool (b : Bool) : IsWord (if b then "true" else "false").toList := by
  cases b <;> exact ⟨rfl, List.all_eq_true.mp (by decide)⟩

end Nodes

end Reading

end PageHealth.Yaml
