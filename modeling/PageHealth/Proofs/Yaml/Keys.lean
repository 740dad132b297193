import PageHealth.Proofs.Yaml.Numbers
import PageHealth.Proofs.Yaml.Scalars

namespace PageHealth.Yaml

structure IsKey (key : List Char) : Prop where
  nonempty : key ≠ []
  letters : ∀ c ∈ key, c.isAlphanum = true

def keyLine (column : Nat) (key tail : List Char) : Line := ⟨column, key ++ ':' :: tail⟩

def itemLine (column : Nat) (cs : List Char) : Line := ⟨column, '-' :: ' ' :: cs⟩

section Solid

variable {cs : List Char}

theorem Solid.skipSpaces (solid : Solid cs) : skipSpaces cs = cs := by
  obtain ⟨c, rest, rfl, notSpace⟩ := solid
  exact List.dropWhile_cons_of_neg (by simp [notSpace])

theorem Solid.normal (solid : Solid cs) {column : Nat} :
    (Line.mk column cs).normal = ⟨column, cs⟩ := by
  refine Line.normal_of_head ?_
  obtain ⟨c, rest, rfl, notSpace⟩ := solid
  rintro ⟨⟩
  cases notSpace

end Solid

section Keys

variable {key tail : List Char} {column : Nat}

theorem IsKey.exists_cons (isKey : IsKey key) : ∃ c others, key = c :: others ∧
    c.isAlphanum = true ∧ c ∉ plainStops := by
  cases key with
  | nil => exact absurd rfl isKey.nonempty
  | cons c others =>
    have letter := isKey.letters c List.mem_cons_self
    exact ⟨c, others, rfl, letter, not_mem_plainStops letter⟩

theorem IsKey.isWord (isKey : IsKey key) : IsWord key := by
  obtain ⟨c, others, rfl, letter, _⟩ := isKey.exists_cons
  exact .of_isAlphanum letter fun d member =>
    isWordChar_of_isAlphanum (isKey.letters d (List.mem_cons_of_mem _ member))

theorem IsKey.head (isKey : IsKey key) {d : Char} (stop : d ∈ plainStops) :
    (keyLine column key tail).text.head? ≠ some d := by
  obtain ⟨c, others, rfl, _, apart⟩ := isKey.exists_cons
  rintro ⟨⟩
  exact apart stop

theorem IsKey.solid (isKey : IsKey key) : Solid (key ++ ':' :: tail) := by
  obtain ⟨c, others, rfl, _, apart⟩ := isKey.exists_cons
  refine ⟨c, others ++ ':' :: tail, rfl, ?_⟩
  simp only [plainStops, List.mem_cons, not_or] at apart
  simp [isSpace, apart]

theorem IsKey.normal (isKey : IsKey key) :
    (keyLine column key tail).normal = keyLine column key tail :=
  isKey.solid.normal

theorem IsKey.not_isIdle (isKey : IsKey key) : (keyLine column key tail).isIdle = false := by
  have notHash := @IsKey.head key tail column isKey '#' (by decide)
  simp only [Line.isIdle, Line.isBlank, Line.isComment, keyLine, isKey.solid.skipSpaces] at notHash ⊢
  rw [decide_eq_false notHash]
  simp

theorem IsKey.not_isItem (isKey : IsKey key) : (keyLine column key tail).isItem = false := by
  have notDash := @IsKey.head key tail column isKey '-' (by decide)
  unfold Line.isItem
  split
  · rename_i same
    rw [same] at notDash
    exact absurd rfl notDash
  · rfl

theorem IsKey.not_isKey (isKey : IsKey key) : (keyLine column key tail).isKey = false := by
  have notMark := @IsKey.head key tail column isKey '?' (by decide)
  unfold Line.isKey
  split
  · rename_i same
    rw [same] at notMark
    exact absurd rfl notMark
  · rfl

theorem cutPlain_key (letters : ∀ c ∈ key, c.isAlphanum = true) (spaced : startsSpace tail = true)
    (afterSpace : Bool) : cutPlain false afterSpace (key ++ ':' :: tail) = (key, ':' :: tail) := by
  induction key generalizing afterSpace with
  | nil => simp [cutPlain, endsPlain, spaced]
  | cons c key ih =>
    have apart := not_mem_plainStops (letters c List.mem_cons_self)
    simp only [plainStops, List.mem_cons, not_or] at apart
    rw [List.cons_append, cutPlain, if_neg (by simp [endsPlain, apart]),
      ih fun d member => letters d (List.mem_cons_of_mem _ member)]

theorem implicitKey?_key (isKey : IsKey key) (spaced : startsSpace tail = true) :
    implicitKey? (key ++ ':' :: tail) = some (.scalar true none (String.ofList key), tail) := by
  have cut := cutPlain_key isKey.letters spaced false
  have trimmed := isKey.isWord.trimEnd
  obtain ⟨c, others, rfl, letter, apart⟩ := isKey.exists_cons
  have starts := startsPlain_of_isAlphanum letter (others ++ ':' :: tail)
  simp only [plainStops, List.mem_cons, not_or] at apart
  unfold implicitKey?
  rw [List.cons_append] at cut ⊢
  rw [Properties.read_cons (by simp [apart]) (by simp [apart])]
  have double : c ≠ '"' := by simp [apart]
  have single : c ≠ '\'' := by simp [apart]
  have star : c ≠ '*' := by simp [apart]
  simp only [Except.toOption, Option.bind_eq_bind, Option.bind_some, double, single, or_self, if_false,
    starts, if_true, cut, trimmed]
  have colon : Yaml.skipSpaces (':' :: tail) = ':' :: tail := rfl
  rw [colon]
  simp only [spaced, if_true]
  rfl

end Keys

section Items

variable {cs : List Char} {column : Nat}

theorem afterMark_itemLine (solid : Solid cs) : (itemLine column cs).afterMark = ⟨column + 2, cs⟩ := by
  obtain ⟨c, rest, rfl, notSpace⟩ := solid
  have space : isSpace ' ' = true := rfl
  simp [itemLine, Line.afterMark, skipSpaces, notSpace, space]

theorem itemLine_normal : (itemLine column cs).normal = itemLine column cs :=
  Line.normal_of_head (by simp [itemLine])

theorem IsWord.exists_cons (word : IsWord cs) :
    ∃ c rest, cs = c :: rest ∧ isSpace c = false ∧ isWordChar c = true := by
  cases cs with
  | nil => cases word.starts
  | cons c rest =>
    exact ⟨c, rest, rfl, not_isSpace_of_not_isBlank (word.shown List.mem_cons_self),
      word.chars c List.mem_cons_self⟩

theorem IsWord.solid (word : IsWord cs) : Solid cs := by
  obtain ⟨c, rest, same, notSpace, _⟩ := word.exists_cons
  exact ⟨c, rest, same, notSpace⟩

theorem IsWord.not_isItem (word : IsWord cs) : (Line.mk column cs).isItem = false := by
  have starts := word.starts
  unfold Line.isItem
  split
  · rename_i rest same
    have same : cs = '-' :: rest := same
    subst same
    simpa [startsPlain] using starts
  · rfl

theorem IsWord.not_isKey (word : IsWord cs) : (Line.mk column cs).isKey = false := by
  obtain ⟨c, rest, rfl, _, char⟩ := word.exists_cons
  unfold Line.isKey
  split
  · rename_i same
    cases same
    cases char
  · rfl

theorem IsWord.not_isIdle (word : IsWord cs) : (Line.mk column cs).isIdle = false := by
  have whole := word.solid.skipSpaces
  obtain ⟨c, rest, rfl, _, char⟩ := word.exists_cons
  have notHash : c ≠ '#' := by
    rintro rfl
    cases char
  simp [Line.isIdle, Line.isBlank, Line.isComment, whole, notHash]

theorem implicitKey?_word (word : IsWord cs) : implicitKey? cs = none := by
  have plain := word.readsPlain
  obtain ⟨c, rest, rfl, _, char⟩ := word.exists_cons
  have apart : ∀ d ∈ ['&', '!', '*', '"', '\''], c ≠ d := by
    rintro d member rfl
    have none : ∀ d ∈ ['&', '!', '*', '"', '\''], isWordChar d = false :=
      List.all_iff_forall_prop.mp (by decide)
    rw [none _ member] at char
    cases char
  simp only [List.forall_mem_cons] at apart
  obtain ⟨anchor, tag, star, double, single, _⟩ := apart
  unfold implicitKey?
  rw [Properties.read_cons anchor tag]
  simp only [Except.toOption, Option.bind_eq_bind, Option.bind_some, double, single, or_self, if_false,
    plain.starts, if_true, plain.whole]
  rfl

end Items

end PageHealth.Yaml
