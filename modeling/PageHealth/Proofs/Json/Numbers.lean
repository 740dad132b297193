import PageHealth.Json.Token
import PageHealth.Json.Writer
import PageHealth.Proofs.Number.Notation

namespace PageHealth.Json

def EndsNumber (rest : List Char) : Prop :=
  ∀ c ∈ rest.head?, isDigit c = false ∧ c ≠ '.' ∧ c ≠ 'e' ∧ c ≠ 'E'

section Parts

variable {ds rest : List Char}

theorem someDigits_append (nonempty : ds ≠ []) (digits : ∀ c ∈ ds, isDigit c = true)
    (stop : ∀ c ∈ rest.head?, isDigit c = false) : someDigits (ds ++ rest) = .ok (ds, rest) := by
  unfold someDigits
  rw [takeDigits_append digits stop]
  split
  · rename_i same
    exact absurd (congrArg Prod.fst same) nonempty
  · rename_i same
    exact absurd (congrArg Prod.fst same) nonempty
  · rfl

theorem wholeDigits_append (nonempty : ds ≠ []) (digits : ∀ c ∈ ds, isDigit c = true)
    (leading : ds.head? = some '0' → ds = ['0']) (stop : ∀ c ∈ rest.head?, isDigit c = false) :
    wholeDigits (ds ++ rest) = .ok (ds, rest) := by
  unfold wholeDigits
  split
  · rename_i c more same
    obtain ⟨d, others, rfl⟩ := List.exists_cons_of_ne_nil nonempty
    obtain ⟨rfl, behind⟩ := List.cons.inj same
    obtain rfl : others = [] := (List.cons.inj (leading rfl)).2
    obtain rfl : rest = c :: more := behind
    rw [if_neg (by simp [stop c rfl])]
  · exact someDigits_append nonempty digits stop

theorem fractionDigits_point (nonempty : ds ≠ []) (digits : ∀ c ∈ ds, isDigit c = true)
    (stop : ∀ c ∈ rest.head?, isDigit c = false) :
    fractionDigits ('.' :: ds ++ rest) = .ok (some ds, rest) := by
  change (someDigits (ds ++ rest)).map _ = _
  rw [someDigits_append nonempty digits stop]
  rfl

theorem fractionDigits_of_head (stop : ∀ c ∈ rest.head?, c ≠ '.') :
    fractionDigits rest = .ok (none, rest) := by
  unfold fractionDigits
  split
  · exact absurd rfl (stop '.' rfl)
  · rfl

theorem exponentPart_exponentText (n : Int) (stop : ∀ c ∈ rest.head?, isDigit c = false) :
    exponentPart (exponentText n ++ rest) = .ok (some n, rest) := by
  have read := @someDigits_append (Nat.toDigits 10 n.natAbs) rest Nat.toDigits_ne_nil
    (fun c member => isDigit_of_mem_toDigits member) stop
  unfold exponentText
  split
  · rename_i negative
    change (someDigits (Nat.toDigits 10 n.natAbs ++ rest)).map _ = _
    have value : -(n.natAbs : Int) = n := by omega
    simp only [read, Except.map, digitsValue_toDigits, value]
  · rename_i positive
    change (someDigits (Nat.toDigits 10 n.natAbs ++ rest)).map _ = _
    have value : (n.natAbs : Int) = n := by omega
    simp only [read, Except.map, digitsValue_toDigits, value]

theorem exponentPart_of_head (stop : ∀ c ∈ rest.head?, c ≠ 'e' ∧ c ≠ 'E') :
    exponentPart rest = .ok (none, rest) := by
  cases rest with
  | nil => rfl
  | cons c rest =>
    obtain ⟨small, large⟩ := stop c rfl
    simp [exponentPart, small, large]

end Parts

section Numbers

variable {rest : List Char} {negative : Bool} {numeral : Numeral}

theorem EndsNumber.not_isDigit (ends : EndsNumber rest) : ∀ c ∈ rest.head?, isDigit c = false :=
  fun c first => (ends c first).1

theorem exponentPart_numeral (ends : EndsNumber rest) :
    exponentPart (numeral.exponent.elim [] exponentText ++ rest) = .ok (numeral.exponent, rest) := by
  cases numeral.exponent with
  | none => exact exponentPart_of_head fun c first => (ends c first).2.2
  | some n => exact exponentPart_exponentText n ends.not_isDigit

theorem head_exponent (ends : EndsNumber rest) :
    ∀ c ∈ (numeral.exponent.elim [] exponentText ++ rest).head?, isDigit c = false ∧ c ≠ '.' := by
  cases numeral.exponent with
  | none => exact fun c first => ⟨(ends c first).1, (ends c first).2.1⟩
  | some n =>
    rintro _ ⟨⟩
    exact ⟨rfl, by decide⟩

theorem fractionDigits_numeral (sound : numeral.Sound) (ends : EndsNumber rest) :
    fractionDigits (numeral.fraction.elim [] ('.' :: ·) ++
        (numeral.exponent.elim [] exponentText ++ rest)) =
      .ok (numeral.fraction, numeral.exponent.elim [] exponentText ++ rest) := by
  have behind := @head_exponent rest numeral ends
  have digits := (List.forall_mem_append.mp sound.digits).2
  cases same : numeral.fraction with
  | none => exact fractionDigits_of_head fun c first => (behind c first).2
  | some ds =>
    rw [same] at digits
    exact fractionDigits_point (sound.fraction_nonempty ds same) digits
      fun c first => (behind c first).1

theorem readNumber_numeral (sound : numeral.Sound)
    (leading : numeral.whole.head? = some '0' → numeral.whole = ['0'])
    (finite : numeral.decimal.rank ≠ infiniteRank) (ends : EndsNumber rest) :
    readNumber negative (numeral.chars ++ rest) =
      .ok (.double (numeral.decimal.toBinary64 negative), rest) := by
  have whole : wholeDigits (numeral.chars ++ rest) = .ok (numeral.whole,
      numeral.fraction.elim [] ('.' :: ·) ++ (numeral.exponent.elim [] exponentText ++ rest)) := by
    unfold Numeral.chars
    rw [List.append_assoc, List.append_assoc]
    refine wholeDigits_append sound.whole_nonempty (List.forall_mem_append.mp sound.digits).1 leading ?_
    cases numeral.fraction with
    | none => exact fun c first => (head_exponent ends c first).1
    | some ds =>
      rintro _ ⟨⟩
      rfl
  have value : numberOf negative numeral.whole numeral.fraction numeral.exponent =
      .ok (.double (numeral.decimal.toBinary64 negative)) := by
    have marked : ¬ (numeral.fraction.isNone = true ∧ numeral.exponent.isNone = true) := by
      rintro ⟨noFraction, noExponent⟩
      rcases sound.marked with fraction | exponent
      · rw [Option.isNone_iff_eq_none.mp noFraction] at fraction
        cases fraction
      · rw [Option.isNone_iff_eq_none.mp noExponent] at exponent
        cases exponent
    unfold numberOf
    rw [if_neg marked]
    exact if_neg finite
  unfold readNumber
  simp only [whole, fractionDigits_numeral sound ends, exponentPart_numeral ends, value, bind,
    Except.bind, pure, Except.pure]

theorem readNumber_toDigits {n : Nat} {number : Number} (fits : wholeNumber? negative n = some number)
    (ends : EndsNumber rest) :
    readNumber negative (Nat.toDigits 10 n ++ rest) = .ok (number, rest) := by
  have leading : (Nat.toDigits 10 n).head? = some '0' → Nat.toDigits 10 n = ['0'] := by
    intro zero
    rcases Nat.eq_zero_or_pos n with rfl | positive
    · rfl
    · exact absurd zero (head?_toDigits_ne positive)
  have whole := wholeDigits_append Nat.toDigits_ne_nil
    (fun c member => isDigit_of_mem_toDigits member) leading ends.not_isDigit
  have fraction := @fractionDigits_of_head rest fun c first => (ends c first).2.1
  have exponent := @exponentPart_of_head rest fun c first => (ends c first).2.2
  have value : numberOf negative (Nat.toDigits 10 n) none none = .ok number := by
    unfold numberOf
    rw [if_pos ⟨rfl, rfl⟩, digitsValue_toDigits, fits]
  unfold readNumber
  simp only [whole, fraction, exponent, value, bind, Except.bind, pure, Except.pure]

end Numbers

/-- Numbers that are written as numbers and read as the same kind: whole numbers of 64 bits, signed or
unsigned, and finite doubles. -/
def Number.isReadable : Number → Bool
  | integer n => -9223372036854775808 ≤ n && n < 18446744073709551616
  | double x => x.isFinite

section Tokens

variable {c : Char} {rest after : List Char} {token : Token}

theorem tokens_cons (shown : isSpace c = false) (read : readToken c rest = (token, after)) :
    tokens (c :: rest) = token :: tokens after := by
  rw [tokens, if_neg (by simp [shown])]
  simp only [read]

theorem apart_of_isDigit (digit : isDigit c = true) : isSpace c = false ∧ c ≠ '"' ∧ c ≠ '-' := by
  refine ⟨?_, ?_, ?_⟩
  · cases space : isSpace c with
    | false => rfl
    | true =>
      simp only [isSpace, Bool.or_eq_true, decide_eq_true_eq] at space
      rcases space with ((rfl | rfl) | rfl) | rfl <;> cases digit
  · rintro rfl
    cases digit
  · rintro rfl
    cases digit

theorem tokens_positive {cs : List Char} {number : Number} (starts : ∃ c more, cs = c :: more ∧ isDigit c = true)
    (read : readNumber false (cs ++ rest) = .ok (number, rest)) :
    tokens (cs ++ rest) = .word (.number number) :: tokens rest := by
  obtain ⟨c, more, rfl, digit⟩ := starts
  obtain ⟨shown, noQuote, noSign⟩ := apart_of_isDigit digit
  have whole : numberToken false (c :: (more ++ rest)) = (.word (.number number), rest) := by
    unfold numberToken
    rw [← List.cons_append, read]
  refine tokens_cons shown ?_
  unfold readToken
  rw [if_neg noQuote, if_neg noSign, if_pos digit]
  exact whole

theorem tokens_negative {cs : List Char} {number : Number}
    (read : readNumber true (cs ++ rest) = .ok (number, rest)) :
    tokens ('-' :: cs ++ rest) = .word (.number number) :: tokens rest := by
  refine tokens_cons rfl ?_
  change numberToken true (cs ++ rest) = _
  unfold numberToken
  rw [read]

theorem tokens_integer {n : Int} (readable : (Number.integer n).isReadable = true)
    (ends : EndsNumber rest) :
    tokens ((writeInteger n).toList ++ rest) = .word (.number (.integer n)) :: tokens rest := by
  simp only [Number.isReadable, Bool.and_eq_true, decide_eq_true_eq] at readable
  unfold writeInteger
  split
  · rename_i negative
    have fits : wholeNumber? true n.natAbs = some (.integer n) := by
      have value : -(n.natAbs : Int) = n := by omega
      simp only [wholeNumber?, if_true, value]
      exact if_pos (by omega)
    have signed : ("-" ++ digitsText n.natAbs).toList = '-' :: Nat.toDigits 10 n.natAbs := by
      simp [digitsText]
    rw [signed]
    exact tokens_negative (readNumber_toDigits fits ends)
  · rename_i positive
    have fits : wholeNumber? false n.natAbs = some (.integer n) := by
      have value : (n.natAbs : Int) = n := by omega
      simp only [wholeNumber?, Bool.false_eq_true, if_false, value]
      exact if_pos (by omega)
    rw [digitsText, String.toList_ofList]
    refine tokens_positive ?_ (readNumber_toDigits fits ends)
    obtain ⟨c, more, same⟩ := List.exists_cons_of_ne_nil (@Nat.toDigits_ne_nil n.natAbs 10)
    exact ⟨c, more, same, isDigit_of_mem_toDigits (same ▸ List.mem_cons_self)⟩

theorem tokens_double {x : Binary64} (finite : x.isFinite = true) (ends : EndsNumber rest) :
    tokens ((writeDouble x).toList ++ rest) = .word (.number (.double x)) :: tokens rest := by
  cases x with
  | nan => cases finite
  | signed negative rank =>
    have small : rank.val < infiniteRank := by simpa [Binary64.isFinite, Fin.lt_def] using finite
    obtain ⟨d, same, proper, written⟩ := numberNotation.exists_write finite
    obtain ⟨numeral, laid⟩ := @NumberNotation.exists_laysOut numberNotation rfl rfl d
    have sound := laid.spells.sound
    have value : numeral.decimal.rank = rank := laid.rank_eq.trans same
    have double : numeral.decimal.toBinary64 negative = .signed negative rank := by
      unfold Decimal.toBinary64
      exact congrArg _ (Fin.ext value)
    have read := @readNumber_numeral rest negative numeral sound (laid.leading proper)
      (by rw [value]; exact Nat.ne_of_lt small) ends
    rw [double] at read
    rw [writeDouble, if_pos finite, written]
    cases negative with
    | true =>
      have signed : ("-" ++ numberNotation.layout d).toList = '-' :: numeral.chars := by
        simp [laid.chars]
      rw [if_pos rfl, signed]
      exact tokens_negative read
    | false =>
      rw [if_neg (by decide), laid.chars]
      refine tokens_positive ?_ read
      obtain ⟨c, more, whole⟩ := List.exists_cons_of_ne_nil sound.whole_nonempty
      refine ⟨c, _, by rw [Numeral.chars, whole, List.cons_append], ?_⟩
      exact sound.digits c (by simp [whole])

theorem tokens_number {number : Number} (readable : number.isReadable = true) (ends : EndsNumber rest) :
    tokens (number.write.toList ++ rest) = .word (.number number) :: tokens rest := by
  cases number with
  | integer n => exact tokens_integer readable ends
  | double x => exact tokens_double readable ends

end Tokens

end PageHealth.Json
