import PageHealth.Number.Notation
import PageHealth.Proofs.Number.Decimal
import PageHealth.Proofs.Text.Digits

namespace PageHealth

def exponentText (n : Int) : List Char :=
  'e' :: (if n < 0 then '-' else '+') :: Nat.toDigits 10 n.natAbs

structure Numeral where
  whole : List Char
  fraction : Option (List Char)
  exponent : Option Int

namespace Numeral

def chars (numeral : Numeral) : List Char :=
  numeral.whole ++ (numeral.fraction.elim [] ('.' :: ·) ++ numeral.exponent.elim [] exponentText)

def decimal (numeral : Numeral) : Decimal :=
  ⟨digitsValue (numeral.whole ++ numeral.fraction.getD []),
    numeral.exponent.getD 0 - (numeral.fraction.getD []).length⟩

structure Sound (numeral : Numeral) : Prop where
  whole_nonempty : numeral.whole ≠ []
  fraction_nonempty : ∀ digits ∈ numeral.fraction, digits ≠ []
  digits : ∀ c ∈ numeral.whole ++ numeral.fraction.getD [], isDigit c = true
  marked : numeral.fraction.isSome ∨ numeral.exponent.isSome

/-- The parts that digits and their exponent are cast into. A zero leads the digits before the point
only if it leads the digits themselves, or if it stands alone. -/
structure Spells (numeral : Numeral) (ds : List Char) (exponent : Int) : Prop where
  sound : numeral.Sound
  rank : numeral.decimal.rank = Decimal.rank ⟨digitsValue ds, exponent⟩
  leading : (ds.head? = some '0' → ds = ['0'] ∧ exponent = 0) →
    numeral.whole.head? = some '0' → numeral.whole = ['0']

section Positions

variable {ds : List Char}

theorem spells_whole (nonempty : ds ≠ []) (digits : ∀ c ∈ ds, isDigit c = true) (k : Nat) :
    Spells ⟨ds ++ List.replicate k '0', some ['0'], none⟩ ds k := by
  have zeros : ds ++ List.replicate k '0' ++ ['0'] = ds ++ List.replicate (k + 1) '0' := by
    rw [List.replicate_succ', List.append_assoc]
  refine ⟨⟨by simp [nonempty], by simp, ?_, .inl rfl⟩, ?_, ?_⟩
  · rw [Option.getD_some, zeros]
    exact List.forall_mem_append.mpr ⟨digits, isDigit_of_mem_zeros⟩
  · have places : -(['0'].length : Int) + (k + 1 : Nat) = k := by
      rw [List.length_singleton]
      omega
    rw [← places, ← Decimal.rank_shift, ← digitsValue_append_zeros, ← zeros]
    simp [decimal]
  · intro alone first
    obtain ⟨c, rest, rfl⟩ := List.exists_cons_of_ne_nil nonempty
    obtain ⟨same, none⟩ := alone first
    obtain rfl : k = 0 := by omega
    rw [same]
    rfl

theorem spells_between {n : Nat} (positive : 0 < n) (inside : n < ds.length)
    (digits : ∀ c ∈ ds, isDigit c = true) :
    Spells ⟨ds.take n, some (ds.drop n), none⟩ ds (-(ds.length - n : Nat)) := by
  refine ⟨⟨?_, ?_, ?_, .inl rfl⟩, ?_, ?_⟩
  · exact List.ne_nil_of_length_pos (by rw [List.length_take]; omega)
  · rintro _ ⟨⟩
    exact List.ne_nil_of_length_pos (by rw [List.length_drop]; omega)
  · rwa [Option.getD_some, List.take_append_drop]
  · simp only [decimal, Option.getD_some, Option.getD_none, List.take_append_drop, List.length_drop,
      Int.zero_sub]
  · intro alone first
    rw [List.head?_take, if_neg (by omega)] at first
    have := (alone first).2
    omega

theorem spells_small (nonempty : ds ≠ []) (digits : ∀ c ∈ ds, isDigit c = true) (k : Nat) :
    Spells ⟨['0'], some (List.replicate k '0' ++ ds), none⟩ ds (-(k + ds.length : Nat)) := by
  have zeros : ['0'] ++ (List.replicate k '0' ++ ds) = List.replicate (k + 1) '0' ++ ds := rfl
  refine ⟨⟨by simp, ?_, ?_, .inl rfl⟩, ?_, fun _ _ => rfl⟩
  · rintro _ ⟨⟩
    simp [nonempty]
  · rw [Option.getD_some, zeros]
    exact List.forall_mem_append.mpr ⟨isDigit_of_mem_zeros, digits⟩
  · simp only [decimal, Option.getD_some, Option.getD_none, zeros, digitsValue_zeros_append,
      List.length_append, List.length_replicate, Int.zero_sub]

theorem spells_scientific {first : Char} {others : List Char} (nonempty : others ≠ [])
    (digits : ∀ c ∈ first :: others, isDigit c = true) (leading : Int) :
    Spells ⟨[first], some others, some leading⟩ (first :: others) (leading - others.length) := by
  refine ⟨⟨by simp, ?_, digits, .inl rfl⟩, rfl, ?_⟩
  · rintro _ ⟨⟩
    exact nonempty
  · intro _ zero
    rw [Option.some.inj zero]

theorem spells_digit {first : Char} (digit : isDigit first = true) (leading : Int) (point : Bool) :
    Spells ⟨[first], if point then some ['0'] else none, some leading⟩ [first] leading := by
  have digits : ∀ c ∈ [first], isDigit c = true := by simpa using digit
  cases point with
  | false =>
    refine ⟨⟨by simp, by simp, by simpa using digit, .inr rfl⟩, ?_, ?_⟩
    · simp [decimal]
    · intro _ zero
      rw [Option.some.inj zero]
  | true =>
    refine ⟨⟨by simp, by simp, ?_, .inl rfl⟩, ?_, ?_⟩
    · exact List.forall_mem_append.mpr ⟨digits, by simp; rfl⟩
    · have places : leading - (['0'].length : Int) + (1 : Nat) = leading := by simp
      have shifted := Decimal.rank_shift (digitsValue [first]) 1 (leading - (['0'].length : Int))
      rw [← digitsValue_append_zeros, places] at shifted
      exact shifted
    · intro _ zero
      rw [Option.some.inj zero]

end Positions

end Numeral

namespace NumberNotation

variable {f : NumberNotation} {d : Decimal}

structure LaysOut (f : NumberNotation) (d : Decimal) (numeral : Numeral) : Prop where
  chars : (f.layout d).toList = numeral.chars
  spells : numeral.Spells (Nat.toDigits 10 d.digits) d.exponent
  point : f.mantissaPointZero = true → numeral.fraction.isSome

def leadingExponent (d : Decimal) : Int := d.exponent + ((Nat.toDigits 10 d.digits).length - 1 : Nat)

theorem exists_laysOut_plain (pointed : f.pointZero = true)
    (plain : f.plainFrom ≤ leadingExponent d ∧ leadingExponent d < f.plainBelow) :
    ∃ numeral, f.LaysOut d numeral := by
  obtain ⟨n, exponent⟩ := d
  have digits : ∀ c ∈ Nat.toDigits 10 n, isDigit c = true := fun c => isDigit_of_mem_toDigits
  have nonempty : Nat.toDigits 10 n ≠ [] := Nat.toDigits_ne_nil
  unfold leadingExponent at plain
  suffices ∃ numeral : Numeral, (f.layout ⟨n, exponent⟩).toList = numeral.chars ∧
      numeral.Spells (Nat.toDigits 10 n) exponent ∧ numeral.fraction.isSome by
    obtain ⟨numeral, chars, spells, point⟩ := this
    exact ⟨numeral, chars, spells, fun _ => point⟩
  unfold layout
  simp only [pointed, if_pos plain, if_true]
  generalize Nat.toDigits 10 n = ds at *
  generalize leads : exponent + ((ds.length - 1 : Nat) : Int) = leading
  have long : 0 < ds.length := List.length_pos_iff.mpr nonempty
  split_ifs with whole between
  · obtain ⟨k, rfl⟩ := Int.eq_ofNat_of_zero_le whole
    exact ⟨_, by simp [Numeral.chars], Numeral.spells_whole nonempty digits k, rfl⟩
  · have places : -((ds.length - (leading.toNat + 1) : Nat) : Int) = exponent := by omega
    have spells := @Numeral.spells_between ds (leading.toNat + 1) (by omega) (by omega) digits
    rw [places] at spells
    exact ⟨_, by simp [Numeral.chars], spells, rfl⟩
  · have places : -(((-leading - 1).toNat + ds.length : Nat) : Int) = exponent := by omega
    have spells := Numeral.spells_small nonempty digits (-leading - 1).toNat
    rw [places] at spells
    exact ⟨_, by simp [Numeral.chars], spells, rfl⟩

theorem exists_laysOut_scientific (plus : f.exponentPlus = true)
    (notPlain : ¬ (f.plainFrom ≤ leadingExponent d ∧ leadingExponent d < f.plainBelow)) :
    ∃ numeral, f.LaysOut d numeral := by
  obtain ⟨n, exponent⟩ := d
  have digits : ∀ c ∈ Nat.toDigits 10 n, isDigit c = true := fun c => isDigit_of_mem_toDigits
  have nonempty : Nat.toDigits 10 n ≠ [] := Nat.toDigits_ne_nil
  unfold leadingExponent at notPlain
  suffices ∃ numeral : Numeral, (f.layout ⟨n, exponent⟩).toList = numeral.chars ∧
      numeral.Spells (Nat.toDigits 10 n) exponent ∧
        (f.mantissaPointZero = true → numeral.fraction.isSome) by
    obtain ⟨numeral, chars, spells, point⟩ := this
    exact ⟨numeral, chars, spells, point⟩
  unfold layout
  simp only [plus, if_neg notPlain, if_true]
  generalize Nat.toDigits 10 n = ds at *
  generalize leads : exponent + ((ds.length - 1 : Nat) : Int) = leading
  have sign : (if leading < 0 then "-" else "+").toList = [if leading < 0 then '-' else '+'] := by
    split <;> rfl
  match ds with
  | [] => exact absurd rfl nonempty
  | [first] =>
    have places : leading = exponent := by
      simp only [List.length_singleton] at leads
      omega
    have spells := Numeral.spells_digit (digits first (by simp)) leading f.mantissaPointZero
    rw [← places]
    refine ⟨_, ?_, spells, fun point => by simp [point]⟩
    cases f.mantissaPointZero <;> simp [Numeral.chars, exponentText, digitsText, sign]
  | first :: second :: others =>
    have places : leading - ((second :: others).length : Int) = exponent := by
      simp only [List.length_cons] at leads ⊢
      omega
    have spells := Numeral.spells_scientific (List.cons_ne_nil second others) digits leading
    rw [places] at spells
    refine ⟨_, ?_, spells, fun _ => rfl⟩
    simp [Numeral.chars, exponentText, digitsText, sign]

theorem exists_laysOut (pointed : f.pointZero = true) (plus : f.exponentPlus = true) (d : Decimal) :
    ∃ numeral, f.LaysOut d numeral := by
  by_cases plain : f.plainFrom ≤ leadingExponent d ∧ leadingExponent d < f.plainBelow
  · exact exists_laysOut_plain pointed plain
  · exact exists_laysOut_scientific plus plain

variable {numeral : Numeral}

theorem LaysOut.rank_eq (laid : f.LaysOut d numeral) : numeral.decimal.rank = d.rank := by
  rw [laid.spells.rank, digitsValue_toDigits]

theorem LaysOut.leading (laid : f.LaysOut d numeral) (proper : d.digits = 0 → d.exponent = 0)
    (zero : numeral.whole.head? = some '0') : numeral.whole = ['0'] := by
  refine laid.spells.leading (fun first => ?_) zero
  rcases Nat.eq_zero_or_pos d.digits with none | some
  · exact ⟨by rw [none]; rfl, proper none⟩
  · exact absurd first (head?_toDigits_ne some)

theorem notMem_layout {c : Char} (letter : isDigit c = false) (apart : c ∉ ['.', 'e', '-', '+']) :
    c ∉ (f.layout d).toList := by
  have zero : c ≠ '0' := by
    rintro rfl
    cases letter
  have digits := notMem_toDigits letter
  simp only [List.mem_cons, List.not_mem_nil, or_false, not_or] at apart
  obtain ⟨point, e, minus, plus⟩ := apart
  unfold layout
  have all := digits d.digits
  generalize Nat.toDigits 10 d.digits = ds at *
  have taken (n : Nat) : c ∉ ds.take n := fun member => all (List.mem_of_mem_take member)
  have dropped (n : Nat) : c ∉ ds.drop n := fun member => all (List.mem_of_mem_drop member)
  simp only
  split
  · split
    · split <;> simp [all, zero, point]
    · split
      · simp [point, taken, dropped]
      · simp [point, zero, all]
  · have sign (leading : Int) :
        c ∉ (if leading < 0 then "-" else if f.exponentPlus then "+" else "").toList := by
      split_ifs <;> simp [minus, plus]
    simp only [String.toList_append, String.toList_ofList, List.mem_append, not_or]
    refine ⟨⟨⟨?_, by simp [e]⟩, sign _⟩, by simpa [digitsText] using digits _⟩
    rcases ds with _ | ⟨digit, _ | ⟨second, rest⟩⟩
    · simp
    · cases f.mantissaPointZero <;> simp_all
    · simp_all

/-- For a finite number a decimal is laid out that reads back to its rank, with its sign before it. -/
theorem exists_write (f : NumberNotation) {negative : Bool} {rank : Fin (infiniteRank + 1)}
    (finite : (Binary64.signed negative rank).isFinite = true) :
    ∃ d : Decimal, d.rank = rank ∧ (d.digits = 0 → d.exponent = 0) ∧
      f.write (.signed negative rank) = if negative then "-" ++ f.layout d else f.layout d := by
  have small : rank.val < infiniteRank := by simpa [Binary64.isFinite, Fin.lt_def] using finite
  unfold write
  simp only [if_neg (Nat.ne_of_lt small)]
  by_cases zero : rank.val = 0
  · rw [if_pos zero, zero]
    exact ⟨⟨0, 0⟩, rfl, fun _ => rfl, rfl⟩
  · rw [if_neg zero]
    have same := rank_shortestDecimal f.tie (Nat.le_of_lt small)
    refine ⟨_, same, fun none => ?_, rfl⟩
    rw [Decimal.rank, if_pos none] at same
    exact absurd same.symm zero

end NumberNotation

end PageHealth
