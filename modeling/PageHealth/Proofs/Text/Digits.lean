import Mathlib.Algebra.Group.Nat.Defs
import PageHealth.Text

namespace PageHealth

theorem isDigit_eq (c : Char) : isDigit c = c.isDigit := by
  simp [isDigit, Char.isDigit, Char.le_def]

theorem isDigit_of_mem_toDigits {n : Nat} {c : Char} (member : c ∈ Nat.toDigits 10 n) :
    isDigit c = true := by
  rw [isDigit_eq]
  exact Nat.isDigit_of_mem_toDigits (by decide) (by decide) member

theorem notMem_toDigits {c : Char} (other : isDigit c = false) (n : Nat) : c ∉ Nat.toDigits 10 n := by
  intro member
  rw [isDigit_of_mem_toDigits member] at other
  cases other

theorem mapM_hexDigit?_eq_none {c : Char} (other : hexDigit? c = none) {cs : List Char} (among : c ∈ cs) :
    cs.mapM hexDigit? = none := by
  induction cs with
  | nil => cases among
  | cons d cs ih =>
    rw [List.mapM_cons]
    rcases List.mem_cons.mp among with rfl | later
    · rw [other]
      rfl
    · rw [ih later]
      cases hexDigit? d <;> rfl

theorem digitsValue_eq (digits : List Char) : digitsValue digits = Nat.ofDigitChars 10 digits 0 := by
  simp only [digitsValue, Nat.ofDigitChars_eq_foldl, digitValue, Nat.mul_comm]

@[simp] theorem digitsValue_toDigits (n : Nat) : digitsValue (Nat.toDigits 10 n) = n := by
  rw [digitsValue_eq, Nat.ofDigitChars_ten_toDigits]

theorem head?_toDigits_ne {n : Nat} (positive : 0 < n) : (Nat.toDigits 10 n).head? ≠ some '0' := by
  induction n using Nat.strongRecOn with
  | ind n ih =>
    rcases Nat.lt_or_ge n 10 with small | large
    · rw [Nat.toDigits_of_lt_base small]
      have digits : ∀ d < 10, 0 < d → [Nat.digitChar d].head? ≠ some '0' := by decide
      exact digits n small positive
    · obtain ⟨c, rest, first⟩ := List.exists_cons_of_ne_nil (@Nat.toDigits_ne_nil (n / 10) 10)
      have ahead := ih (n / 10) (by omega) (by omega)
      rw [Nat.toDigits_of_base_le (by decide) large, first]
      rwa [first] at ahead

theorem isDigit_of_mem_zeros {n : Nat} : ∀ c ∈ List.replicate n '0', isDigit c = true := by
  intro c member
  rw [List.eq_of_mem_replicate member]
  rfl

theorem digitsValue_append_zeros (digits : List Char) (n : Nat) :
    digitsValue (digits ++ List.replicate n '0') = digitsValue digits * 10 ^ n := by
  rw [digitsValue_eq, digitsValue_eq, Nat.ofDigitChars_append, Nat.ofDigitChars_replicate_zero,
    Nat.mul_comm]

theorem digitsValue_zeros_append (digits : List Char) (n : Nat) :
    digitsValue (List.replicate n '0' ++ digits) = digitsValue digits := by
  rw [digitsValue_eq, digitsValue_eq, Nat.ofDigitChars_append, Nat.ofDigitChars_replicate_zero,
    Nat.mul_zero]

theorem takeDigits_append {digits rest : List Char} (all : ∀ c ∈ digits, isDigit c = true)
    (stop : ∀ c ∈ rest.head?, isDigit c = false) : takeDigits (digits ++ rest) = (digits, rest) := by
  unfold takeDigits
  rw [List.takeWhile_append_of_pos all, List.dropWhile_append_of_pos all]
  cases rest with
  | nil => simp
  | cons c rest => simp [stop c rfl]

end PageHealth
