import PageHealth.Catalog.Places
import PageHealth.Proofs.Text.Digits

namespace PageHealth

variable {rest more : List Char}

theorem toDigits_append_inj {i j : Nat} {c : Char} (stop : isDigit c = false)
    (same : Nat.toDigits 10 i ++ c :: rest = Nat.toDigits 10 j ++ c :: more) :
    i = j ∧ rest = more := by
  have digits (n : Nat) : ∀ d ∈ Nat.toDigits 10 n, isDigit d = true :=
    fun d => isDigit_of_mem_toDigits
  have ends (cs : List Char) : ∀ d ∈ (c :: cs).head?, isDigit d = false := by
    rintro _ ⟨⟩
    exact stop
  have cut := congrArg takeDigits same
  rw [takeDigits_append (digits i) (ends rest), takeDigits_append (digits j) (ends more),
    Prod.mk.injEq, List.cons.injEq] at cut
  refine ⟨?_, cut.2.2⟩
  rw [← digitsValue_toDigits i, cut.1, digitsValue_toDigits]

theorem elementText_append_inj {name : String} {i j : Nat}
    (same : (elementText name i).toList ++ rest = (elementText name j).toList ++ more) :
    i = j ∧ rest = more := by
  simp only [elementText, digitsText, String.toList_append, String.toList_ofList,
    List.append_assoc, List.append_cancel_left_eq] at same
  exact @toDigits_append_inj rest more i j ']' (by decide) same

theorem RulePlace.text_append_inj {p q : RulePlace}
    (same : p.text.toList ++ rest = q.text.toList ++ more) : p = q ∧ rest = more := by
  simp only [text, categoryText, String.toList_append, List.append_assoc] at same
  obtain ⟨category, behind⟩ := elementText_append_inj same
  obtain ⟨rule, onward⟩ := elementText_append_inj (List.append_cancel_left behind)
  cases p
  cases q
  cases category
  cases rule
  exact ⟨rfl, onward⟩

theorem Slot.text_append_inj {p q : Slot} (same : p.text.toList ++ rest = q.text.toList ++ more) :
    p = q ∧ rest = more := by
  cases p <;> cases q
  case check.check i j =>
    obtain ⟨rfl, onward⟩ := elementText_append_inj same
    exact ⟨rfl, onward⟩
  case pass.pass => exact ⟨rfl, List.append_cancel_left same⟩
  case warning.warning => exact ⟨rfl, List.append_cancel_left same⟩
  all_goals simp [text, elementText] at same

theorem ConditionPlace.text_append_inj {p q : ConditionPlace}
    (same : p.text.toList ++ rest = q.text.toList ++ more) : p = q ∧ rest = more := by
  simp only [text, String.toList_append, List.append_assoc] at same
  obtain ⟨rule, behind⟩ := RulePlace.text_append_inj same
  obtain ⟨slot, onward⟩ := Slot.text_append_inj (List.append_cancel_left behind)
  cases p
  cases q
  cases rule
  cases slot
  exact ⟨rfl, onward⟩

theorem ConditionPlace.text_injective : Function.Injective ConditionPlace.text := by
  intro p q same
  have whole : p.text.toList ++ [] = q.text.toList ++ [] := by rw [same]
  exact (text_append_inj whole).1

end PageHealth
