import PageHealth.Json.Reader
import PageHealth.Proofs.Json.Numbers
import PageHealth.Proofs.Json.Texts

/-! A value is read back as it was written. In between lie its tokens: they are what is written for it,
whatever the spacing, and the reader makes the value of them with the containers around it in place. -/
namespace PageHealth.Json

namespace Value

mutual

def tokens : Value → List Token
  | null => [.word .null]
  | bool b => [.word (.bool b)]
  | number n => [.word (.number n)]
  | text s => [.text (.ok s)]
  | array items _ => .mark '[' :: (itemsTokens items ++ [.mark ']'])
  | object members _ => .mark '\x7b' :: (membersTokens members ++ [.mark '\x7d'])
  | broken _ => []

def itemsTokens : List Value → List Token
  | [] => []
  | [item] => item.tokens
  | item :: rest => item.tokens ++ .mark ',' :: itemsTokens rest

def membersTokens : List (String × Value) → List Token
  | [] => []
  | [(key, value)] => .text (.ok key) :: .mark ':' :: value.tokens
  | (key, value) :: rest =>
    .text (.ok key) :: .mark ':' :: (value.tokens ++ .mark ',' :: membersTokens rest)

end

mutual

/-- Whether a value is read back as it is: it is whole, its numbers are readable, and there is room for
its nesting. -/
def Readable (room : Nat) : Value → Prop
  | null => True
  | bool _ => True
  | number n => n.isReadable = true
  | text _ => True
  | array items fault => fault = none ∧ 0 < room ∧ ItemsReadable (room - 1) items
  | object members fault => fault = none ∧ 0 < room ∧ MembersReadable (room - 1) members
  | broken _ => False

def ItemsReadable (room : Nat) : List Value → Prop
  | [] => True
  | item :: rest => item.Readable room ∧ ItemsReadable room rest

def MembersReadable (room : Nat) : List (String × Value) → Prop
  | [] => True
  | (_, value) :: rest => value.Readable room ∧ MembersReadable room rest

end

end Value

section Writing

open Value (ItemsReadable MembersReadable itemsTokens membersTokens compactItems compactMembers)

theorem endsNumber_mark {c : Char} (mark : c ∈ [',', ']', '\x7d']) (rest : List Char) :
    EndsNumber (c :: rest) := by
  simp only [List.mem_cons, List.not_mem_nil, or_false] at mark
  rintro _ ⟨⟩
  rcases mark with rfl | rfl | rfl
  all_goals decide

theorem tokens_mark {c : Char} (mark : c ∈ ['[', ']', '\x7b', '\x7d', ',', ':']) (rest : List Char) :
    tokens (c :: rest) = .mark c :: tokens rest := by
  simp only [List.mem_cons, List.not_mem_nil, or_false] at mark
  rcases mark with rfl | rfl | rfl | rfl | rfl | rfl
  all_goals exact tokens_cons rfl rfl

mutual

theorem tokens_compact (value : Value) {room : Nat} {rest : List Char}
    (readable : value.Readable room) (ends : EndsNumber rest) :
    tokens (value.compact.toList ++ rest) = value.tokens ++ tokens rest := by
  match value with
  | .null => exact tokens_cons rfl rfl
  | .bool true => exact tokens_cons rfl rfl
  | .bool false => exact tokens_cons rfl rfl
  | .number n => exact tokens_number readable ends
  | .text s => exact tokens_text s rest
  | .array items fault =>
    have inside := tokens_compactItems items readable.2.2 (endsNumber_mark (c := ']') (by decide) rest)
    have written : (Value.array items fault).compact.toList ++ rest =
        '[' :: ((compactItems items).toList ++ ']' :: rest) := by
      simp [Value.compact]
    rw [written, tokens_mark (by decide), inside, tokens_mark (by decide)]
    simp [Value.tokens]
  | .object members fault =>
    have inside := tokens_compactMembers members readable.2.2
      (endsNumber_mark (c := '\x7d') (by decide) rest)
    have written : (Value.object members fault).compact.toList ++ rest =
        '\x7b' :: ((compactMembers members).toList ++ '\x7d' :: rest) := by
      simp [Value.compact]
    rw [written, tokens_mark (by decide), inside, tokens_mark (by decide)]
    simp [Value.tokens]

theorem tokens_compactItems (items : List Value) {room : Nat} {rest : List Char}
    (readable : ItemsReadable room items) (ends : EndsNumber rest) :
    tokens ((compactItems items).toList ++ rest) = itemsTokens items ++ tokens rest := by
  match items with
  | [] => rfl
  | [item] =>
    rw [compactItems, itemsTokens]
    exact tokens_compact item readable.1 ends
  | item :: next :: later =>
    have others := tokens_compactItems (next :: later) readable.2 ends
    have first := tokens_compact item readable.1
      (endsNumber_mark (c := ',') (by decide) ((compactItems (next :: later)).toList ++ rest))
    have written : (compactItems (item :: next :: later)).toList ++ rest =
        item.compact.toList ++ ',' :: ((compactItems (next :: later)).toList ++ rest) := by
      simp [compactItems]
    rw [written, first, tokens_mark (by decide), others]
    simp [itemsTokens]

theorem tokens_compactMembers (members : List (String × Value)) {room : Nat} {rest : List Char}
    (readable : MembersReadable room members) (ends : EndsNumber rest) :
    tokens ((compactMembers members).toList ++ rest) = membersTokens members ++ tokens rest := by
  match members with
  | [] => rfl
  | [(key, value)] =>
    have written : (compactMembers [(key, value)]).toList ++ rest =
        (writeText key).toList ++ ':' :: (value.compact.toList ++ rest) := by
      simp [compactMembers]
    rw [written, tokens_text, tokens_mark (by decide), tokens_compact value readable.1 ends]
    simp [membersTokens]
  | (key, value) :: next :: later =>
    have others := tokens_compactMembers (next :: later) readable.2 ends
    have first := tokens_compact value readable.1
      (endsNumber_mark (c := ',') (by decide) ((compactMembers (next :: later)).toList ++ rest))
    have written : (compactMembers ((key, value) :: next :: later)).toList ++ rest =
        (writeText key).toList ++ ':' ::
          (value.compact.toList ++ ',' :: ((compactMembers (next :: later)).toList ++ rest)) := by
      simp [compactMembers]
    rw [written, tokens_text, tokens_mark (by decide), first, tokens_mark (by decide), others]
    simp [membersTokens]

end

end Writing

section Reading

open Value (ItemsReadable MembersReadable itemsTokens membersTokens)

def Expecting.AwaitsValue (expecting : Expecting) : Prop := expecting = .value ∨ expecting = .firstItem

def Expecting.AwaitsKey (expecting : Expecting) : Prop := expecting = .key ∨ expecting = .firstKey

variable {expecting next : Expecting} {stack stack' : List Frame} {token : Token} {rest : List Token}

theorem run_cons (goes : step expecting stack token = .ok (next, stack')) :
    run expecting stack (token :: rest) = run next stack' rest := by
  rw [run, goes]

theorem step_value (awaits : expecting.AwaitsValue) (apart : token ≠ .mark ']') :
    step expecting stack token = startValue stack token := by
  rcases awaits with rfl | rfl
  · unfold step
    split
    all_goals first
      | rfl
      | simp_all
  · unfold step
    split
    all_goals first
      | rfl
      | simp_all

theorem step_key (awaits : expecting.AwaitsKey) (key : String) :
    step expecting stack (.text (.ok key)) = .ok (.colon key, stack) := by
  rcases awaits with rfl | rfl
  · rfl
  · cases stack <;> rfl

theorem run_open {frame : Frame} (awaits : expecting.AwaitsValue) (apart : token ≠ .mark ']')
    (starts : startValue stack token = opened frame next stack) (room : stack.length < depthLimit) :
    run expecting stack (token :: rest) = run next (frame :: stack) rest := by
  apply run_cons
  rw [step_value awaits apart, starts, opened, if_pos room]

mutual

/-- The tokens of a value bring it to the place where a value is awaited. -/
theorem run_value (value : Value) {room : Nat} (readable : value.Readable room)
    {expecting : Expecting} (awaits : expecting.AwaitsValue) (stack : List Frame)
    (fits : stack.length + room ≤ depthLimit) (rest : List Token) :
    run expecting stack (value.tokens ++ rest) =
      run (placed value stack).1 (placed value stack).2 rest := by
  match value with
  | .null => exact run_cons (step_value awaits (by simp))
  | .bool b => exact run_cons (step_value awaits (by simp))
  | .number n => exact run_cons (step_value awaits (by simp))
  | .text s => exact run_cons (step_value awaits (by simp))
  | .array [] fault =>
    obtain rfl : fault = none := readable.1
    have room : stack.length < depthLimit := by have := readable.2.1; omega
    exact (run_open awaits (by simp) rfl room).trans (run_cons rfl)
  | .array (item :: items) fault =>
    obtain rfl : fault = none := readable.1
    have room : stack.length < depthLimit := by have := readable.2.1; omega
    have inside := run_items (item :: items) readable.2.2 (List.cons_ne_nil _ _) (.inr rfl) []
      stack (by have := readable.2.1; omega) rest
    rw [Value.tokens, List.cons_append, List.append_assoc]
    exact (run_open awaits (by simp) rfl room).trans inside
  | .object [] fault =>
    obtain rfl : fault = none := readable.1
    have room : stack.length < depthLimit := by have := readable.2.1; omega
    exact (run_open awaits (by simp) rfl room).trans (run_cons rfl)
  | .object (member :: members) fault =>
    obtain rfl : fault = none := readable.1
    have room : stack.length < depthLimit := by have := readable.2.1; omega
    have inside := run_members (member :: members) readable.2.2 (List.cons_ne_nil _ _) (.inr rfl) []
      stack (by have := readable.2.1; omega) rest
    rw [Value.tokens, List.cons_append, List.append_assoc]
    exact (run_open awaits (by simp) rfl room).trans inside

theorem run_items (items : List Value) {room : Nat} (readable : ItemsReadable room items)
    (nonempty : items ≠ []) {expecting : Expecting} (awaits : expecting.AwaitsValue)
    (before : List Value) (stack : List Frame)
    (fits : stack.length + 1 + room ≤ depthLimit) (rest : List Token) :
    run expecting (.array before :: stack) (itemsTokens items ++ .mark ']' :: rest) =
      run (placed (.array (before.reverse ++ items) none) stack).1
        (placed (.array (before.reverse ++ items) none) stack).2 rest := by
  match items with
  | [item] =>
    have first := run_value item readable.1 awaits (.array before :: stack) fits
      (.mark ']' :: rest)
    rw [itemsTokens, first, ← List.reverse_cons]
    exact run_cons rfl
  | item :: next :: later =>
    have first := run_value item readable.1 awaits (.array before :: stack) fits
      (.mark ',' :: (itemsTokens (next :: later) ++ .mark ']' :: rest))
    have others := run_items (next :: later) readable.2 (List.cons_ne_nil _ _) (.inl rfl)
      (item :: before) stack fits rest
    rw [List.reverse_cons, List.append_assoc] at others
    rw [itemsTokens, List.append_assoc, List.cons_append, first]
    · exact (run_cons rfl).trans others
    · exact List.cons_ne_nil _ _

theorem run_members (members : List (String × Value)) {room : Nat}
    (readable : MembersReadable room members) (nonempty : members ≠ []) {expecting : Expecting}
    (awaits : expecting.AwaitsKey) (before : List (String × Value)) (stack : List Frame)
    (fits : stack.length + 1 + room ≤ depthLimit) (rest : List Token) :
    run expecting (.object before :: stack) (membersTokens members ++ .mark '\x7d' :: rest) =
      run (placed (.object (before.reverse ++ members) none) stack).1
        (placed (.object (before.reverse ++ members) none) stack).2 rest := by
  match members with
  | [(key, value)] =>
    have first := run_value value readable.1 (.inl rfl) (.member before key :: stack) fits
      (.mark '\x7d' :: rest)
    rw [membersTokens, ← List.reverse_cons]
    exact (run_cons (step_key awaits key)).trans
      ((run_cons rfl).trans (first.trans (run_cons rfl)))
  | (key, value) :: next :: later =>
    have first := run_value value readable.1 (.inl rfl) (.member before key :: stack) fits
      (.mark ',' :: (membersTokens (next :: later) ++ .mark '\x7d' :: rest))
    have others := run_members (next :: later) readable.2 (List.cons_ne_nil _ _) (.inl rfl)
      ((key, value) :: before) stack fits rest
    rw [List.reverse_cons, List.append_assoc] at others
    have whole : membersTokens ((key, value) :: next :: later) ++ .mark '\x7d' :: rest =
        .text (.ok key) :: .mark ':' ::
          (value.tokens ++ .mark ',' :: (membersTokens (next :: later) ++ .mark '\x7d' :: rest)) := by
      simp [membersTokens]
    rw [whole]
    exact (run_cons (step_key awaits key)).trans
      ((run_cons rfl).trans (first.trans ((run_cons rfl).trans others)))

end

end Reading

theorem ofText_of_tokens {value : Value} {text : String} (readable : value.Readable depthLimit)
    (spelt : tokens text.toList = value.tokens) : Document.ofText text = ⟨value, none⟩ := by
  have read := run_value value readable (.inl rfl) [] (by simp) []
  rw [List.append_nil] at read
  unfold Document.ofText Document.ofChars
  rw [spelt, read]
  rfl

theorem ofText_compact {value : Value} (readable : value.Readable depthLimit) :
    Document.ofText value.compact = ⟨value, none⟩ := by
  have spelt := @tokens_compact value depthLimit [] readable (by rintro _ ⟨⟩)
  rw [tokens, List.append_nil, List.append_nil] at spelt
  exact ofText_of_tokens readable spelt

end PageHealth.Json
