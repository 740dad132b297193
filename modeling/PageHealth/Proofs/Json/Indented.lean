import PageHealth.Proofs.Json.Document

namespace PageHealth.Json

open Value (ItemsReadable MembersReadable itemsTokens membersTokens newLine indentedItems
  indentedMembers)

section Blanks

variable {rest : List Char}

theorem tokens_space {c : Char} (space : isSpace c = true) : tokens (c :: rest) = tokens rest := by
  rw [tokens, if_pos space]

theorem tokens_newLine (depth : Nat) :
    tokens ((newLine depth).toList ++ rest) = tokens rest := by
  have blanks (n : Nat) : tokens (List.replicate n ' ' ++ rest) = tokens rest := by
    induction n with
    | zero => rfl
    | succ n ih => exact (tokens_space rfl).trans ih
  rw [newLine, String.toList_ofList]
  exact (tokens_space rfl).trans (blanks _)

theorem endsNumber_newLine (depth : Nat) : EndsNumber ((newLine depth).toList ++ rest) := by
  rw [newLine, String.toList_ofList]
  rintro _ ⟨⟩
  decide

theorem endsNumber_indentedItems (depth : Nat) (items : List Value) (ends : EndsNumber rest) :
    EndsNumber ((indentedItems depth items).toList ++ rest) := by
  cases items with
  | nil => exact ends
  | cons item later =>
    have comma := @endsNumber_mark ',' (by decide)
    simpa [indentedItems] using comma _

theorem endsNumber_indentedMembers (depth : Nat) (members : List (String × Value))
    (ends : EndsNumber rest) : EndsNumber ((indentedMembers depth members).toList ++ rest) := by
  cases members with
  | nil => exact ends
  | cons member later =>
    have comma := @endsNumber_mark ',' (by decide)
    simpa [indentedMembers] using comma _

end Blanks

section Lists

theorem itemsTokens_cons (item : Value) (items : List Value) :
    itemsTokens (item :: items) =
      item.tokens ++ items.flatMap fun later => .mark ',' :: later.tokens := by
  induction items generalizing item with
  | nil => simp [itemsTokens]
  | cons next later ih => rw [itemsTokens, ih, List.flatMap_cons, List.cons_append]; simp

theorem membersTokens_cons (key : String) (value : Value) (members : List (String × Value)) :
    membersTokens ((key, value) :: members) = .text (.ok key) :: .mark ':' :: (value.tokens ++
      members.flatMap fun later => .mark ',' :: .text (.ok later.1) :: .mark ':' :: later.2.tokens) := by
  induction members generalizing key value with
  | nil => simp [membersTokens]
  | cons next later ih =>
    obtain ⟨name, inside⟩ := next
    rw [membersTokens, ih, List.flatMap_cons]
    · simp
    · exact List.cons_ne_nil _ _

end Lists

mutual

theorem tokens_indented (value : Value) {room depth : Nat} {rest : List Char}
    (readable : value.Readable room) (ends : EndsNumber rest) :
    tokens ((value.indented depth).toList ++ rest) = value.tokens ++ tokens rest := by
  match value with
  -- What has no parts is written as it is on one line.
  | .null => exact tokens_compact .null readable ends
  | .bool true => exact tokens_compact (.bool true) readable ends
  | .bool false => exact tokens_compact (.bool false) readable ends
  | .number n => exact tokens_compact (.number n) readable ends
  | .text s => exact tokens_compact (.text s) readable ends
  | .array [] fault => exact tokens_compact (.array [] fault) readable ends
  | .object [] fault => exact tokens_compact (.object [] fault) readable ends
  | .array (item :: items) fault =>
    obtain ⟨first, others⟩ := readable.2.2
    have behind := @tokens_indentedItems items _ (depth + 1) _ others
      (@endsNumber_newLine (']' :: rest) depth)
    have written : (Value.array (item :: items) fault |>.indented depth).toList ++ rest =
        '[' :: ((newLine (depth + 1)).toList ++ ((item.indented (depth + 1)).toList ++
          ((indentedItems (depth + 1) items).toList ++ ((newLine depth).toList ++ ']' :: rest)))) := by
      simp [Value.indented]
    rw [written, tokens_mark (by decide), tokens_newLine,
      tokens_indented item first (endsNumber_indentedItems _ _ (endsNumber_newLine depth)), behind,
      tokens_newLine, tokens_mark (by decide), Value.tokens, itemsTokens_cons]
    simp
  | .object ((key, inside) :: members) fault =>
    obtain ⟨first, others⟩ := readable.2.2
    have behind := @tokens_indentedMembers members _ (depth + 1) _ others
      (@endsNumber_newLine ('\x7d' :: rest) depth)
    have written : (Value.object ((key, inside) :: members) fault |>.indented depth).toList ++ rest =
        '\x7b' :: ((newLine (depth + 1)).toList ++ ((writeText key).toList ++ ':' :: ' ' ::
          ((inside.indented (depth + 1)).toList ++ ((indentedMembers (depth + 1) members).toList ++
            ((newLine depth).toList ++ '\x7d' :: rest))))) := by
      simp [Value.indented]
    rw [written, tokens_mark (by decide), tokens_newLine, tokens_text, tokens_mark (by decide),
      tokens_space rfl,
      tokens_indented inside first (endsNumber_indentedMembers _ _ (endsNumber_newLine depth)), behind,
      tokens_newLine, tokens_mark (by decide), Value.tokens, membersTokens_cons]
    simp

theorem tokens_indentedItems (items : List Value) {room depth : Nat} {rest : List Char}
    (readable : ItemsReadable room items) (ends : EndsNumber rest) :
    tokens ((indentedItems depth items).toList ++ rest) =
      (items.flatMap fun item => .mark ',' :: item.tokens) ++ tokens rest := by
  match items with
  | [] => rfl
  | item :: later =>
    have written : (indentedItems depth (item :: later)).toList ++ rest =
        ',' :: ((newLine depth).toList ++
          ((item.indented depth).toList ++ ((indentedItems depth later).toList ++ rest))) := by
      simp [indentedItems]
    rw [written, tokens_mark (by decide), tokens_newLine,
      tokens_indented item readable.1 (endsNumber_indentedItems _ _ ends),
      tokens_indentedItems later readable.2 ends]
    simp

theorem tokens_indentedMembers (members : List (String × Value)) {room depth : Nat} {rest : List Char}
    (readable : MembersReadable room members) (ends : EndsNumber rest) :
    tokens ((indentedMembers depth members).toList ++ rest) =
      (members.flatMap fun member =>
        .mark ',' :: .text (.ok member.1) :: .mark ':' :: member.2.tokens) ++ tokens rest := by
  match members with
  | [] => rfl
  | (key, value) :: later =>
    have written : (indentedMembers depth ((key, value) :: later)).toList ++ rest =
        ',' :: ((newLine depth).toList ++ ((writeText key).toList ++ ':' :: ' ' ::
          ((value.indented depth).toList ++ ((indentedMembers depth later).toList ++ rest)))) := by
      simp [indentedMembers]
    rw [written, tokens_mark (by decide), tokens_newLine, tokens_text, tokens_mark (by decide),
      tokens_space rfl, tokens_indented value readable.1 (endsNumber_indentedMembers _ _ ends),
      tokens_indentedMembers later readable.2 ends]
    simp

end

theorem ofText_pretty {value : Value} (readable : value.Readable depthLimit) :
    Document.ofText value.pretty = ⟨value, none⟩ := by
  have spelt := @tokens_indented value depthLimit 0 [] readable (by rintro _ ⟨⟩)
  rw [tokens, List.append_nil, List.append_nil] at spelt
  exact ofText_of_tokens readable spelt

end PageHealth.Json
