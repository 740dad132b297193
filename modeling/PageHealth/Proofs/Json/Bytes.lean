import PageHealth.Json.Bytes
import PageHealth.Proofs.Json.Grammar

/-! Bytes that are no text are never a whole document. They are read as a text that ends in a character
which stands for them, and no token that a value is spelt with ends in that character. -/
namespace PageHealth.Json

/-- When a part was read, the character that stands for unreadable bytes is still the last one. -/
def SparesLast (cs rest : List Char) : Prop :=
  cs.getLast? = some '\uFFFD' → rest.getLast? = some '\uFFFD'

namespace SparesLast

variable {cs rest later used : List Char} {c : Char}

theorem refl (cs : List Char) : SparesLast cs cs := id

theorem trans (first : SparesLast cs rest) (second : SparesLast rest later) : SparesLast cs later :=
  second ∘ first

theorem append (apart : '\uFFFD' ∉ used) (rest : List Char) : SparesLast (used ++ rest) rest := by
  intro last
  rw [List.getLast?_append] at last
  cases behind : rest.getLast? with
  | none =>
    rw [behind, Option.none_or] at last
    exact absurd (List.mem_of_getLast? last) apart
  | some c =>
    rw [behind] at last
    exact last

theorem cons (apart : c ≠ '\uFFFD') (rest : List Char) : SparesLast (c :: rest) rest :=
  @append [c] (by simpa using apart.symm) rest

theorem cons_of_ne_nil (c : Char) (more : rest ≠ []) : SparesLast (c :: rest) rest := by
  intro last
  obtain ⟨d, others, rfl⟩ := List.exists_cons_of_ne_nil more
  rw [List.getLast?_cons_cons] at last
  exact last

theorem drop {n : Nat} (apart : '\uFFFD' ∉ cs.take n) : SparesLast cs (cs.drop n) := by
  have spared := append apart (cs.drop n)
  rw [List.take_append_drop] at spared
  exact spared

end SparesLast

section Numbers

variable {cs rest digits : List Char}

theorem sparesLast_takeDigits (cs : List Char) : SparesLast cs (takeDigits cs).2 := by
  have apart : '\uFFFD' ∉ cs.takeWhile isDigit := by
    intro among
    have digit := List.all_eq_true.mp List.all_takeWhile _ among
    exact absurd digit (by decide)
  have spared := SparesLast.append apart (cs.dropWhile isDigit)
  rw [List.takeWhile_append_dropWhile] at spared
  exact spared

theorem sparesLast_someDigits (read : someDigits cs = .ok (digits, rest)) : SparesLast cs rest := by
  have spared := sparesLast_takeDigits cs
  unfold someDigits at read
  split at read
  · cases read
  · cases read
  · rw [Except.ok.inj read] at spared
    exact spared

theorem sparesLast_map_someDigits {β : Type} {part : List Char × List Char → β × List Char}
    {found : β} (read : (someDigits cs).map part = .ok (found, rest))
    (keeps : ∀ run, (part run).2 = run.2) : SparesLast cs rest := by
  cases run : someDigits cs with
  | error fault =>
    rw [run] at read
    cases read
  | ok digits =>
    rw [run] at read
    have same : rest = digits.2 := (congrArg Prod.snd (Except.ok.inj read)).symm.trans (keeps digits)
    rw [same]
    exact sparesLast_someDigits run

theorem sparesLast_wholeDigits (read : wholeDigits cs = .ok (digits, rest)) : SparesLast cs rest := by
  unfold wholeDigits at read
  split at read
  · split at read
    · cases read
    · cases read
      exact .cons (by decide) _
  · exact sparesLast_someDigits read

theorem sparesLast_fractionDigits {fraction : Option (List Char)}
    (read : fractionDigits cs = .ok (fraction, rest)) : SparesLast cs rest := by
  unfold fractionDigits at read
  split at read
  · exact (SparesLast.cons (by decide) _).trans (sparesLast_map_someDigits read fun _ => rfl)
  · cases read
    exact .refl _

theorem sparesLast_exponentPart {exponent : Option Int}
    (read : exponentPart cs = .ok (exponent, rest)) : SparesLast cs rest := by
  unfold exponentPart at read
  split at read
  · cases read
    exact .refl _
  · rename_i c behind
    split at read
    · rename_i letter
      have apart : c ≠ '\uFFFD' := by
        rcases letter with rfl | rfl
        all_goals decide
      refine (SparesLast.cons apart behind).trans ?_
      split at read
      · exact (SparesLast.cons (by decide) _).trans (sparesLast_map_someDigits read fun _ => rfl)
      · exact (SparesLast.cons (by decide) _).trans (sparesLast_map_someDigits read fun _ => rfl)
      · exact sparesLast_map_someDigits read fun _ => rfl
    · cases read
      exact .refl _

theorem sparesLast_readNumber {negative : Bool} {number : Number}
    (read : readNumber negative cs = .ok (number, rest)) : SparesLast cs rest := by
  obtain ⟨_, whole, read⟩ := bind_eq_ok_iff.mp read
  obtain ⟨_, fraction, read⟩ := bind_eq_ok_iff.mp read
  obtain ⟨_, exponent, read⟩ := bind_eq_ok_iff.mp read
  obtain ⟨_, _, same⟩ := bind_eq_ok_iff.mp read
  cases same
  exact (sparesLast_wholeDigits whole).trans
    ((sparesLast_fractionDigits fraction).trans (sparesLast_exponentPart exponent))

end Numbers

section Letters

variable {cs rest content : List Char}

theorem sparesLast_readLetters {letters : List Char} (apart : '\uFFFD' ∉ letters)
    (read : readLetters letters cs = .ok rest) : SparesLast cs rest := by
  fun_induction readLetters letters cs with
  | case1 =>
    cases read
    exact .refl _
  | case2 => cases read
  | case3 letter letters cs ih =>
    rw [List.mem_cons, not_or] at apart
    exact (SparesLast.cons (Ne.symm apart.1) cs).trans (ih apart.2 read)
  | case4 => cases read

theorem sparesLast_hexUnit {unit : Nat} (read : hexUnit cs = .ok unit) :
    SparesLast cs (cs.drop 4) := by
  apply SparesLast.drop
  intro among
  have stuck : hexDigit? '\uFFFD' = none := by decide
  unfold hexUnit at read
  rw [mapM_hexDigit?_eq_none stuck among] at read
  dsimp only at read
  split at read <;> cases read

theorem sparesLast_unicodeEscape {c : Char} {n : Nat} (read : unicodeEscape cs = .ok (c, n)) :
    SparesLast cs (cs.drop n) := by
  obtain ⟨unit, first, read⟩ := bind_eq_ok_iff.mp read
  have high := sparesLast_hexUnit first
  dsimp only at read
  split at read
  · cases read
  split at read
  · cases read
    exact high
  split at read
  · cases read
  · cases read
  · rename_i behind same
    obtain ⟨low, second, read⟩ := bind_eq_ok_iff.mp read
    split at read
    · cases read
    · obtain rfl : 10 = n := (Prod.mk.inj (Except.ok.inj read)).2
      have low := sparesLast_hexUnit second
      have pair : cs.drop 10 = behind.drop 4 := by
        have both := congrArg (List.drop 6) same
        rw [List.drop_drop] at both
        exact both
      rw [same] at high
      rw [pair]
      have letter : SparesLast ('u' :: behind) (behind.drop 4) := (SparesLast.cons (by decide) _).trans low
      exact high.trans ((SparesLast.cons (by decide) _).trans letter)
  · cases read

theorem sparesLast_escape {c : Char} {n : Nat} (read : escape cs = .ok (c, n)) :
    SparesLast cs (cs.drop n) := by
  unfold escape at read
  split at read
  · cases read
  · rename_i behind
    cases spelt : unicodeEscape behind with
    | error fault =>
      rw [spelt] at read
      cases read
    | ok meant =>
      rw [spelt] at read
      cases read
      exact (SparesLast.cons (by decide) behind).trans (sparesLast_unicodeEscape spelt)
  · rename_i letter behind _
    split at read
    · rename_i known
      cases read
      have apart : letter ≠ '\uFFFD' := by
        rintro rfl
        cases known
      exact .cons apart behind
    · cases read

theorem sparesLast_readText {done : List Char} (read : readText done cs = .ok (content, rest)) :
    SparesLast cs rest := by
  fun_induction readText done cs with
  | case1 => cases read
  | case2 done behind =>
    cases read
    exact .cons (by decide) _
  | case3 => cases read
  | case4 done behind c n spelt ih =>
    exact (SparesLast.cons (by decide) _).trans ((sparesLast_escape spelt).trans (ih read))
  | case5 => cases read
  | case6 done c behind _ _ _ ih =>
    have more : behind ≠ [] := by
      rintro rfl
      rw [readText] at read
      cases read
    exact (SparesLast.cons_of_ne_nil c more).trans (ih read)

end Letters

section Tokens

variable {c : Char} {cs rest : List Char}

def Token.Proper : Token → Prop
  | text (.ok _) => True
  | text (.error _) => False
  | word value => value.fault? = none
  | mark c => c ∈ ['[', ']', '\x7b', '\x7d', ',', ':']

instance (token : Token) : Decidable token.Proper :=
  match token with
  | .text (.ok _) => isTrue trivial
  | .text (.error _) => isFalse id
  | .word value => inferInstanceAs (Decidable (value.fault? = none))
  | .mark c => inferInstanceAs (Decidable (c ∈ ['[', ']', '\x7b', '\x7d', ',', ':']))

theorem proper_itemsTokens {items : List Value}
    (proper : ∀ item ∈ items, ∀ token ∈ item.tokens, token.Proper) :
    ∀ token ∈ Value.itemsTokens items, token.Proper := by
  induction items with
  | nil => exact fun token none => absurd none List.not_mem_nil
  | cons item items ih =>
    rw [List.forall_mem_cons] at proper
    cases items with
    | nil => exact proper.1
    | cons next later =>
      have comma : (Token.mark ',').Proper := by decide
      exact List.forall_mem_append.mpr ⟨proper.1, List.forall_mem_cons.mpr ⟨comma, ih proper.2⟩⟩

theorem proper_memberTokens {member : String × Value}
    (proper : ∀ token ∈ member.2.tokens, token.Proper) :
    ∀ token ∈ Value.memberTokens member, token.Proper := by
  have colon : (Token.mark ':').Proper := by decide
  exact List.forall_mem_cons.mpr ⟨trivial, List.forall_mem_cons.mpr ⟨colon, proper⟩⟩

theorem proper_membersTokens {members : List (String × Value)}
    (proper : ∀ member ∈ members, ∀ token ∈ member.2.tokens, token.Proper) :
    ∀ token ∈ Value.membersTokens members, token.Proper := by
  induction members with
  | nil => exact fun token none => absurd none List.not_mem_nil
  | cons member members ih =>
    rw [List.forall_mem_cons] at proper
    cases members with
    | nil => exact proper_memberTokens proper.1
    | cons next later =>
      have comma : (Token.mark ',').Proper := by decide
      exact List.forall_mem_append.mpr
        ⟨proper_memberTokens proper.1, List.forall_mem_cons.mpr ⟨comma, ih proper.2⟩⟩

theorem proper_of_mem_tokens (value : Value) : ∀ token ∈ value.tokens, token.Proper := by
  have enclosed {first last : Char} {inside : List Token} (opens : (Token.mark first).Proper)
      (closes : (Token.mark last).Proper) (proper : ∀ token ∈ inside, token.Proper) :
      ∀ token ∈ .mark first :: (inside ++ [.mark last]), token.Proper :=
    List.forall_mem_cons.mpr
      ⟨opens, List.forall_mem_append.mpr ⟨proper, List.forall_mem_singleton.mpr closes⟩⟩
  induction value with
  | null | bool _ | number _ => exact List.forall_mem_singleton.mpr rfl
  | text s => exact List.forall_mem_singleton.mpr trivial
  | broken fault => exact fun token none => absurd none List.not_mem_nil
  | array items fault ih => exact enclosed (by decide) (by decide) (proper_itemsTokens ih)
  | object members fault ih => exact enclosed (by decide) (by decide) (proper_membersTokens ih)

theorem sparesLast_readToken (proper : (readToken c rest).1.Proper) :
    SparesLast (c :: rest) (readToken c rest).2 := by
  have number {negative : Bool} {cs : List Char} (proper : (numberToken negative cs).1.Proper) :
      SparesLast cs (numberToken negative cs).2 := by
    unfold numberToken at proper ⊢
    split at proper
    · exact sparesLast_readNumber ‹_›
    · cases proper
  have word {value : Value} {letters : List Char} (apart : '\uFFFD' ∉ letters)
      (proper : (readWord value letters rest).1.Proper) :
      SparesLast rest (readWord value letters rest).2 := by
    unfold readWord at proper ⊢
    split at proper
    · exact sparesLast_readLetters apart ‹_›
    · cases proper
  unfold readToken at proper ⊢
  split_ifs at proper ⊢ with quote minus digit n t f
  · subst quote
    refine (SparesLast.cons (by decide) rest).trans ?_
    split at proper
    · exact sparesLast_readText ‹_›
    · exact proper.elim
  · subst minus
    exact (SparesLast.cons (by decide) rest).trans (number proper)
  · exact number proper
  · subst n
    exact (SparesLast.cons (by decide) rest).trans (word (by decide) proper)
  · subst t
    exact (SparesLast.cons (by decide) rest).trans (word (by decide) proper)
  · subst f
    exact (SparesLast.cons (by decide) rest).trans (word (by decide) proper)
  · have improper : ¬ (Token.mark '\uFFFD').Proper := by decide
    have apart : c ≠ '\uFFFD' := by
      rintro rfl
      exact improper proper
    exact .cons apart rest

/-- A text that ends in the character for unreadable bytes has a token that no value is spelt with. -/
theorem improper_of_getLast? (last : cs.getLast? = some '\uFFFD') :
    ∃ token ∈ tokens cs, ¬ token.Proper := by
  fun_induction tokens cs with
  | case1 => cases last
  | case2 c rest space ih =>
    have apart : c ≠ '\uFFFD' := by
      rintro rfl
      exact absurd space (by decide)
    exact ih (SparesLast.cons apart rest last)
  | case3 c rest space _ ih =>
    by_cases proper : (readToken c rest).1.Proper
    · obtain ⟨token, among, improper⟩ := ih (sparesLast_readToken proper last)
      exact ⟨token, List.mem_cons_of_mem _ among, improper⟩
    · exact ⟨_, List.mem_cons_self, proper⟩

end Tokens

section Documents

variable {f : Fault → Fault}

theorem itemsFault?_mapItems {items : List Value}
    (inside : ∀ item ∈ items, (item.mapFault f).fault? = item.fault?.map f) :
    Value.itemsFault? (mapItems f items) = (Value.itemsFault? items).map f := by
  induction items with
  | nil => rfl
  | cons item items ih =>
    rw [List.forall_mem_cons] at inside
    rw [mapItems, Value.itemsFault?, Value.itemsFault?, inside.1, ih inside.2, Option.map_or]

theorem membersFault?_mapMembers {members : List (String × Value)}
    (inside : ∀ member ∈ members, (member.2.mapFault f).fault? = member.2.fault?.map f) :
    Value.membersFault? (mapMembers f members) = (Value.membersFault? members).map f := by
  induction members with
  | nil => rfl
  | cons member members ih =>
    rw [List.forall_mem_cons] at inside
    rw [mapMembers, Value.membersFault?, Value.membersFault?, inside.1, ih inside.2, Option.map_or]

theorem Value.fault?_mapFault (f : Fault → Fault) (value : Value) :
    (value.mapFault f).fault? = value.fault?.map f := by
  induction value with
  | null | bool _ | number _ | text _ | broken _ => rfl
  | array items fault ih => rw [mapFault, fault?, fault?, itemsFault?_mapItems ih, Option.map_or]
  | object members fault ih =>
    rw [mapFault, fault?, fault?, membersFault?_mapMembers ih, Option.map_or]

theorem not_whole_ofBroken (readable : List Char) (rest : List UInt8) :
    ¬ (Document.ofBroken readable rest).Whole := by
  rintro ⟨root, trailing⟩
  have whole : (Document.ofChars (readable ++ ['\uFFFD'])).Whole := by
    constructor
    · rw [Document.ofBroken, Value.fault?_mapFault, Option.map_eq_none_iff] at root
      exact root
    · rw [Document.ofBroken, Option.map_eq_none_iff] at trailing
      exact trailing
  obtain ⟨value, _, spelt⟩ := spelt_of_whole whole
  obtain ⟨token, among, improper⟩ :=
    @improper_of_getLast? (readable ++ ['\uFFFD']) List.getLast?_concat
  exact improper (proper_of_mem_tokens value token (spelt ▸ among))

theorem not_whole_ofBytes {bytes : ByteArray} (unreadable : String.fromUTF8? bytes = none) :
    ¬ (Document.ofBytes bytes).Whole := by
  unfold Document.ofBytes
  rw [unreadable]
  exact not_whole_ofBroken _ _

end Documents

end PageHealth.Json
