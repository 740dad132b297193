import PageHealth.Json.Reader
import PageHealth.Json.Typed
import PageHealth.Proofs.Catalog.Finite
import PageHealth.Proofs.Json.Numbers
import PageHealth.Proofs.Number.Order

namespace PageHealth.Json

section Numbers

theorem isFinite_ofInt {n : Int} (small : n.natAbs ≤ 2 ^ 64) : (Binary64.ofInt n).isFinite = true := by
  have magnitude : (Binary64.ofInt n).isFinite = (Binary64.ofNat n.natAbs).isFinite := rfl
  have limit : (Binary64.ofNat (2 ^ 64)).isFinite = true := by decide +kernel
  rw [magnitude]
  exact Binary64.isFinite_of_le (Binary64.ofNat_nonneg _) (Binary64.ofNat_le_ofNat small) limit

theorem Number.isFinite_toBinary64 {number : Number} (readable : number.isReadable = true) :
    number.toBinary64.isFinite = true := by
  cases number with
  | double x => exact readable
  | integer n =>
    simp only [isReadable, Bool.and_eq_true, decide_eq_true_eq] at readable
    apply isFinite_ofInt
    omega

theorem isReadable_of_wholeNumber? {negative : Bool} {n : Nat} {number : Number}
    (fits : wholeNumber? negative n = some number) : number.isReadable = true := by
  unfold wholeNumber? at fits
  split at fits
  · split at fits
    · cases fits
      simp only [Number.isReadable, Bool.and_eq_true, decide_eq_true_eq]
      omega
    · cases fits
  · split at fits
    · cases fits
      simp only [Number.isReadable, Bool.and_eq_true, decide_eq_true_eq]
      omega
    · cases fits

theorem isReadable_decimal {decimal : Decimal} {negative : Bool}
    (bounded : decimal.rank ≠ infiniteRank) :
    (Number.double (decimal.toBinary64 negative)).isReadable = true := by
  have least := decimal.rank_le
  exact decide_eq_true (Nat.lt_of_le_of_ne least bounded)

theorem isReadable_of_numberOf {negative : Bool} {whole : List Char} {fraction : Option (List Char)}
    {exponent : Option Int} {number : Number}
    (read : numberOf negative whole fraction exponent = .ok number) : number.isReadable = true := by
  unfold numberOf at read
  by_cases plain : fraction.isNone ∧ exponent.isNone
  · rw [if_pos plain] at read
    cases fits : wholeNumber? negative (digitsValue whole) with
    | some n =>
      rw [fits] at read
      cases read
      exact isReadable_of_wholeNumber? fits
    | none =>
      rw [fits] at read
      dsimp only at read
      split at read
      · cases read
      · cases read
        exact isReadable_decimal ‹_›
  · rw [if_neg plain] at read
    dsimp only at read
    split at read
    · cases read
    · cases read
      exact isReadable_decimal ‹_›

theorem isReadable_of_readNumber {negative : Bool} {cs rest : List Char} {number : Number}
    (read : readNumber negative cs = .ok (number, rest)) : number.isReadable = true := by
  obtain ⟨_, _, read⟩ := bind_eq_ok_iff.mp read
  obtain ⟨_, _, read⟩ := bind_eq_ok_iff.mp read
  obtain ⟨_, _, read⟩ := bind_eq_ok_iff.mp read
  obtain ⟨_, value, ⟨⟩⟩ := bind_eq_ok_iff.mp read
  exact isReadable_of_numberOf value

end Numbers

mutual

def Value.Numeric : Value → Prop
  | .number n => n.isReadable = true
  | .array items _ => Value.ItemsNumeric items
  | .object members _ => Value.MembersNumeric members
  | _ => True

def Value.ItemsNumeric : List Value → Prop
  | [] => True
  | item :: rest => item.Numeric ∧ Value.ItemsNumeric rest

def Value.MembersNumeric : List (String × Value) → Prop
  | [] => True
  | (_, value) :: rest => value.Numeric ∧ Value.MembersNumeric rest

end

section Values

theorem Value.itemsNumeric_iff {items : List Value} :
    ItemsNumeric items ↔ ∀ item ∈ items, item.Numeric := by
  induction items with
  | nil => simp [ItemsNumeric]
  | cons item items ih => simp [ItemsNumeric, ih]

theorem Value.membersNumeric_iff {members : List (String × Value)} :
    MembersNumeric members ↔ ∀ member ∈ members, member.2.Numeric := by
  induction members with
  | nil => simp [MembersNumeric]
  | cons member members ih => simp [MembersNumeric, ih]

end Values

section Tokens

inductive Value.IsWord : Value → Prop where
  | null : IsWord .null
  | bool (b : Bool) : IsWord (.bool b)
  | number {n : Number} (readable : n.isReadable = true) : IsWord (.number n)
  | broken (fault : Fault) : IsWord (.broken fault)

def Token.Sound : Token → Prop
  | word value => value.IsWord
  | _ => True

theorem sound_readToken (c : Char) (rest : List Char) : (readToken c rest).1.Sound := by
  have number (negative : Bool) (cs : List Char) : (numberToken negative cs).1.Sound := by
    unfold numberToken
    split
    · exact .number (isReadable_of_readNumber ‹_›)
    · exact .broken _
  have word (value : Value) (letters : List Char) (known : value.IsWord) :
      (readWord value letters rest).1.Sound := by
    unfold readWord
    split
    · exact known
    · exact .broken _
  unfold readToken
  split
  · split <;> trivial
  split
  · exact number true rest
  split
  · exact number false (c :: rest)
  split
  · exact word _ _ .null
  split
  · exact word _ _ (.bool true)
  split
  · exact word _ _ (.bool false)
  · trivial

theorem sound_tokens (cs : List Char) : ∀ token ∈ tokens cs, token.Sound := by
  fun_induction tokens cs with
  | case1 => simp
  | case2 c rest space ih => exact ih
  | case3 c rest space _ ih => exact List.forall_mem_cons.mpr ⟨sound_readToken c rest, ih⟩

theorem Value.IsWord.numeric {value : Value} (known : value.IsWord) : value.Numeric := by
  cases known with
  | number readable => exact readable
  | _ => trivial

end Tokens

section States

def Frame.Numeric : Frame → Prop
  | array items => Value.ItemsNumeric items
  | object members => Value.MembersNumeric members
  | member members _ => Value.MembersNumeric members

structure NumericState (expecting : Expecting) (stack : List Frame) : Prop where
  root : ∀ root, expecting = .nothing root → root.Numeric
  stack : ∀ frame ∈ stack, frame.Numeric

variable {value : Value} {frame : Frame} {stack : List Frame} {expecting : Expecting} {token : Token}

theorem Frame.numeric_add (within : frame.Numeric) (numeric : value.Numeric) :
    (frame.add value).Numeric := by
  cases frame with
  | array items => exact ⟨numeric, within⟩
  | object members => exact within
  | member members key => exact ⟨numeric, within⟩

theorem Frame.numeric_close (within : frame.Numeric) (fault : Option Fault) :
    (frame.close fault).Numeric := by
  have members {members : List (String × Value)} (within : Value.MembersNumeric members) :
      Value.MembersNumeric members.reverse := by
    rw [Value.membersNumeric_iff] at within ⊢
    exact fun member listed => within member (List.mem_reverse.mp listed)
  cases frame with
  | array items =>
    refine Value.itemsNumeric_iff.mpr fun item listed => ?_
    exact Value.itemsNumeric_iff.mp within item (List.mem_reverse.mp listed)
  | object read => exact members within
  | member read key => exact members within

theorem numeric_abandon (numeric : value.Numeric) (containers : ∀ frame ∈ stack, frame.Numeric) :
    (abandon value stack).root.Numeric := by
  unfold abandon
  induction stack generalizing value with
  | nil => exact numeric
  | cons frame stack ih =>
    rw [List.forall_mem_cons] at containers
    exact ih (Frame.numeric_close (Frame.numeric_add containers.1 numeric) none) containers.2

theorem numeric_abandonInside {fault : Fault} (containers : ∀ frame ∈ stack, frame.Numeric) :
    (abandonInside fault stack).root.Numeric := by
  cases stack with
  | nil => trivial
  | cons frame stack =>
    rw [List.forall_mem_cons] at containers
    exact numeric_abandon (Frame.numeric_close containers.1 _) containers.2

theorem numeric_placed (numeric : value.Numeric) (containers : ∀ frame ∈ stack, frame.Numeric) :
    NumericState (placed value stack).1 (placed value stack).2 := by
  cases stack with
  | nil =>
    constructor
    · rintro _ ⟨⟩
      exact numeric
    · exact containers
  | cons frame stack =>
    rw [List.forall_mem_cons] at containers
    constructor
    · rintro _ ⟨⟩
    · exact List.forall_mem_cons.mpr ⟨Frame.numeric_add containers.1 numeric, containers.2⟩

def NumericOutcome : Except Document (Expecting × List Frame) → Prop
  | .ok (expecting, stack) => NumericState expecting stack
  | .error document => document.root.Numeric

theorem numeric_opened {next : Expecting} (empty : frame.Numeric) (later : ∀ root, next ≠ .nothing root)
    (containers : ∀ frame ∈ stack, frame.Numeric) : NumericOutcome (opened frame next stack) := by
  unfold opened
  split
  · constructor
    · exact fun root same => absurd same (later root)
    · exact List.forall_mem_cons.mpr ⟨empty, containers⟩
  · exact numeric_abandon trivial containers

theorem numeric_startValue (sound : token.Sound) (containers : ∀ frame ∈ stack, frame.Numeric) :
    NumericOutcome (startValue stack token) := by
  unfold startValue
  split
  · exact numeric_placed trivial containers
  · exact numeric_abandon trivial containers
  · exact numeric_abandon trivial containers
  · exact numeric_placed sound.numeric containers
  · exact numeric_opened trivial (by rintro _ ⟨⟩) containers
  · exact numeric_opened trivial (by rintro _ ⟨⟩) containers
  · exact numeric_abandon trivial containers

theorem numeric_closed (containers : ∀ inner ∈ frame :: stack, inner.Numeric) :
    NumericState (placed (frame.close none) stack).1 (placed (frame.close none) stack).2 := by
  rw [List.forall_mem_cons] at containers
  exact numeric_placed (Frame.numeric_close containers.1 none) containers.2

theorem numeric_step (state : NumericState expecting stack) (sound : token.Sound) :
    NumericOutcome (step expecting stack token) := by
  have containers := state.stack
  have moved {next : Expecting} (later : ∀ root, next ≠ .nothing root) : NumericState next stack :=
    ⟨fun root same => absurd same (later root), containers⟩
  unfold step
  split
  -- a value starts
  case h_2 | h_4 => exact numeric_startValue sound containers
  -- a container ends
  case h_3 | h_5 | h_16 | h_19 => exact numeric_closed containers
  -- the containers stay as they are
  case h_7 | h_8 | h_15 | h_18 => exact moved (by rintro _ ⟨⟩)
  -- a key is followed by its value
  case h_13 =>
    rw [List.forall_mem_cons] at containers
    constructor
    · rintro _ ⟨⟩
    · exact List.forall_mem_cons.mpr containers
  case h_14 =>
    rw [List.forall_mem_cons] at containers
    exact numeric_abandon trivial (List.forall_mem_cons.mpr containers)
  -- the document is over
  case h_21 => exact state.root _ rfl
  -- the text breaks off
  all_goals exact numeric_abandonInside containers

theorem numeric_finish (state : NumericState expecting stack) :
    (finish expecting stack).root.Numeric := by
  have containers := state.stack
  unfold finish
  split
  · exact state.root _ rfl
  · exact numeric_abandon trivial containers
  · rw [List.forall_mem_cons] at containers
    exact numeric_abandon trivial (List.forall_mem_cons.mpr containers)
  · exact numeric_abandonInside containers

theorem numeric_run {tokens : List Token} (sound : ∀ token ∈ tokens, token.Sound)
    (state : NumericState expecting stack) : (run expecting stack tokens).root.Numeric := by
  induction tokens generalizing expecting stack with
  | nil => exact numeric_finish state
  | cons token rest ih =>
    rw [List.forall_mem_cons] at sound
    have one := numeric_step state sound.1
    rw [run]
    cases goes : step expecting stack token with
    | error document =>
      rw [goes] at one
      exact one
    | ok outcome =>
      rw [goes] at one
      exact ih sound.2 one

end States

theorem numeric_ofText (text : String) : (Document.ofText text).root.Numeric := by
  have start : NumericState .value [] := ⟨by rintro _ ⟨⟩, by simp⟩
  exact numeric_run (sound_tokens text.toList) start

section Typed

theorem isFinite_of_doubleOf {value : Value} {x : Binary64} (numeric : value.Numeric)
    (read : doubleOf value = .ok x) : x.isFinite = true := by
  cases value with
  | number n =>
    cases read
    exact Number.isFinite_toBinary64 numeric
  | _ => cases read

theorem isFinite_of_expectedOf {value : Value} {expected : Expected Binary64}
    (numeric : value.Numeric) (read : expectedOf value = .ok expected) :
    expected.isFinite = true := by
  unfold expectedOf at read
  split at read
  · cases read
  split at read
  · cases read
    rfl
  · cases read
    exact Number.isFinite_toBinary64 numeric
  · cases read
    rfl
  · cases read
    obtain ⟨least, greatest, _⟩ := numeric
    exact Bool.and_eq_true_iff.mpr
      ⟨Number.isFinite_toBinary64 least, Number.isFinite_toBinary64 greatest⟩
  · cases read

theorem numeric_of_itemsOf {value : Value} {found : Items Value ReadError} (numeric : value.Numeric)
    (read : itemsOf value = .ok found) : ∀ item ∈ found.items, item.Numeric := by
  cases value with
  | array items fault =>
    cases read
    exact Value.itemsNumeric_iff.mp numeric
  | _ => cases read

theorem numeric_of_recordOf {source : Source} {name : String} {fields : List String} {value : Value}
    {record : Record Value ReadError} (numeric : value.Numeric)
    (read : recordOf source name fields value = .ok record) :
    ∀ member ∈ record.members, member.2.Numeric := by
  cases value with
  | array items fault =>
    cases read
    intro member listed
    exact Value.itemsNumeric_iff.mp numeric member.2 (List.of_mem_zip listed).2
  | object members fault =>
    cases read
    exact Value.membersNumeric_iff.mp numeric
  | _ => cases read

theorem dialect_finiteOn (source : Source) : (dialect source).FiniteOn Value.Numeric where
  double _ _ numeric read := isFinite_of_doubleOf numeric read
  expected _ _ numeric read := isFinite_of_expectedOf numeric read
  item _ _ numeric read := numeric_of_itemsOf numeric read
  member _ _ _ _ numeric read := numeric_of_recordOf numeric read

end Typed

end PageHealth.Json
