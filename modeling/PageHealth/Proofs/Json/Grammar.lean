import PageHealth.Proofs.Json.Document
import PageHealth.Proofs.Json.Finite

/-! What the reader accepts: a text is a whole document exactly if its tokens are those of a value whose
numbers are readable and whose nesting is within the limit. What was read of the containers that are
still open is on the stack, and every text that breaks off leaves a fault behind. -/
namespace PageHealth.Json

def Document.Whole (document : Document) : Prop :=
  document.root.fault? = none ∧ document.trailing = none

namespace Value

/-- What holds of an array or object as soon as it holds of all that was read of it, and of every value
without parts, holds of every value. -/
@[elab_as_elim, induction_eliminator]
theorem ind {motive : Value → Prop} (null : motive .null) (bool : ∀ b, motive (.bool b))
    (number : ∀ n, motive (.number n)) (text : ∀ s, motive (.text s))
    (array : ∀ items fault, (∀ item ∈ items, motive item) → motive (.array items fault))
    (object : ∀ members fault, (∀ member ∈ members, motive member.2) → motive (.object members fault))
    (broken : ∀ fault, motive (.broken fault)) (value : Value) : motive value :=
  match value with
  | .null => null
  | .bool b => bool b
  | .number n => number n
  | .text s => text s
  | .array items fault =>
    array items fault fun item _ => ind null bool number text array object broken item
  | .object members fault =>
    object members fault fun member _ => ind null bool number text array object broken member.2
  | .broken fault => broken fault
  termination_by sizeOf value
  decreasing_by
    all_goals
      have smaller := List.sizeOf_lt_of_mem ‹_›
    · simp only [Value.array.sizeOf_spec]
      omega
    · have : sizeOf member.2 < sizeOf member := by
        cases member
        simp only [Prod.mk.sizeOf_spec]
        omega
      simp only [Value.object.sizeOf_spec]
      omega

section Faults

variable {items : List Value} {members : List (String × Value)} {room : Nat}

theorem itemsFault?_eq_none_iff : itemsFault? items = none ↔ ∀ item ∈ items, item.fault? = none := by
  induction items with
  | nil => simp [itemsFault?]
  | cons item items ih => simp [itemsFault?, Option.or_eq_none_iff, ih]

theorem membersFault?_eq_none_iff :
    membersFault? members = none ↔ ∀ member ∈ members, member.2.fault? = none := by
  induction members with
  | nil => simp [membersFault?]
  | cons member members ih => simp [membersFault?, Option.or_eq_none_iff, ih]

theorem itemsReadable_iff : ItemsReadable room items ↔ ∀ item ∈ items, item.Readable room := by
  induction items with
  | nil => simp [ItemsReadable]
  | cons item items ih => simp [ItemsReadable, ih]

theorem membersReadable_iff :
    MembersReadable room members ↔ ∀ member ∈ members, member.2.Readable room := by
  induction members with
  | nil => simp [MembersReadable]
  | cons member members ih => simp [MembersReadable, ih]

end Faults

theorem fault?_of_readable (value : Value) {room : Nat} (readable : value.Readable room) :
    value.fault? = none := by
  induction value generalizing room with
  | null | bool _ | number _ | text _ => rfl
  | broken fault => exact readable.elim
  | array items fault ih =>
    obtain ⟨rfl, _, inside⟩ := readable
    rw [fault?, Option.or_none, itemsFault?_eq_none_iff]
    exact fun item listed => ih item listed (itemsReadable_iff.mp inside item listed)
  | object members fault ih =>
    obtain ⟨rfl, _, inside⟩ := readable
    rw [fault?, Option.or_none, membersFault?_eq_none_iff]
    exact fun member listed => ih member listed (membersReadable_iff.mp inside member listed)

def itemsBefore (items : List Value) : List Token :=
  items.flatMap fun item => item.tokens ++ [.mark ',']

def memberTokens (member : String × Value) : List Token :=
  .text (.ok member.1) :: .mark ':' :: member.2.tokens

def membersBefore (members : List (String × Value)) : List Token :=
  members.flatMap fun member => memberTokens member ++ [.mark ',']

theorem itemsTokens_concat (items : List Value) (last : Value) :
    itemsTokens (items ++ [last]) = itemsBefore items ++ last.tokens := by
  induction items with
  | nil => rfl
  | cons item items ih =>
    rw [itemsBefore, List.flatMap_cons, List.append_assoc, ← itemsBefore, ← ih]
    cases items <;> simp [itemsTokens]

theorem membersTokens_concat (members : List (String × Value)) (last : String × Value) :
    membersTokens (members ++ [last]) = membersBefore members ++ memberTokens last := by
  induction members with
  | nil => rfl
  | cons member members ih =>
    rw [membersBefore, List.flatMap_cons, List.append_assoc, ← membersBefore, ← ih]
    cases members <;> simp [membersTokens, memberTokens]

end Value

section States

open Value (ItemsReadable MembersReadable itemsBefore membersBefore memberTokens)

def Frame.AwaitsValue : Frame → Prop
  | array _ => True
  | object _ => False
  | member _ _ => True

def Frame.Readable (room : Nat) : Frame → Prop
  | array items => ItemsReadable room items
  | object members => MembersReadable room members
  | member members _ => MembersReadable room members

def Frame.tokens : Frame → List Token
  | array items => .mark '[' :: itemsBefore items.reverse
  | object members => .mark '\x7b' :: membersBefore members.reverse
  | member members key =>
    .mark '\x7b' :: (membersBefore members.reverse ++ [.text (.ok key), .mark ':'])

def stackTokens : List Frame → List Token
  | [] => []
  | frame :: stack => stackTokens stack ++ frame.tokens

def roomLeft (stack : List Frame) : Nat := depthLimit - stack.length

def Nested : List Frame → Prop
  | [] => True
  | frame :: stack => frame.AwaitsValue ∧ frame.Readable (roomLeft stack - 1) ∧
      0 < roomLeft stack ∧ Nested stack

structure InObject (members : List (String × Value)) (stack : List Frame) : Prop where
  readable : MembersReadable (roomLeft stack - 1) members
  room : 0 < roomLeft stack
  nested : Nested stack

/-- What may come next behind tokens, and the containers that are open there. -/
inductive Reached : Expecting → List Frame → List Token → Prop where
  | value {stack : List Frame} (nested : Nested stack) : Reached .value stack (stackTokens stack)
  | firstItem {stack : List Frame} (nested : Nested (.array [] :: stack)) :
    Reached .firstItem (.array [] :: stack) (stackTokens (.array [] :: stack))
  | firstKey {stack : List Frame} (inside : InObject [] stack) :
    Reached .firstKey (.object [] :: stack) (stackTokens (.object [] :: stack))
  | key {members : List (String × Value)} {stack : List Frame} (inside : InObject members stack) :
    Reached .key (.object members :: stack) (stackTokens (.object members :: stack))
  | colon {key : String} {members : List (String × Value)} {stack : List Frame}
      (inside : InObject members stack) :
    Reached (.colon key) (.object members :: stack)
      (stackTokens (.object members :: stack) ++ [.text (.ok key)])
  | item {value : Value} {items : List Value} {stack : List Frame}
      (nested : Nested (.array items :: stack)) (readable : value.Readable (roomLeft stack - 1)) :
    Reached .separator (.array (value :: items) :: stack)
      (stackTokens (.array items :: stack) ++ value.tokens)
  | member {key : String} {value : Value} {members : List (String × Value)} {stack : List Frame}
      (inside : InObject ((key, value) :: members) stack) :
    Reached .separator (.object ((key, value) :: members) :: stack)
      (stackTokens (.member members key :: stack) ++ value.tokens)
  | nothing {value : Value} (readable : value.Readable depthLimit) :
    Reached (.nothing value) [] value.tokens

variable {value : Value} {frame : Frame} {stack : List Frame} {expecting next : Expecting}
  {token : Token} {read : List Token} {members : List (String × Value)} {fault : Fault}

theorem Nested.outside (nested : Nested (frame :: stack)) : Nested stack := nested.2.2.2

theorem stackTokens_item (value : Value) (items : List Value) (stack : List Frame) :
    stackTokens (.array (value :: items) :: stack) =
      stackTokens (.array items :: stack) ++ value.tokens ++ [.mark ','] := by
  simp [stackTokens, Frame.tokens, itemsBefore]

theorem stackTokens_key (key : String) (members : List (String × Value)) (stack : List Frame) :
    stackTokens (.member members key :: stack) =
      stackTokens (.object members :: stack) ++ [.text (.ok key)] ++ [.mark ':'] := by
  simp [stackTokens, Frame.tokens]

theorem stackTokens_member (key : String) (value : Value) (members : List (String × Value))
    (stack : List Frame) : stackTokens (.object ((key, value) :: members) :: stack) =
      stackTokens (.member members key :: stack) ++ value.tokens ++ [.mark ','] := by
  simp [stackTokens, Frame.tokens, membersBefore, memberTokens]

theorem Frame.fault?_close (fault : Fault) (frame : Frame) :
    (frame.close (some fault)).fault? ≠ none := by
  cases frame <;> simp [Frame.close, Value.fault?]

theorem Frame.fault?_close_add (awaits : frame.AwaitsValue) (faulty : value.fault? ≠ none) :
    ((frame.add value).close none).fault? ≠ none := by
  cases frame with
  | array items =>
    intro whole
    simp only [add, close, Value.fault?, Option.or_none] at whole
    exact faulty (Value.itemsFault?_eq_none_iff.mp whole value (by simp))
  | object members => exact awaits.elim
  | member members key =>
    intro whole
    simp only [add, close, Value.fault?, Option.or_none] at whole
    exact faulty (Value.membersFault?_eq_none_iff.mp whole (key, value) (by simp))

theorem not_whole_abandon (nested : Nested stack) (faulty : value.fault? ≠ none) :
    ¬ (abandon value stack).Whole := by
  suffices (abandon value stack).root.fault? ≠ none from fun whole => this whole.1
  unfold abandon
  induction stack generalizing value with
  | nil => exact faulty
  | cons frame stack ih => exact ih nested.outside (Frame.fault?_close_add nested.1 faulty)

theorem not_whole_abandon_broken (nested : Nested stack) (fault : Fault) :
    ¬ (abandon (.broken fault) stack).Whole :=
  not_whole_abandon nested (Option.some_ne_none fault)

theorem Reached.not_whole_abandonInside (reached : Reached expecting stack read) (fault : Fault) :
    ¬ (abandonInside fault stack).Whole := by
  have inside {frame : Frame} {stack : List Frame} (nested : Nested stack) :
      ¬ (abandonInside fault (frame :: stack)).Whole :=
    not_whole_abandon nested (frame.fault?_close fault)
  cases reached with
  | value nested =>
    cases stack with
    | nil => exact not_whole_abandon_broken nested fault
    | cons frame stack => exact inside nested.outside
  | firstItem nested => exact inside nested.outside
  | firstKey within => exact inside within.nested
  | key within => exact inside within.nested
  | colon within => exact inside within.nested
  | item nested _ => exact inside nested.outside
  | member within => exact inside within.nested
  | nothing _ => exact fun whole => nomatch whole.1

/-- What one token makes of a state: another one, behind that token, or a document with a fault. -/
def Goes (read : List Token) : Except Document (Expecting × List Frame) → Prop
  | .ok (next, stack) => Reached next stack read
  | .error document => ¬ document.Whole

theorem goes_placed (nested : Nested stack) (readable : value.Readable (roomLeft stack)) :
    Goes (stackTokens stack ++ value.tokens) (.ok (placed value stack)) := by
  cases stack with
  | nil => exact .nothing readable
  | cons frame stack =>
    cases frame with
    | array items => exact .item nested readable
    | object members => exact nested.1.elim
    | member members key =>
      obtain ⟨_, inside, room, outside⟩ := nested
      exact .member ⟨⟨readable, inside⟩, room, outside⟩

theorem goes_opened (nested : Nested stack)
    (reached : 0 < roomLeft stack → Reached next (frame :: stack) (stackTokens stack ++ [token])) :
    Goes (stackTokens stack ++ [token]) (opened frame next stack) := by
  unfold opened
  split
  · exact reached (Nat.sub_pos_of_lt ‹_›)
  · exact not_whole_abandon_broken nested .tooDeep

theorem goes_startValue (nested : Nested stack) (sound : token.Sound) :
    Goes (stackTokens stack ++ [token]) (startValue stack token) := by
  unfold startValue
  split
  · exact goes_placed nested trivial
  · exact not_whole_abandon_broken nested _
  · exact not_whole_abandon_broken nested _
  · rename_i value unbroken
    have word : value.tokens = [.word value] ∧ ∀ room, value.Readable room := by
      cases sound with
      | null | bool => exact ⟨rfl, fun _ => trivial⟩
      | number readable => exact ⟨rfl, fun _ => readable⟩
      | broken fault => exact absurd rfl (unbroken fault)
    rw [← word.1]
    exact goes_placed nested (word.2 _)
  · exact goes_opened nested fun room => .firstItem ⟨trivial, trivial, room, nested⟩
  · exact goes_opened nested fun room => .firstKey ⟨trivial, room, nested⟩
  · exact not_whole_abandon_broken nested _

theorem goes_closeArray {items : List Value} (nested : Nested (.array items :: stack))
    (readable : value.Readable (roomLeft stack - 1)) :
    Goes (stackTokens (.array items :: stack) ++ value.tokens ++ [.mark ']'])
      (.ok (placed (.array (value :: items).reverse none) stack)) := by
  obtain ⟨_, inside, room, outside⟩ := nested
  have all : (Value.array (value :: items).reverse none).Readable (roomLeft stack) := by
    refine ⟨rfl, room, Value.itemsReadable_iff.mpr fun item listed => ?_⟩
    rcases List.mem_cons.mp (List.mem_reverse.mp listed) with rfl | held
    · exact readable
    · exact Value.itemsReadable_iff.mp inside item held
  have spelt : stackTokens (.array items :: stack) ++ value.tokens ++ [.mark ']'] =
      stackTokens stack ++ (Value.array (value :: items).reverse none).tokens := by
    rw [List.reverse_cons, Value.tokens, Value.itemsTokens_concat]
    simp [stackTokens, Frame.tokens]
  rw [spelt]
  exact goes_placed outside all

theorem InObject.awaiting {key : String} (inside : InObject members stack) :
    Nested (.member members key :: stack) := ⟨trivial, inside.readable, inside.room, inside.nested⟩

theorem InObject.goes_close {key : String} (inside : InObject ((key, value) :: members) stack) :
    Goes (stackTokens (.member members key :: stack) ++ value.tokens ++ [.mark '\x7d'])
      (.ok (placed (.object ((key, value) :: members).reverse none) stack)) := by
  have all : (Value.object ((key, value) :: members).reverse none).Readable (roomLeft stack) := by
    refine ⟨rfl, inside.room, Value.membersReadable_iff.mpr fun member listed => ?_⟩
    exact Value.membersReadable_iff.mp inside.readable member (List.mem_reverse.mp listed)
  have spelt : stackTokens (.member members key :: stack) ++ value.tokens ++ [.mark '\x7d'] =
      stackTokens stack ++ (Value.object ((key, value) :: members).reverse none).tokens := by
    rw [List.reverse_cons, Value.tokens, Value.membersTokens_concat]
    simp [stackTokens, Frame.tokens, memberTokens]
  rw [spelt]
  exact goes_placed inside.nested all

theorem goes_step (reached : Reached expecting stack read) (sound : token.Sound) :
    Goes (read ++ [token]) (step expecting stack token) := by
  unfold step
  split
  -- a value starts
  case h_2 =>
    cases reached with
    | value nested => exact goes_startValue nested sound
  case h_4 =>
    cases reached with
    | firstItem nested => exact goes_startValue nested sound
  -- a container ends that is empty
  case h_3 =>
    cases reached with
    | firstItem nested =>
      obtain ⟨_, _, room, outside⟩ := nested
      rw [stackTokens, List.append_assoc]
      exact @goes_placed (.array [] none) _ outside ⟨rfl, room, trivial⟩
  case h_5 =>
    cases reached with
    | firstKey inside =>
      rw [stackTokens, List.append_assoc]
      exact @goes_placed (.object [] none) _ inside.nested ⟨rfl, inside.room, trivial⟩
  -- a key is read, then its colon
  case h_7 =>
    cases reached with
    | firstKey inside => exact .colon inside
  case h_8 =>
    cases reached with
    | key inside => exact .colon inside
  case h_13 =>
    cases reached with
    | colon inside =>
      rw [← stackTokens_key]
      exact .value inside.awaiting
  case h_14 =>
    cases reached with
    | colon inside => exact not_whole_abandon_broken inside.awaiting _
  -- a separator or the end of a container
  case h_15 =>
    cases reached with
    | item nested readable =>
      obtain ⟨awaits, inside, room, outside⟩ := nested
      rw [← stackTokens_item]
      exact .value ⟨awaits, ⟨readable, inside⟩, room, outside⟩
  case h_16 =>
    cases reached with
    | item nested readable => exact goes_closeArray nested readable
  case h_18 =>
    cases reached with
    | member inside =>
      rw [← stackTokens_member]
      exact .key inside
  case h_19 =>
    cases reached with
    | member inside => exact inside.goes_close
  -- the document is over
  case h_21 => exact fun whole => nomatch whole.2
  -- the text breaks off
  all_goals exact reached.not_whole_abandonInside _

theorem spelt_of_finish (reached : Reached expecting stack read)
    (whole : (finish expecting stack).Whole) :
    ∃ value : Value, value.Readable depthLimit ∧ read = value.tokens := by
  revert whole
  unfold finish
  split
  · intro _
    cases reached with
    | nothing readable => exact ⟨_, readable, rfl⟩
  · intro whole
    cases reached with
    | value nested => exact absurd whole (not_whole_abandon_broken nested _)
  · intro whole
    cases reached with
    | colon inside => exact absurd whole (not_whole_abandon_broken inside.awaiting _)
  · exact fun whole => absurd whole (reached.not_whole_abandonInside _)

theorem spelt_of_run {rest : List Token} (sound : ∀ token ∈ rest, token.Sound)
    (reached : Reached expecting stack read) (whole : (run expecting stack rest).Whole) :
    ∃ value : Value, value.Readable depthLimit ∧ read ++ rest = value.tokens := by
  induction rest generalizing expecting stack read with
  | nil =>
    rw [List.append_nil]
    exact spelt_of_finish reached whole
  | cons token rest ih =>
    rw [List.forall_mem_cons] at sound
    have goes := goes_step reached sound.1
    rw [run] at whole
    cases outcome : step expecting stack token with
    | error document =>
      rw [outcome] at goes whole
      exact absurd whole goes
    | ok state =>
      rw [outcome] at goes whole
      rw [List.append_cons]
      exact ih sound.2 goes whole

end States

theorem spelt_of_whole {cs : List Char} (whole : (Document.ofChars cs).Whole) :
    ∃ value : Value, value.Readable depthLimit ∧ tokens cs = value.tokens := by
  have start : Reached .value [] [] := .value trivial
  exact spelt_of_run (sound_tokens cs) start whole

end PageHealth.Json
