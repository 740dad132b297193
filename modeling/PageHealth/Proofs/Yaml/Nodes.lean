import PageHealth.Proofs.Yaml.Keys

/-! A node is read back from its lines: by induction on the node, with its members and items read one
after the other as long as the lines below belong to them. -/
namespace PageHealth.Yaml

namespace Node

mutual

/-- The node as it is read: a text is plain if no quotes were needed, and is then trimmed. -/
def asRead : Node → Node
  | scalar true _ text => scalar true none text
  | scalar false _ text => scalar (isBare text) none (readBack text)
  | sequence items => sequence (itemsAsRead items)
  | mapping members => mapping (membersAsRead members)

def itemsAsRead : List Node → List Node
  | [] => []
  | item :: rest => item.asRead :: itemsAsRead rest

def membersAsRead : List (String × Node) → List (String × Node)
  | [] => []
  | (key, node) :: rest => (key, node.asRead) :: membersAsRead rest

end

mutual

def tree : Node → Tree
  | scalar true _ text => .scalar true none text
  | scalar false _ text => .scalar (isBare text) none (readBack text)
  | sequence items => .sequence (itemTrees items)
  | mapping members => .mapping (memberTrees members)

def itemTrees : List Node → List Tree
  | [] => []
  | item :: rest => item.tree :: itemTrees rest

def memberTrees : List (String × Node) → List (Tree × Tree)
  | [] => []
  | (key, node) :: rest => (.scalar true none key, node.tree) :: memberTrees rest

end

def isEntry : Node → Bool
  | scalar plain _ _ => plain
  | mapping _ => true
  | sequence _ => false

mutual

/-- Whether a node is kept that stands at the column, as an item or behind a key: its plain scalars
are words, its texts fit the columns of their blocks, and nothing in it is empty. -/
def Kept (column : Nat) : Node → Prop
  | scalar true _ text => IsWord text.toList
  | scalar false _ text => fitsBlock (column + 2) text = true
  | sequence items => items ≠ [] ∧ ItemsKept (column + 2) items
  | mapping members => members ≠ [] ∧ MembersKept (column + 2) members

def ItemsKept (column : Nat) : List Node → Prop
  | [] => True
  | item :: rest => item.isEntry ∧ item.Kept column ∧ ItemsKept column rest

def MembersKept (column : Nat) : List (String × Node) → Prop
  | [] => True
  | (key, node) :: rest => IsKey key.toList ∧ node.Kept column ∧ MembersKept column rest

end

def behindKey (column : Nat) : Node → List Char
  | scalar true _ text => ' ' :: text.toList
  | scalar false _ text => ' ' :: (spell (column + 2) text).here
  | _ => []

def belowKey (column : Nat) : Node → List Line
  | scalar true _ _ => []
  | scalar false _ text => (spell (column + 2) text).below.map (Line.mk (column + 2))
  | sequence items => itemsLines (column + 2) items
  | mapping members => membersLines (column + 2) members

end Node

section Lines

variable {column : Nat} {node : Node}

theorem memberLines_eq (kept : node.Kept column) (key : List Char) :
    Node.memberLines column (key ++ [':']) node =
      keyLine column key (node.behindKey column) :: node.belowKey column := by
  cases node with
  | scalar plain tag text =>
    cases plain <;> simp [Node.memberLines, Node.behindKey, Node.belowKey, keyLine, spellingLines]
  | sequence items =>
    cases items with
    | nil => exact absurd rfl kept.1
    | cons => rfl
  | mapping members =>
    cases members with
    | nil => exact absurd rfl kept.1
    | cons => rfl

theorem startsSpace_behindKey : startsSpace (node.behindKey column) = true := by
  cases node with
  | scalar plain => cases plain <;> rfl
  | sequence => rfl
  | mapping => rfl

end Lines

section Starts

variable {fuel least leastItem column : Nat} {key tail cs : List Char} {below : List Line}

theorem dropIdle_cons {line : Line} (told : line.isIdle = false) :
    dropIdle (line :: below) = line :: below :=
  List.dropWhile_cons_of_neg (by simp [told])

theorem not_isIdle_itemLine : (itemLine column cs).isIdle = false := rfl

theorem nodeBelow_keyLine (isKey : IsKey key) (spaced : startsSpace tail = true)
    (wide : least ≤ column) :
    nodeBelow (fuel + 1) least leastItem (keyLine column key tail :: below) =
      blockMembers fuel column [] (keyLine column key tail :: below) := by
  have implicit : (implicitKey? (keyLine column key tail).text).isSome = true := by
    rw [keyLine, implicitKey?_key isKey spaced]
    rfl
  rw [nodeBelow, dropIdle_cons isKey.not_isIdle]
  simp only [isKey.not_isItem, implicit]
  rw [if_pos (.inl wide), if_neg (by decide), if_pos (.inr trivial)]
  rfl

theorem nodeBelow_itemLine (wide : least ≤ column) :
    nodeBelow (fuel + 1) least leastItem (itemLine column cs :: below) =
      blockItems fuel column [] (itemLine column cs :: below) := by
  rw [nodeBelow, dropIdle_cons not_isIdle_itemLine]
  dsimp only
  rw [if_pos (.inl wide)]
  rfl

theorem nodeBelow_word (word : IsWord cs) (wide : least ≤ column) :
    nodeBelow (fuel + 1) least leastItem (⟨column, cs⟩ :: below) =
      nodeHere fuel least least ⟨cs, below⟩ := by
  rw [nodeBelow, dropIdle_cons word.not_isIdle]
  simp only [word.not_isItem, word.not_isKey, implicitKey?_word word, word.solid.skipSpaces]
  rw [if_pos (.inl wide)]
  rfl

theorem nodeHere_nil :
    nodeHere (fuel + 1) least leastItem ⟨[], below⟩ = nodeBelow fuel least leastItem below := by
  have bare (read : Except Fault (Tree × List Line)) :
      (read >>= fun p => return (p.1.withProperties ⟨none, none⟩, p.2)) = read := by
    rcases read with _ | ⟨tree, rest⟩
    · rfl
    · cases tree <;> rfl
  rw [nodeHere]
  exact bare _

end Starts

theorem Ends.mono {least greater : Nat} {rest : List Line} (ends : Ends least rest)
    (wide : least ≤ greater) : Ends greater rest := fun line member =>
  ⟨(ends line member).1, Nat.lt_of_lt_of_le (ends line member).2 wide⟩

section Sequels

variable {column : Nat} {rest : List Line}

theorem membersLines_cons {key : String} {node : Node} (isKey : IsKey key.toList)
    (kept : node.Kept column) (members : List (String × Node)) :
    (Node.membersLines column ((key, node) :: members)).map Line.normal =
      keyLine column key.toList (node.behindKey column) ::
        ((node.belowKey column).map Line.normal ++
          (Node.membersLines column members).map Line.normal) := by
  rw [Node.membersLines, memberLines_eq kept, List.cons_append, List.map_cons, List.map_append,
    isKey.normal]

theorem exists_lines_of_isEntry {item : Node} (entry : item.isEntry = true)
    (kept : item.Kept column) : ∃ cs below, Solid cs ∧
      item.lines (column + 2) = ⟨column + 2, cs⟩ :: below := by
  cases item with
  | scalar plain tag text =>
    cases plain with
    | false => cases entry
    | true =>
      have word : IsWord text.toList := kept
      exact ⟨text.toList, [], word.solid, rfl⟩
  | sequence => cases entry
  | mapping members =>
    obtain ⟨some, each⟩ := kept
    cases members with
    | nil => exact absurd rfl some
    | cons member members =>
      obtain ⟨key, node⟩ := member
      obtain ⟨isKey, kept, _⟩ := each
      refine ⟨key.toList ++ ':' :: node.behindKey (column + 2),
        node.belowKey (column + 2) ++ Node.membersLines (column + 2) members, isKey.solid, ?_⟩
      rw [Node.lines, Node.membersLines, memberLines_eq kept]
      rfl

theorem ends_membersLines {members : List (String × Node)} (kept : Node.MembersKept column members)
    (ends : Ends column rest) :
    Ends (column + 1) ((Node.membersLines column members).map Line.normal ++ rest) := by
  cases members with
  | nil => exact ends.mono (Nat.le_succ column)
  | cons member members =>
    obtain ⟨key, node⟩ := member
    obtain ⟨isKey, kept, _⟩ := kept
    rw [membersLines_cons isKey kept]
    rintro line ⟨⟩
    exact ⟨isKey.not_isIdle, Nat.lt_succ_self column⟩

theorem itemsLines_cons {item : Node} {cs : List Char} {below : List Line}
    (lines : item.lines (column + 2) = ⟨column + 2, cs⟩ :: below) (items : List Node) :
    (Node.itemsLines column (item :: items)).map Line.normal =
      itemLine column cs ::
        (below.map Line.normal ++ (Node.itemsLines column items).map Line.normal) := by
  rw [Node.itemsLines, lines, itemLines, List.cons_append, List.map_cons, List.map_append]
  exact congrArg (· :: _) itemLine_normal

theorem ends_itemsLines {items : List Node} (kept : Node.ItemsKept column items)
    (ends : Ends column rest) :
    Ends (column + 1) ((Node.itemsLines column items).map Line.normal ++ rest) := by
  cases items with
  | nil => exact ends.mono (Nat.le_succ column)
  | cons item items =>
    obtain ⟨entry, kept, _⟩ := kept
    obtain ⟨cs, below, _, lines⟩ := exists_lines_of_isEntry entry kept
    rw [itemsLines_cons lines]
    rintro line ⟨⟩
    exact ⟨not_isIdle_itemLine, Nat.lt_succ_self column⟩

end Sequels

section Blocks

variable {fuel least leastItem column : Nat} {rest : List Line} {result : Tree × List Line}

theorem nodeBelow_itemsLines {item : Node} {items : List Node}
    (kept : Node.ItemsKept column (item :: items)) (wide : least ≤ column)
    (read : blockItems fuel column [] ((Node.itemsLines column (item :: items)).map Line.normal ++ rest) =
      .ok result) :
    nodeBelow (fuel + 1) least leastItem
      ((Node.itemsLines column (item :: items)).map Line.normal ++ rest) = .ok result := by
  obtain ⟨cs, below, _, lines⟩ := exists_lines_of_isEntry kept.1 kept.2.1
  rw [itemsLines_cons lines, List.cons_append] at read ⊢
  rw [nodeBelow_itemLine wide, read]

theorem nodeBelow_membersLines {key : String} {node : Node} {members : List (String × Node)}
    (kept : Node.MembersKept column ((key, node) :: members)) (wide : least ≤ column)
    (read : blockMembers fuel column []
      ((Node.membersLines column ((key, node) :: members)).map Line.normal ++ rest) = .ok result) :
    nodeBelow (fuel + 1) least leastItem
      ((Node.membersLines column ((key, node) :: members)).map Line.normal ++ rest) = .ok result := by
  rw [membersLines_cons kept.1 kept.2.1, List.cons_append] at read ⊢
  rw [nodeBelow_keyLine kept.1 startsSpace_behindKey wide, read]

end Blocks

section Steps

variable {fuel column : Nat} {items : List Tree} {members : List (Tree × Tree)}
  {below rest : List Line}

theorem blockItems_of_ends (ends : Ends column rest) :
    blockItems (fuel + 1) column items rest = .ok (.sequence items.reverse, rest) := by
  cases rest with
  | nil =>
    rw [blockItems]
    rfl
  | cons line below =>
    obtain ⟨told, low⟩ := ends line rfl
    rw [blockItems, dropIdle_cons told]
    dsimp only
    rw [if_neg (Nat.not_lt_of_le (Nat.le_of_lt low)), if_pos (.inl low)]

theorem blockMembers_of_ends (ends : Ends column rest) :
    blockMembers (fuel + 1) column members rest = .ok (.mapping members.reverse, rest) := by
  cases rest with
  | nil =>
    rw [blockMembers]
    rfl
  | cons line below =>
    obtain ⟨told, low⟩ := ends line rfl
    rw [blockMembers, dropIdle_cons told]
    dsimp only
    rw [if_neg (Nat.not_lt_of_le (Nat.le_of_lt low)), if_pos low]

theorem blockItems_itemLine {cs : List Char} {item : Tree} (solid : Solid cs)
    (read : nodeBelow fuel (column + 1) (column + 1) (⟨column + 2, cs⟩ :: below) = .ok (item, rest)) :
    blockItems (fuel + 1) column items (itemLine column cs :: below) =
      blockItems fuel column (item :: items) rest := by
  have here : (itemLine column cs).indent = column := rfl
  have isItem : (itemLine column cs).isItem = true := rfl
  rw [blockItems, dropIdle_cons not_isIdle_itemLine]
  dsimp only
  rw [afterMark_itemLine solid, read, here, if_neg (Nat.lt_irrefl column), isItem,
    if_neg (by simp)]
  rfl

theorem blockMembers_keyLine {key tail : List Char} {value : Tree} (isKey : IsKey key)
    (spaced : startsSpace tail = true)
    (read : nodeHere fuel (column + 1) column ⟨skipSpaces tail, below⟩ = .ok (value, rest)) :
    blockMembers (fuel + 2) column members (keyLine column key tail :: below) =
      blockMembers (fuel + 1) column ((.scalar true none (String.ofList key), value) :: members)
        rest := by
  have member : blockMember (fuel + 1) column (keyLine column key tail) below =
      .ok ((.scalar true none (String.ofList key), value), rest) := by
    rw [blockMember, if_neg (by simp [isKey.not_isKey])]
    rw [keyLine, implicitKey?_key isKey spaced]
    dsimp only
    rw [read]
    rfl
  have here : (keyLine column key tail).indent = column := rfl
  rw [blockMembers, dropIdle_cons isKey.not_isIdle]
  dsimp only
  rw [member, here, if_neg (Nat.lt_irrefl column), if_neg (Nat.lt_irrefl column)]
  rfl

end Steps

mutual

/-- A node is read from behind its key. The fuel that is enough grows with the lines of the node, which
also bound how deep it is nested. -/
theorem nodeHere_node (fuel : Nat) (node : Node) {column : Nat} {rest : List Line}
    (kept : node.Kept column) (ends : Ends (column + 1) rest)
    (enough : 8 * (node.belowKey column).length + 4 < fuel) :
    nodeHere fuel (column + 1) column
        ⟨skipSpaces (node.behindKey column), (node.belowKey column).map Line.normal ++ rest⟩ =
      .ok (node.tree, rest) := by
  match node, fuel with
  | .scalar true tag text, fuel + 1 =>
    have word : IsWord text.toList := kept
    have behind : skipSpaces (' ' :: text.toList) = text.toList := word.solid.skipSpaces
    change nodeHere (fuel + 1) _ _ ⟨skipSpaces (' ' :: text.toList), rest⟩ = _
    rw [behind, nodeHere_plain word.readsPlain ends, word.trimEnd, String.ofList_toList]
    rfl
  | .scalar false tag text, fuel + 1 =>
    have block : fitsBlock (column + 2) text = true := kept
    have behind : skipSpaces (' ' :: (spell (column + 2) text).here) =
        (spell (column + 2) text).here := (stands_spell block).solid.skipSpaces
    have below : (Node.belowKey column (.scalar false tag text)).map Line.normal =
        blockLines (column + 2) (spell (column + 2) text).below := List.map_map
    rw [below]
    change nodeHere (fuel + 1) _ _ ⟨skipSpaces (' ' :: _), _⟩ = _
    rw [behind, nodeHere_spell ends (by omega) (by omega) block]
    rfl
  | .sequence (item :: items), fuel + 2 =>
    have read := blockItems_itemsLines fuel (item :: items) kept.2 (ends.mono (Nat.le_succ _))
      (by simp only [Node.belowKey] at enough; omega) []
    exact nodeHere_nil.trans (nodeBelow_itemsLines kept.2 (Nat.le_succ _) read)
  | .mapping ((key, node) :: members), fuel + 2 =>
    have read := blockMembers_membersLines fuel ((key, node) :: members) kept.2
      (ends.mono (Nat.le_succ _)) (by simp only [Node.belowKey] at enough; omega) []
    exact nodeHere_nil.trans (nodeBelow_membersLines kept.2 (Nat.le_succ _) read)
  | .sequence [], _ => exact absurd rfl kept.1
  | .mapping [], _ => exact absurd rfl kept.1

theorem nodeBelow_item (fuel : Nat) (item : Node) {column : Nat} {rest : List Line}
    (entry : item.isEntry = true) (kept : item.Kept column) (ends : Ends (column + 1) rest)
    (enough : 8 * (item.lines (column + 2)).length + 1 < fuel) :
    nodeBelow fuel (column + 1) (column + 1) ((item.lines (column + 2)).map Line.normal ++ rest) =
      .ok (item.tree, rest) := by
  match item, fuel with
  | .scalar true tag text, fuel + 2 =>
    have word : IsWord text.toList := kept
    change nodeBelow (fuel + 2) _ _ ((Line.mk (column + 2) text.toList).normal :: rest) = _
    rw [word.solid.normal, nodeBelow_word word (Nat.le_succ _), nodeHere_plain word.readsPlain ends,
      word.trimEnd, String.ofList_toList]
    rfl
  | .mapping ((key, node) :: members), fuel + 1 =>
    have read := blockMembers_membersLines fuel ((key, node) :: members) kept.2
      (ends.mono (Nat.le_succ _)) (by simp only [Node.lines] at enough; omega) []
    exact nodeBelow_membersLines kept.2 (Nat.le_succ _) read
  | .mapping [], _ => exact absurd rfl kept.1

theorem blockItems_itemsLines (fuel : Nat) (items : List Node) {column : Nat} {rest : List Line}
    (kept : Node.ItemsKept column items) (ends : Ends column rest)
    (enough : 8 * (Node.itemsLines column items).length + 2 < fuel) (before : List Tree) :
    blockItems fuel column before ((Node.itemsLines column items).map Line.normal ++ rest) =
      .ok (.sequence (before.reverse ++ Node.itemTrees items), rest) := by
  match items, fuel with
  | [], fuel + 1 =>
    have read := @blockItems_of_ends fuel column before rest ends
    simpa [Node.itemsLines, Node.itemTrees] using read
  | item :: items, fuel + 1 =>
    obtain ⟨entry, first, others⟩ := kept
    obtain ⟨cs, below, solid, lines⟩ := exists_lines_of_isEntry entry first
    have short : (Node.itemsLines column (item :: items)).length =
        below.length + 1 + (Node.itemsLines column items).length := by
      rw [Node.itemsLines, lines, List.length_append]
      rfl
    have read := nodeBelow_item fuel item entry first (ends_itemsLines others ends)
      (by rw [lines, List.length_cons]; omega)
    have more := blockItems_itemsLines fuel items others ends (by omega)
      (item.tree :: before)
    rw [lines, List.map_cons, solid.normal, List.cons_append] at read
    rw [itemsLines_cons lines, List.cons_append, List.append_assoc, blockItems_itemLine solid read,
      more, List.reverse_cons, List.append_assoc]
    rfl

theorem blockMembers_membersLines (fuel : Nat) (members : List (String × Node)) {column : Nat}
    {rest : List Line} (kept : Node.MembersKept column members) (ends : Ends column rest)
    (enough : 8 * (Node.membersLines column members).length < fuel) (before : List (Tree × Tree)) :
    blockMembers fuel column before ((Node.membersLines column members).map Line.normal ++ rest) =
      .ok (.mapping (before.reverse ++ Node.memberTrees members), rest) := by
  match members, fuel with
  | [], fuel + 1 =>
    have read := @blockMembers_of_ends fuel column before rest ends
    simpa [Node.membersLines, Node.memberTrees] using read
  | (key, node) :: members, fuel =>
    obtain ⟨isKey, first, others⟩ := kept
    have short : (Node.membersLines column ((key, node) :: members)).length =
        (node.belowKey column).length + 1 + (Node.membersLines column members).length := by
      rw [Node.membersLines, memberLines_eq first, List.length_append]
      rfl
    obtain ⟨fuel, rfl⟩ : ∃ less, fuel = less + 2 := ⟨fuel - 2, by omega⟩
    have read := nodeHere_node fuel node first (ends_membersLines others ends) (by omega)
    have more := blockMembers_membersLines (fuel + 1) members others ends (by omega)
      ((.scalar true none key, node.tree) :: before)
    rw [membersLines_cons isKey first, List.cons_append, List.append_assoc,
      blockMembers_keyLine isKey startsSpace_behindKey read, String.ofList_toList, more,
      List.reverse_cons, List.append_assoc]
    rfl

end

end PageHealth.Yaml
