import PageHealth.Proofs.Yaml.Nodes

namespace PageHealth.Yaml

section Resolving

theorem isMergeKey_key {key : String} (isKey : IsKey key.toList) :
    (Node.scalar true none key).isMergeKey = false := by
  unfold Node.isMergeKey
  split
  · rename_i same
    cases same
    exact absurd (isKey.letters '<' (by simp)) (by decide)
  · rfl

def entryOf (member : String × Node) : Node × Node := (.scalar true none member.1, member.2)

theorem membersOf_map_entryOf {members : List (String × Node)}
    (keys : ∀ member ∈ members, IsKey member.1.toList) :
    membersOf (members.map entryOf) = .ok members := by
  have own : (members.map entryOf).partition (fun entry => entry.1.isMergeKey) =
      ([], members.map entryOf) := by
    rw [List.partition_eq_filter_filter, List.filter_eq_nil_iff.mpr, List.filter_eq_self.mpr]
    · intro entry listed
      obtain ⟨member, inside, rfl⟩ := List.mem_map.mp listed
      simp [entryOf, isMergeKey_key (keys member inside)]
    · intro entry listed
      obtain ⟨member, inside, rfl⟩ := List.mem_map.mp listed
      simp [entryOf, isMergeKey_key (keys member inside)]
  have texts : (members.map entryOf).mapM (fun entry => do return (← entry.1.keyText, entry.2)) =
      (.ok members : Except Fault (List (String × Node))) := by
    clear own keys
    induction members with
    | nil => rfl
    | cons member members ih =>
      rw [List.map_cons, List.mapM_cons, ih]
      rfl
  unfold membersOf
  rw [own]
  dsimp only
  rw [texts]
  rfl

theorem keys_membersAsRead {column : Nat} {members : List (String × Node)}
    (kept : Node.MembersKept column members) :
    ∀ member ∈ Node.membersAsRead members, IsKey member.1.toList := by
  induction members with
  | nil => simp [Node.membersAsRead]
  | cons member members ih =>
    obtain ⟨key, node⟩ := member
    intro other listed
    rcases List.mem_cons.mp listed with rfl | later
    · exact kept.1
    · exact ih kept.2.2 other later

theorem resolve_mapping {column : Nat} {members : List (String × Node)} {anchors : Anchors}
    (kept : Node.MembersKept column members)
    (resolved : Tree.resolveMembers anchors (Node.memberTrees members) =
      .ok ((Node.membersAsRead members).map entryOf, anchors)) :
    (Tree.mapping (Node.memberTrees members)).resolve anchors =
      .ok (.mapping (Node.membersAsRead members), anchors) := by
  rw [Tree.resolve, resolved]
  change (membersOf _ >>= _) = _
  rw [membersOf_map_entryOf (keys_membersAsRead kept)]
  rfl

mutual

theorem resolve_tree (node : Node) {column : Nat} (kept : node.Kept column) (anchors : Anchors) :
    node.tree.resolve anchors = .ok (node.asRead, anchors) := by
  match node with
  | .scalar true tag text => rfl
  | .scalar false tag text => rfl
  | .sequence items =>
    rw [Node.tree, Tree.resolve, resolveItems_itemTrees items kept.2 anchors]
    rfl
  | .mapping members =>
    exact resolve_mapping kept.2 (resolveMembers_memberTrees members kept.2 anchors)

theorem resolveItems_itemTrees (items : List Node) {column : Nat}
    (kept : Node.ItemsKept column items) (anchors : Anchors) :
    Tree.resolveItems anchors (Node.itemTrees items) = .ok (Node.itemsAsRead items, anchors) := by
  match items with
  | [] => rfl
  | item :: items =>
    rw [Node.itemTrees, Tree.resolveItems, resolve_tree item kept.2.1 anchors]
    change (Tree.resolveItems anchors _ >>= _) = _
    rw [resolveItems_itemTrees items kept.2.2 anchors]
    rfl

theorem resolveMembers_memberTrees (members : List (String × Node)) {column : Nat}
    (kept : Node.MembersKept column members) (anchors : Anchors) :
    Tree.resolveMembers anchors (Node.memberTrees members) =
      .ok ((Node.membersAsRead members).map entryOf, anchors) := by
  match members with
  | [] => rfl
  | (key, node) :: members =>
    rw [Node.memberTrees, Tree.resolveMembers, Tree.resolve]
    change (node.tree.resolve anchors >>= _) = _
    rw [resolve_tree node kept.2.1 anchors]
    change (Tree.resolveMembers anchors _ >>= _) = _
    rw [resolveMembers_memberTrees members kept.2.2 anchors]
    rfl

end

end Resolving

section Lines

structure Line.Quiet (least : Nat) (line : Line) : Prop where
  fits : FitsLine line.text
  indented : least ≤ line.indent

theorem fitsLine_keyLine {key tail : List Char} (isKey : IsKey key) (fits : FitsLine tail) :
    FitsLine (key ++ ':' :: tail) :=
  isKey.isWord.fitsLine.append (.cons (by decide) fits)

theorem fitsLine_behindKey {column : Nat} {node : Node} (kept : node.Kept column) :
    FitsLine (node.behindKey column) := by
  have none : FitsLine [] := fun c member => absurd member List.not_mem_nil
  cases node with
  | scalar plain tag text =>
    cases plain with
    | false => exact .cons (by decide) (stands_spell kept).fitsHere
    | true => exact .cons (by decide) (IsWord.fitsLine kept)
  | sequence items => exact none
  | mapping members => exact none

theorem quiet_itemLines {column : Nat} {lines : List Line}
    (quiet : ∀ line ∈ lines, line.Quiet (column + 2)) :
    ∀ line ∈ itemLines column lines, line.Quiet column := by
  cases lines with
  | nil => exact fun line member => absurd member List.not_mem_nil
  | cons first below =>
    intro line member
    rcases List.mem_cons.mp member with rfl | later
    · have fits := (quiet first List.mem_cons_self).fits
      exact ⟨.cons (by decide) (.cons (by decide) fits), Nat.le_refl column⟩
    · have other := quiet line (List.mem_cons_of_mem _ later)
      exact ⟨other.fits, Nat.le_of_add_right_le other.indented⟩

mutual

theorem quiet_belowKey (node : Node) {column : Nat} (kept : node.Kept column) :
    ∀ line ∈ node.belowKey column, line.Quiet (column + 2) := by
  match node with
  | .scalar true _ _ => exact fun line member => absurd member List.not_mem_nil
  | .scalar false _ text =>
    intro line member
    obtain ⟨cs, listed, rfl⟩ := List.mem_map.mp member
    exact ⟨(stands_spell kept).fitsBelow cs listed, Nat.le_refl _⟩
  | .sequence items => exact quiet_itemsLines items kept.2
  | .mapping members => exact quiet_membersLines members kept.2

theorem quiet_itemsLines (items : List Node) {column : Nat} (kept : Node.ItemsKept column items) :
    ∀ line ∈ Node.itemsLines column items, line.Quiet column := by
  match items with
  | [] => exact fun line member => absurd member List.not_mem_nil
  | item :: items =>
    obtain ⟨entry, first, others⟩ := kept
    intro line member
    rcases List.mem_append.mp member with own | later
    · refine quiet_itemLines ?_ line own
      match item with
      | .scalar true _ text =>
        intro line member
        rw [List.mem_singleton.mp member]
        exact ⟨IsWord.fitsLine first, Nat.le_refl _⟩
      | .mapping [] => exact absurd rfl first.1
      | .mapping (member :: members) => exact quiet_membersLines (member :: members) first.2
    · exact quiet_itemsLines items others line later

theorem quiet_membersLines (members : List (String × Node)) {column : Nat}
    (kept : Node.MembersKept column members) :
    ∀ line ∈ Node.membersLines column members, line.Quiet column := by
  match members with
  | [] => exact fun line member => absurd member List.not_mem_nil
  | (key, node) :: members =>
    obtain ⟨isKey, first, others⟩ := kept
    rw [Node.membersLines, memberLines_eq first]
    intro line member
    rcases List.mem_append.mp member with own | later
    · rcases List.mem_cons.mp own with rfl | below
      · exact ⟨fitsLine_keyLine isKey (fitsLine_behindKey first), Nat.le_refl _⟩
      · have other := quiet_belowKey node first line below
        exact ⟨other.fits, Nat.le_of_add_right_le other.indented⟩
    · exact quiet_membersLines members others line later

end

end Lines

section Reading

variable {key tail : List Char} {column : Nat}

theorem afterMarker?_of_pos {line : Line} (indented : 0 < line.indent) (mark : Char) :
    line.afterMarker? mark = none := by
  unfold Line.afterMarker?
  split
  · rename_i margin _
    omega
  · rfl

theorem IsKey.afterMarker? (isKey : IsKey key) (mark : Char) (sign : mark.isAlphanum = false) :
    (keyLine column key tail).afterMarker? mark = none := by
  obtain ⟨c, others, rfl, letter, _⟩ := isKey.exists_cons
  have apart : c ≠ mark := by
    rintro rfl
    rw [sign] at letter
    cases letter
  unfold Line.afterMarker?
  split
  · rename_i _ text
    rw [if_neg]
    rintro ⟨first, _⟩
    rw [keyLine, List.cons_append, List.cons.injEq] at text
    exact apart (text.1.trans first)
  · rfl

theorem IsKey.not_isMarker (isKey : IsKey key) : (keyLine column key tail).isMarker = false := by
  simp [Line.isMarker, isKey.afterMarker? '-' rfl, isKey.afterMarker? '.' rfl]

theorem IsKey.not_isPrologue (isKey : IsKey key) : (keyLine column key tail).isPrologue = false := by
  have notDirective : (keyLine column key tail).isDirective = false := by
    have := @IsKey.head key tail column isKey '%' (by decide)
    simp [Line.isDirective, this]
  simp [Line.isPrologue, isKey.not_isIdle, notDirective, isKey.afterMarker? '.' rfl]

theorem not_isMarker_membersLines {members : List (String × Node)}
    (kept : Node.MembersKept column members) :
    ∀ line ∈ (Node.membersLines column members).map Line.normal, line.isMarker = false := by
  induction members with
  | nil => exact fun line member => absurd member List.not_mem_nil
  | cons member members ih =>
    obtain ⟨key, node⟩ := member
    obtain ⟨isKey, first, others⟩ := kept
    rw [membersLines_cons isKey first]
    intro line member
    rcases List.mem_cons.mp member with rfl | behind
    · exact isKey.not_isMarker
    rcases List.mem_append.mp behind with below | later
    · obtain ⟨written, listed, rfl⟩ := List.mem_map.mp below
      have indented := (quiet_belowKey node first written listed).indented
      have deeper := written.indent_le_normal
      have inside : 0 < written.normal.indent := by omega
      simp [Line.isMarker, afterMarker?_of_pos inside]
    · exact ih others line later

theorem le_fuelFor (lines : List Line) : 8 * lines.length + 8 ≤ fuelFor lines := by
  have bound (n : Nat) :
      n + 2 * lines.length ≤ lines.foldl (fun n line => n + line.text.length + 2) n := by
    induction lines generalizing n with
    | nil => exact Nat.le_refl n
    | cons line lines ih =>
      have := ih (n + line.text.length + 2)
      rw [List.foldl_cons, List.length_cons]
      omega
  have := bound 2
  unfold fuelFor
  omega

theorem not_isDirective_of_isIdle {line : Line} (idle : line.isIdle = true) :
    line.isDirective = false := by
  cases same : line.text with
  | nil => simp [Line.isDirective, same]
  | cons c rest =>
    by_contra directive
    simp only [Line.isDirective, same, List.head?_cons, Option.some.injEq, Bool.and_eq_true,
      decide_eq_true_eq, Bool.not_eq_false] at directive
    obtain ⟨_, rfl⟩ := directive
    rw [Line.isIdle, Line.isBlank, Line.isComment, same] at idle
    cases idle

theorem ends_nil {least : Nat} : Ends least [] := fun _ member => by cases member

/-- Without markers the lines of the members are the whole document. -/
theorem readBody_membersLines {fuel : Nat} {members : List (String × Node)}
    (kept : Node.MembersKept 0 members) (some : members ≠ [])
    (enough : 8 * (Node.membersLines 0 members).length + 1 < fuel) :
    readBody fuel none ((Node.membersLines 0 members).map Line.normal) =
      .ok (.mapping (Node.memberTrees members)) := by
  cases members with
  | nil => exact absurd rfl some
  | cons member members =>
    obtain ⟨key, node⟩ := member
    obtain ⟨fuel, rfl⟩ : ∃ less, fuel = less + 1 := ⟨fuel - 1, by omega⟩
    have read := blockMembers_membersLines fuel ((key, node) :: members) kept ends_nil (by omega) []
    have body : ∀ line ∈ (Node.membersLines 0 ((key, node) :: members)).map Line.normal,
        (!line.isMarker) = true := fun line listed => by
      simp [not_isMarker_membersLines kept line listed]
    have opened : nodeBelow (fuel + 1) 0 0
        ((Node.membersLines 0 ((key, node) :: members)).map Line.normal) =
          .ok (.mapping (Node.memberTrees ((key, node) :: members)), []) := by
      rw [List.append_nil, membersLines_cons kept.1 kept.2.1] at read
      rw [membersLines_cons kept.1 kept.2.1,
        nodeBelow_keyLine kept.1 startsSpace_behindKey (Nat.le_refl 0), read]
      rfl
    simp only [readBody, List.takeWhile_eq_self_iff.mpr body, List.dropWhile_eq_nil_iff.mpr body,
      opened]
    rfl

theorem readDocument_membersLines {preface : List Line} {members : List (String × Node)}
    (idle : ∀ line ∈ preface, line.isIdle = true) (kept : Node.MembersKept 0 members)
    (some : members ≠ []) :
    readDocument (preface ++ (Node.membersLines 0 members).map Line.normal) =
      .ok (.mapping (Node.memberTrees members)) := by
  have enough := le_fuelFor (preface ++ (Node.membersLines 0 members).map Line.normal)
  rw [List.length_append, List.length_map] at enough
  unfold readDocument
  generalize fuelFor _ = fuel at enough
  have read := @readBody_membersLines fuel members kept some (by omega)
  have prologue : ∀ line ∈ preface, line.isPrologue = true := fun line listed => by
    simp [Line.isPrologue, idle line listed]
  have directions : preface.any Line.isDirective = false :=
    List.any_eq_false.mpr fun line listed => by
      simp [not_isDirective_of_isIdle (idle line listed)]
  obtain ⟨key, tail, below, isKey, lines⟩ : ∃ key tail below, IsKey key ∧
      (Node.membersLines 0 members).map Line.normal = keyLine 0 key tail :: below := by
    cases members with
    | nil => exact absurd rfl some
    | cons member members => exact ⟨_, _, _, kept.1, membersLines_cons kept.1 kept.2.1 members⟩
  rw [List.takeWhile_append_of_pos prologue, List.dropWhile_append_of_pos prologue]
  rw [lines] at read ⊢
  have started := @IsKey.not_isPrologue key tail 0 isKey
  rw [List.takeWhile_cons_of_neg (by simp [started]), List.dropWhile_cons_of_neg (by simp [started])]
  have unopened : (keyLine 0 key tail :: below).head?.bind (Line.afterMarker? '-') = none :=
    isKey.afterMarker? '-' rfl
  simp only [unopened, List.append_nil, directions]
  exact read

theorem textOfLines_append (lines others : List Line) :
    textOfLines (lines ++ others) = textOfLines lines ++ textOfLines others :=
  List.flatMap_append

theorem ofChars_membersLines {preface : List Line} {members : List (String × Node)}
    (fits : ∀ line ∈ preface, FitsLine line.text) (idle : ∀ line ∈ preface, line.normal.isIdle = true)
    {first : Char} {more : List Char} (starts : textOfLines preface = first :: more)
    (unmarked : first ≠ '\uFEFF') (kept : Node.MembersKept 0 members) (some : members ≠ []) :
    Node.ofChars (textOfLines (preface ++ Node.membersLines 0 members)) =
      .ok (.mapping (Node.membersAsRead members)) := by
  have lines := @linesOf_textOfLines (preface ++ Node.membersLines 0 members)
    (fun line listed => by
      rcases List.mem_append.mp listed with before | own
      · exact fits line before
      · exact (quiet_membersLines members kept line own).fits)
    (by simpa [textOfLines_append, starts] using unmarked)
  have document := @readDocument_membersLines (preface.map Line.normal) members
    (fun line listed => by
      obtain ⟨written, inside, rfl⟩ := List.mem_map.mp listed
      exact idle written inside) kept some
  have resolved := resolve_mapping kept (resolveMembers_memberTrees members kept [])
  rw [Node.ofChars, lines, List.map_append, document]
  change ((Tree.mapping (Node.memberTrees members)).resolve [] >>= _) = _
  rw [resolved]
  rfl

end Reading

end PageHealth.Yaml
