import PageHealth.Proofs.Yaml.Folded

namespace PageHealth.Yaml

section Leaves

variable {fuel least leastItem column : Nat} {cs : List Char} {below rest : List Line}

theorem Properties.read_cons {c : Char} (noAnchor : c ≠ '&') (noTag : c ≠ '!') (cs : List Char) :
    Properties.read (c :: cs) = .ok (⟨none, none⟩, c :: cs) := by
  have one : Properties.readOne ⟨none, none⟩ (c :: cs) = .ok (⟨none, none⟩, c :: cs) := by
    unfold Properties.readOne
    split
    · rename_i same
      exact absurd (List.cons.inj same).1 noAnchor
    · rename_i same
      exact absurd (List.cons.inj same).1 noTag
    · rfl
  unfold Properties.read
  rw [one]
  exact one

theorem nodeHere_leaf {c : Char} (noAnchor : c ≠ '&') (noTag : c ≠ '!') (noComment : c ≠ '#') :
    nodeHere (fuel + 1) least leastItem ⟨c :: cs, below⟩ =
      leaf fuel least ⟨none, none⟩ ⟨c :: cs, below⟩ := by
  rw [nodeHere, Properties.read_cons noAnchor noTag]
  change (if _ then _ else _) = _
  rw [if_neg (by simp [noComment])]

theorem closed_nil (tree : Tree) : closed ⟨none, none⟩ tree ⟨[], below⟩ = .ok (tree, below) := by
  cases tree <;> rfl

theorem leaf_double :
    leaf fuel least ⟨none, none⟩ ⟨doubleQuoted cs, below⟩ =
      .ok (.scalar false none (String.ofList cs), below) := by
  change (readQuoted true least ⟨cs.flatMap spellChar ++ ['"'], below⟩ >>= fun p =>
    closed ⟨none, none⟩ (.scalar false none (String.ofList p.1)) p.2) = _
  rw [readQuoted_doubleQuoted]
  exact closed_nil _

theorem leaf_single {c : Char} (solid : c ≠ ' ') (solid' : c ≠ '\t') (unquoted : c ≠ '\'') :
    leaf fuel least ⟨none, none⟩ ⟨['\'', c, '\''], below⟩ =
      .ok (.scalar false none (String.ofList [c]), below) := by
  change (readQuoted false least ⟨[c, '\''], below⟩ >>= fun p =>
    closed ⟨none, none⟩ (.scalar false none (String.ofList p.1)) p.2) = _
  rw [readQuoted_singleQuoted solid solid' unquoted]
  exact closed_nil _

theorem leaf_block {folded : Bool} {signs : List Char} {header : BlockHeader}
    (signed : BlockHeader.read folded signs = .ok header)
    (text : header.readText least below = .ok (cs, rest)) :
    leaf fuel least ⟨none, none⟩ ⟨(if folded then '>' else '|') :: signs, below⟩ =
      .ok (.scalar false none (String.ofList cs), rest) := by
  have opened : leaf fuel least ⟨none, none⟩ ⟨(if folded then '>' else '|') :: signs, below⟩ =
      (BlockHeader.read folded signs >>= fun header => header.readText least below >>= fun p =>
        closed ⟨none, none⟩ (.scalar false none (String.ofList p.1)) ⟨[], p.2⟩) := by
    cases folded <;> rfl
  rw [opened, signed]
  change (header.readText least below >>= _) = _
  rw [text]
  exact closed_nil _

theorem continuePlain_of_ends (ends : Ends least rest) :
    continuePlain false least 0 rest = ([], ⟨[], rest⟩) := by
  cases rest with
  | nil => rfl
  | cons line below =>
    obtain ⟨told, low⟩ := ends line rfl
    have shown : line.isBlank = false := (Bool.or_eq_false_iff.mp told).1
    rw [continuePlain, if_neg (by simp [shown]), if_pos (.inl low)]

theorem ReadsPlain.readPlain (plain : ReadsPlain cs) (ends : Ends least rest) :
    readPlain false least ⟨cs, rest⟩ = (trimEnd cs, ⟨[], rest⟩) := by
  simp only [Yaml.readPlain, plain.whole, continuePlain_of_ends ends, List.append_nil]

theorem ReadsPlain.head (plain : ReadsPlain cs) : ∃ c others, cs = c :: others ∧
    ∀ d ∈ ['|', '>', '"', '\'', '[', '\x7b', '*', '&', '!', '#', ' ', '\t'], c ≠ d := by
  have starts := plain.starts
  cases cs with
  | nil => cases starts
  | cons c others =>
    refine ⟨c, others, rfl, fun d member same => ?_⟩
    subst same
    have stops : ∀ d ∈ ['|', '>', '"', '\'', '[', '\x7b', '*', '&', '!', '#', ' ', '\t'],
        ¬ (d = '-' ∨ d = '?' ∨ d = ':') ∧ (!isSpace d && !isIndicator d) = false :=
      List.all_iff_forall_prop.mp (by decide)
    obtain ⟨notMark, stopped⟩ := stops c member
    rw [startsPlain, if_neg notMark, stopped] at starts
    cases starts

theorem leaf_plain (plain : ReadsPlain cs) (ends : Ends least rest) :
    leaf fuel least ⟨none, none⟩ ⟨cs, rest⟩ =
      .ok (.scalar true none (String.ofList (trimEnd cs)), rest) := by
  obtain ⟨c, others, rfl, apart⟩ := plain.head
  simp only [List.forall_mem_cons] at apart
  obtain ⟨bar, angle, double, single, bracket, brace, star, _⟩ := apart
  unfold leaf
  simp only [bar, angle, double, single, bracket, brace, star, or_self, if_false, plain.starts,
    if_true, plain.readPlain ends]
  exact closed_nil _

theorem nodeHere_plain (plain : ReadsPlain cs) (ends : Ends least rest) :
    nodeHere (fuel + 1) least leastItem ⟨cs, rest⟩ =
      .ok (.scalar true none (String.ofList (trimEnd cs)), rest) := by
  have read := @leaf_plain fuel least cs rest plain ends
  obtain ⟨c, others, rfl, apart⟩ := plain.head
  rw [nodeHere_leaf (apart _ (by decide)) (apart _ (by decide)) (apart _ (by decide)), read]

end Leaves

section Texts

def isBare (text : String) : Bool :=
  !text.toList.contains '\n' && !(text = "." || text = "#" || text = "-") &&
    isPlainSafe text.toList && text.toList.length ≤ wrapWidth

def isLongBlock (column : Nat) (cs : List Char) : Bool :=
  cs.contains '\n' && wrapWidth < cs.length && (!isIndented cs || column ≤ 9)

/-- Whether a text that is written as a long block has one. A block cannot spell characters that end
lines or texts, nor line breaks with no text between them, and below the top level the digit for an
indentation counts from the key and is not the column. -/
def fitsBlock (column : Nat) (text : String) : Bool :=
  !isLongBlock column text.toList ||
    (text.toList.all (fun c => c ≠ '\r' && c.toNat ≠ 0) && text.toList.any (· ≠ '\n') &&
      (!isIndented text.toList || column = 2))

/-- The text that is read for a text: without quotes, spaces at its end are lost. -/
def readBack (text : String) : String :=
  if isBare text then String.ofList (trimEnd text.toList) else text

def keepsText (text : String) : Bool := !isBare text || text.toList.getLast? ≠ some ' '

theorem isPlainSafe_of_isBare {text : String} (bare : isBare text = true) :
    isPlainSafe text.toList = true := by
  simp only [isBare, Bool.and_eq_true] at bare
  exact bare.1.2

theorem readBack_eq_iff {text : String} : readBack text = text ↔ keepsText text = true := by
  unfold readBack keepsText
  cases bare : isBare text with
  | false => simp
  | true =>
    have kept := trimEnd_eq_iff (isPlainSafe_of_isBare bare)
    rw [if_pos rfl, ← String.toList_inj, String.toList_ofList, kept]
    simp

structure KeepsLines (column : Nat) (cs : List Char) : Prop where
  fits : ∀ c ∈ cs, c ≠ '\r' ∧ c.toNat ≠ 0
  full : ∃ c ∈ cs, c ≠ '\n'
  indented : isIndented cs = true → column = 2

theorem keepsLines_of_joinLines {column : Nat} {cs : List Char}
    (safe : isPlainSafe (joinLines cs) = true) : KeepsLines column cs := by
  have joined : joinLines cs = (beforeBreaks cs).map fun c => if c = '\n' then ' ' else c := by
    rw [joinLines, beforeBreaks_eq]
  simp only [isPlainSafe, Bool.and_eq_true, Bool.not_eq_true'] at safe
  obtain ⟨⟨⟨_, starts⟩, structured⟩, _⟩ := safe
  have shown := not_isControl_of_keepsStructure structured
  have whole := beforeBreaks_append cs
  rw [joined] at starts shown
  cases same : beforeBreaks cs with
  | nil =>
    rw [same] at starts
    cases starts
  | cons b bs =>
    rw [same] at starts shown whole
    have solid : b ≠ '\n' ∧ b ≠ ' ' := by
      simp only [List.map_cons, startsQuoted, Bool.or_eq_false_iff] at starts
      constructor
      · rintro rfl
        exact absurd starts.1.1.1 (by decide)
      · rintro rfl
        exact absurd starts.1.1.1 (by decide)
    refine ⟨fun c member => ?_, ⟨b, whole ▸ List.mem_append_left _ List.mem_cons_self, solid.1⟩, fun indented => ?_⟩
    · by_cases feed : c = '\n'
      · subst feed
        decide
      · rw [← whole, List.mem_append, List.mem_replicate] at member
        have inside := member.resolve_right fun last => feed last.2
        have listed : c ∈ (b :: bs).map fun c => if c = '\n' then ' ' else c :=
          List.mem_map.mpr ⟨c, inside, if_neg feed⟩
        exact (fits_of_not_isControl (shown c listed)).2
    · rw [isIndented, ← whole, List.cons_append, List.dropWhile_cons_of_neg (by simpa using solid.1)]
        at indented
      exact absurd (by simpa using indented) solid.2

variable {fuel least leastItem column : Nat} {text : String} {rest : List Line}

theorem nodeHere_literalBlock {cs : List Char} (ends : Ends least rest) (wide : least ≤ column)
    (top : column = 2 → least = 1) (keeps : isIndented cs = false ∨ column ≤ 9 → KeepsLines column cs) :
    nodeHere (fuel + 1) least leastItem
        ⟨(literalBlock column cs).here, blockLines column (literalBlock column cs).below ++ rest⟩ =
      .ok (.scalar false none (String.ofList cs), rest) := by
  rw [literalBlock_eq]
  split_ifs with solid digit
  · have solid : isIndented cs = false := by simpa using solid
    have full := (keeps (.inl solid)).full
    have text := @readText_blockLines column least (literalLines cs) rest
      ⟨false, literalChomping (endingBreaks cs), none⟩ ends wide
      (.inl ⟨rfl, (startsIndented_literalLines cs).trans solid, exists_mem_literalLines full⟩)
    rw [textOf_literalBlock full] at text
    rw [nodeHere_leaf (by decide) (by decide) (by decide)]
    exact @leaf_block fuel least cs _ rest false _ _ (read_literalSign _) text
  · have kept := keeps (.inr digit)
    obtain rfl := kept.indented (by simpa using solid)
    have text := @readText_blockLines 2 least (literalLines cs) rest
      ⟨false, literalChomping (endingBreaks cs), some 2⟩ ends wide (.inr ⟨2, rfl, by rw [top rfl]⟩)
    rw [textOf_literalBlock kept.full] at text
    rw [List.cons_append, nodeHere_leaf (by decide) (by decide) (by decide)]
    exact @leaf_block fuel least cs _ rest false _ _ (read_two_literalSign _) text
  · change nodeHere (fuel + 1) least leastItem ⟨'"' :: _, rest⟩ = _
    rw [nodeHere_leaf (by decide) (by decide) (by decide)]
    exact leaf_double

theorem wraps_of_isPlainSafe {cs : List Char} (safe : isPlainSafe cs = true) :
    Wraps (wrap cs) cs := by
  simp only [isPlainSafe, Bool.and_eq_true, Bool.not_eq_true'] at safe
  obtain ⟨⟨⟨_, solid⟩, structured⟩, _⟩ := safe
  refine wraps_wrap (solid_of_startsQuoted solid) fun c member same => ?_
  have shown := not_isControl_of_keepsStructure structured c member
  rw [same] at shown
  cases shown

/-- The styles of a text, with what the choice of each tells about it. -/
inductive Style (column : Nat) (text : String) : Spelling → Bool → Prop where
  | literal (short : isLongBlock column text.toList = false →
        isIndented text.toList = false ∨ column ≤ 9 → KeepsLines column text.toList) :
      Style column text (literalBlock column text.toList) false
  | double : Style column text (.inline (doubleQuoted text.toList)) false
  | single (c : Char) (alone : text.toList = [c]) (plain : c ∈ ['.', '#', '-']) :
      Style column text (.inline ['\'', c, '\'']) false
  | folded (safe : isPlainSafe text.toList = true) : Style column text (foldedBlock text.toList) false
  | bare (safe : isPlainSafe text.toList = true) (single : isLongBlock column text.toList = false) :
      Style column text (.inline text.toList) true

theorem style_spell (column : Nat) (text : String) :
    Style column text (spell column text) (isBare text) := by
  unfold spell isBare
  dsimp only
  by_cases feed : text.toList.contains '\n' = true
  · rw [if_pos feed, feed]
    split_ifs with block
    · refine .literal fun short drawn => ?_
      by_cases wide : wrapWidth < text.toList.length
      · simp only [isLongBlock, feed, wide, decide_true, Bool.and_self, Bool.true_and,
          Bool.or_eq_false_iff, Bool.not_eq_false', decide_eq_false_iff_not] at short
        rcases drawn with solid | digit
        · rw [solid] at short
          cases short.1
        · exact absurd digit short.2
      · exact keepsLines_of_joinLines (by simpa [wide] using block)
    · exact .double
  · have oneLine : text.toList.contains '\n' = false := by simpa using feed
    rw [if_neg feed, oneLine]
    by_cases mark : text = "." ∨ text = "#" ∨ text = "-"
    · rw [if_pos mark]
      rcases mark with rfl | rfl | rfl <;> exact .single _ rfl (by decide)
    · rw [if_neg mark]
      simp only [not_or] at mark
      simp only [mark, decide_false, Bool.or_self, Bool.not_false, Bool.true_and]
      by_cases safe : isPlainSafe text.toList = true
      · rw [if_pos safe, safe]
        split_ifs with wide
        · rw [decide_eq_false (Nat.not_le_of_lt wide)]
          exact .folded safe
        · rw [decide_eq_true (Nat.le_of_not_lt wide)]
          exact .bare safe (by rw [isLongBlock, oneLine, Bool.false_and, Bool.false_and])
      · rw [if_neg safe]
        simpa [safe] using Style.double

theorem KeepsLines.of_fitsBlock {column : Nat} {text : String} (block : fitsBlock column text = true)
    (long : isLongBlock column text.toList = true) : KeepsLines column text.toList := by
  simp only [fitsBlock, long, Bool.not_true, Bool.false_or, Bool.and_eq_true, List.all_eq_true,
    List.any_eq_true, decide_eq_true_eq, Bool.or_eq_true, Bool.not_eq_true'] at block
  obtain ⟨⟨fits, full⟩, top⟩ := block
  refine ⟨fits, full, fun indented => top.resolve_left ?_⟩
  simp [indented]

theorem keepsLines_of_drawn (block : fitsBlock column text = true)
    (short : isLongBlock column text.toList = false →
      isIndented text.toList = false ∨ column ≤ 9 → KeepsLines column text.toList)
    (drawn : isIndented text.toList = false ∨ column ≤ 9) : KeepsLines column text.toList := by
  by_cases long : isLongBlock column text.toList = true
  · exact .of_fitsBlock block long
  · exact short (by simpa using long) drawn

theorem nodeHere_spell (ends : Ends least rest) (wide : least ≤ column) (top : column = 2 → least = 1)
    (block : fitsBlock column text = true) :
    nodeHere (fuel + 1) least leastItem
        ⟨(spell column text).here, blockLines column (spell column text).below ++ rest⟩ =
      .ok (.scalar (isBare text) none (readBack text), rest) := by
  have style := style_spell column text
  unfold readBack
  generalize spell column text = spelling at *
  generalize isBare text = bare at *
  cases style with
  | literal short =>
    rw [nodeHere_literalBlock ends wide top (keepsLines_of_drawn block short),
      String.ofList_toList]
    rfl
  | double =>
    change nodeHere (fuel + 1) least leastItem ⟨'"' :: _, rest⟩ = _
    have read := @leaf_double fuel least text.toList rest
    rw [String.ofList_toList] at read
    rw [nodeHere_leaf (by decide) (by decide) (by decide)]
    exact read
  | single c alone plain =>
    have apart : ∀ d ∈ ['.', '#', '-'], d ≠ ' ' ∧ d ≠ '\t' ∧ d ≠ '\'' :=
      List.all_iff_forall_prop.mp (by decide)
    obtain ⟨solid, solid', unquoted⟩ := apart c plain
    have read := @leaf_single fuel least rest c solid solid' unquoted
    rw [← alone, String.ofList_toList] at read
    change nodeHere (fuel + 1) least leastItem ⟨['\'', c, '\''], rest⟩ = _
    rw [nodeHere_leaf (by decide) (by decide) (by decide)]
    exact read
  | folded safe =>
    have wraps := wraps_of_isPlainSafe safe
    have text' := @readText_blockLines column least (wrap text.toList) rest ⟨true, .strip, none⟩ ends
      wide (.inl ⟨rfl, wraps.startsIndented, wraps.exists_ne_nil⟩)
    rw [textOf_folded wraps] at text'
    have read := @leaf_block fuel least _ _ rest true ['-'] _ rfl text'
    rw [String.ofList_toList] at read
    change nodeHere (fuel + 1) least leastItem ⟨['>', '-'], _⟩ = _
    rw [nodeHere_leaf (by decide) (by decide) (by decide)]
    exact read
  | bare safe short =>
    change nodeHere (fuel + 1) least leastItem ⟨text.toList, rest⟩ = _
    exact nodeHere_plain (readsPlain_of_isPlainSafe safe) ends

structure Spelling.Stands (spelling : Spelling) : Prop where
  solid : Solid spelling.here
  fitsHere : FitsLine spelling.here
  fitsBelow : ∀ line ∈ spelling.below, FitsLine line

theorem fitsLine_literalSign (breaks : Nat) : FitsLine (literalSign breaks) := by
  unfold literalSign
  split <;> decide

theorem stands_inline {cs : List Char} (solid : Solid cs) (fits : FitsLine cs) :
    (Spelling.inline cs).Stands :=
  ⟨solid, fits, fun _ member => absurd member List.not_mem_nil⟩

theorem stands_doubleQuoted (cs : List Char) : (Spelling.inline (doubleQuoted cs)).Stands :=
  stands_inline ⟨'"', _, rfl, rfl⟩ (fitsLine_doubleQuoted cs)

theorem stands_literalBlock {cs : List Char}
    (keeps : isIndented cs = false ∨ column ≤ 9 → KeepsLines column cs) :
    (literalBlock column cs).Stands := by
  rw [literalBlock_eq]
  split_ifs with solid digit
  · have kept := keeps (.inl (by simpa using solid))
    exact ⟨⟨'|', _, rfl, rfl⟩, .cons (by decide) (fitsLine_literalSign _),
      fitsLine_literalLines kept.fits⟩
  · have kept := keeps (.inr digit)
    obtain rfl := kept.indented (by simpa using solid)
    exact ⟨⟨'|', _, rfl, rfl⟩, .cons (by decide) (.cons (by decide) (fitsLine_literalSign _)),
      fitsLine_literalLines kept.fits⟩
  · exact stands_doubleQuoted cs

theorem stands_spell (block : fitsBlock column text = true) : (spell column text).Stands := by
  have style := style_spell column text
  generalize spell column text = spelling at *
  generalize isBare text = bare at *
  cases style with
  | literal short => exact stands_literalBlock (keepsLines_of_drawn block short)
  | double => exact stands_doubleQuoted _
  | single c alone plain =>
    refine stands_inline ⟨'\'', _, rfl, rfl⟩ (.cons (by decide) (.cons ?_ (by decide)))
    have fits : ∀ d ∈ ['.', '#', '-'], d ≠ '\n' ∧ d ≠ '\r' ∧ d.toNat ≠ 0 :=
      List.all_iff_forall_prop.mp (by decide)
    exact fits c plain
  | folded safe =>
    have wraps := wraps_of_isPlainSafe safe
    refine ⟨⟨'>', _, rfl, rfl⟩, .cons (by decide) (.cons (by decide) (by decide)),
      fun line member c within => ?_⟩
    have inside := mem_foldText wraps.solid member within
    rw [wraps.folded] at inside
    exact fitsLine_of_isPlainSafe safe c inside
  | bare safe =>
    refine stands_inline ?_ (fitsLine_of_isPlainSafe safe)
    simp only [isPlainSafe, Bool.and_eq_true, Bool.not_eq_true'] at safe
    exact solid_of_startsQuoted safe.1.1.2

end Texts

end PageHealth.Yaml
