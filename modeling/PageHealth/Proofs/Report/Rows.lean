import PageHealth.Proofs.Scoring.Agreement
import PageHealth.Proofs.Text.Digits
import PageHealth.Proofs.Text.Split
import PageHealth.Report.Table

namespace PageHealth

def rowsOf (text : String) : List (List String) :=
  (splitAt '\n' text.toList).map fun line => (splitAt '\t' line).map String.ofList

structure IsCell (text : String) : Prop where
  no_tab : '\t' ∉ text.toList
  no_break : '\n' ∉ text.toList

theorem isCell_iff {text : String} : IsCell text ↔ '\t' ∉ text.toList ∧ '\n' ∉ text.toList :=
  ⟨fun cell => ⟨cell.no_tab, cell.no_break⟩, fun ⟨tab, line⟩ => ⟨tab, line⟩⟩

instance (text : String) : Decidable (IsCell text) := decidable_of_iff' _ isCell_iff

section Cells

variable {text other : String}

theorem isCell_append : IsCell (text ++ other) ↔ IsCell text ∧ IsCell other := by
  simp only [isCell_iff, String.toList_append, List.mem_append, not_or]
  tauto

theorem notMem_digitsText {c : Char} (other : isDigit c = false) (n : Nat) : c ∉ (digitsText n).toList := by
  rw [digitsText, String.toList_ofList]
  exact notMem_toDigits other n

theorem isCell_digitsText (n : Nat) : IsCell (digitsText n) :=
  ⟨notMem_digitsText rfl n, notMem_digitsText rfl n⟩

theorem Severity.isCell_name (severity : Severity) : IsCell severity.name := by
  cases severity <;> decide

theorem Status.isCell_name (status : Status) : IsCell status.name := by
  cases status <;> decide

def tenthsMarks : List Char := ['-', '.', 'N', 'a', 'i', 'n', 'f']

theorem notMem_tenthsText {c : Char} (other : isDigit c = false) (apart : c ∉ tenthsMarks)
    (points : Binary64) : c ∉ (tenthsText points).toList := by
  have digits := notMem_digitsText other
  simp only [tenthsMarks, List.mem_cons, List.not_mem_nil, or_false, not_or] at apart
  unfold tenthsText
  split
  · simp [apart]
  · dsimp only
    split_ifs <;> simp [apart, digits]

theorem notMem_pointsText {c : Char} (other : isDigit c = false) (apart : c ∉ tenthsMarks)
    (points : Binary64) : c ∉ (pointsText points).toList := by
  have absent := notMem_tenthsText other apart points
  unfold pointsText
  dsimp only
  split_ifs
  · rw [String.toList_ofList]
    exact fun member => absent (List.mem_of_mem_take member)
  · rwa [String.ofList_toList]

theorem isCell_pointsText (points : Binary64) : IsCell (pointsText points) :=
  ⟨notMem_pointsText rfl (by decide) points, notMem_pointsText rfl (by decide) points⟩

end Cells

section Rows

variable {rows : List (List String)}

theorem splitAt_joined {separator : Char} {texts : List String} (some : texts ≠ [])
    (absent : ∀ text ∈ texts, separator ∉ text.toList) :
    splitAt separator (String.intercalate (String.singleton separator) texts).toList =
      texts.map String.toList := by
  rw [String.toList_intercalate, String.toList_singleton]
  exact splitAt_intercalate (by simpa using some) (List.forall_mem_map.mpr absent)

theorem notMem_joined {separator c : Char} {texts : List String} (apart : c ≠ separator)
    (absent : ∀ text ∈ texts, c ∉ text.toList) :
    c ∉ (String.intercalate (String.singleton separator) texts).toList := by
  rw [String.toList_intercalate, String.toList_singleton]
  intro member
  rcases mem_intercalate member with same | ⟨piece, listed, within⟩
  · exact apart same
  · obtain ⟨text, there, rfl⟩ := List.mem_map.mp listed
    exact absent text there within

/-- Rows come back from their text exactly if no separator stands in a cell. -/
theorem rowsOf_joined_iff (some : rows ≠ []) (full : ∀ row ∈ rows, row ≠ []) :
    rowsOf (String.intercalate "\n" (rows.map (String.intercalate "\t"))) = rows ↔
      ∀ row ∈ rows, ∀ cell ∈ row, IsCell cell := by
  constructor
  · intro same row listed cell within
    -- A piece of a piece has neither of the two separators.
    rw [← same] at listed
    obtain ⟨line, cut, rfl⟩ := List.mem_map.mp listed
    obtain ⟨piece, inside, rfl⟩ := List.mem_map.mp within
    have apart := mem_of_mem_splitAt inside
    rw [isCell_iff, String.toList_ofList]
    exact ⟨fun member => (apart _ member).2 rfl,
      fun member => (mem_of_mem_splitAt cut _ (apart _ member).1).2 rfl⟩
  · intro cells
    have lines : splitAt '\n' (String.intercalate "\n" (rows.map (String.intercalate "\t"))).toList =
        (rows.map (String.intercalate "\t")).map String.toList := by
      refine @splitAt_joined '\n' _ (by simpa using some) (List.forall_mem_map.mpr ?_)
      exact fun row listed => @notMem_joined '\t' '\n' row (by decide)
        fun cell within => (cells row listed cell within).no_break
    have columns : ∀ row ∈ rows,
        (splitAt '\t' (String.intercalate "\t" row).toList).map String.ofList = row := by
      intro row listed
      have cut := @splitAt_joined '\t' row (full row listed)
        fun cell within => (cells row listed cell within).no_tab
      refine (congrArg (List.map String.ofList) cut).trans ?_
      simp
    unfold rowsOf
    rw [lines, List.map_map, List.map_map]
    exact (List.map_congr_left columns).trans (List.map_id rows)

end Rows

section Names

theorem append_cons_cases {β : Type} {separator : β} {front back front' back' : List β}
    (same : front ++ separator :: back = front' ++ separator :: back') :
    (front = front' ∧ back = back') ∨
      (∃ middle, front' = front ++ separator :: middle ∧ back = middle ++ separator :: back') ∨
      ∃ middle, front = front' ++ separator :: middle ∧ back' = middle ++ separator :: back := by
  rcases List.append_eq_append_iff.mp same with ⟨between, rfl, rest⟩ | ⟨between, rfl, rest⟩
  · cases between with
    | nil => exact .inl ⟨(List.append_nil _).symm, (List.cons.inj rest).2⟩
    | cons c middle =>
      obtain ⟨rfl, behind⟩ := List.cons.inj rest
      exact .inr (.inl ⟨middle, rfl, behind⟩)
  · cases between with
    | nil => exact .inl ⟨List.append_nil _, (List.cons.inj rest).2.symm⟩
    | cons c middle =>
      obtain ⟨rfl, behind⟩ := List.cons.inj rest
      exact .inr (.inr ⟨middle, rfl, behind⟩)

variable {category rule category' rule' : String}

/-- Two names of a category and a rule are the same only if one of the category ids goes on with a slash
and takes a piece of the other's rule id with it. -/
theorem name_eq_iff : category ++ "/" ++ rule = category' ++ "/" ++ rule' ↔
    (category = category' ∧ rule = rule') ∨
      (∃ middle, category' = category ++ "/" ++ middle ∧ rule = middle ++ "/" ++ rule') ∨
      ∃ middle, category = category' ++ "/" ++ middle ∧ rule' = middle ++ "/" ++ rule := by
  constructor
  · intro same
    have chars : category.toList ++ '/' :: rule.toList = category'.toList ++ '/' :: rule'.toList := by
      simpa using congrArg String.toList same
    have text {whole front : String} {middle : List Char}
        (split : whole.toList = front.toList ++ '/' :: middle) :
        whole = front ++ "/" ++ String.ofList middle := by
      apply String.toList_inj.mp
      simpa using split
    rcases append_cons_cases chars with ⟨front, back⟩ | ⟨middle, front, back⟩ | ⟨middle, front, back⟩
    · exact .inl ⟨String.toList_inj.mp front, String.toList_inj.mp back⟩
    · refine .inr (.inl ⟨String.ofList middle, text front, ?_⟩)
      apply String.toList_inj.mp
      simpa using back
    · refine .inr (.inr ⟨String.ofList middle, text front, ?_⟩)
      apply String.toList_inj.mp
      simpa using back
  · rintro (⟨rfl, rfl⟩ | ⟨middle, rfl, rfl⟩ | ⟨middle, rfl, rfl⟩)
    · rfl
    · simp only [String.append_assoc]
    · simp only [String.append_assoc]

theorem ne_append_slash (front back : String) : front ≠ front ++ "/" ++ back := by
  intro same
  have length := congrArg String.length same
  rw [String.length_append, String.length_append] at length
  have one : "/".length = 1 := rfl
  omega

/-- The first category id does not become the second by taking over, behind a slash, the part before a
slash of its rule id, so that the rest of that is the second rule id. -/
def SlashesApart (category rule category' rule' : String) : Prop :=
  ∀ middle, category' = category ++ "/" ++ middle → rule ≠ middle ++ "/" ++ rule'

theorem slashesApart_of_notMem (absent : '/' ∉ category'.toList) :
    SlashesApart category rule category' rule' := by
  rintro middle rfl
  exact absurd (by simp) absent

theorem name_ne_iff :
    ((category, rule) ≠ (category', rule') → category ++ "/" ++ rule ≠ category' ++ "/" ++ rule') ↔
      SlashesApart category rule category' rule' ∧ SlashesApart category' rule' category rule := by
  constructor
  · intro apart
    refine ⟨fun middle longer rest => ?_, fun middle longer rest => ?_⟩
    · refine apart (fun same => ?_) (name_eq_iff.mpr (.inr (.inl ⟨middle, longer, rest⟩)))
      exact ne_append_slash category middle ((Prod.mk.inj same).1.trans longer)
    · refine apart (fun same => ?_) (name_eq_iff.mpr (.inr (.inr ⟨middle, longer, rest⟩)))
      exact ne_append_slash category' middle ((Prod.mk.inj same).1.symm.trans longer)
  · rintro ⟨forth, back⟩ apart same
    rcases name_eq_iff.mp same with ⟨rfl, rfl⟩ | ⟨middle, longer, rest⟩ | ⟨middle, longer, rest⟩
    · exact apart rfl
    · exact forth middle longer rest
    · exact back middle longer rest

end Names

def Catalog.missed (catalog : Catalog Binary64) (facts : Facts Binary64) :
    List (Category Binary64 × Rule Binary64) :=
  catalog.entries.filter fun entry => entry.2.status facts ≠ .pass

/-- Cut at line breaks and tabs, the text is the rows again, each of four columns, and recommendations for
different rules have different names in their first column. -/
structure Evaluation.SplitsBack (evaluation : Evaluation Binary64) : Prop where
  rows : rowsOf evaluation.tabSeparated = evaluation.rows
  names : ∀ rec ∈ evaluation.recommendations, ∀ other ∈ evaluation.recommendations,
    (rec.category, rec.id) ≠ (other.category, other.id) → rec.row.head? ≠ other.row.head?

section Evaluations

variable {catalog : Catalog Binary64} {facts : Facts Binary64} {evaluation : Evaluation Binary64}

theorem CategoryScore.forall_row {score : CategoryScore} :
    (∀ cell ∈ score.row, IsCell cell) ↔ IsCell score.id := by
  simp [row, isCell_digitsText]

theorem Recommendation.forall_row {rec : Recommendation Binary64} :
    (∀ cell ∈ rec.row, IsCell cell) ↔ IsCell rec.category ∧ IsCell rec.id := by
  have slash : IsCell "/" := by decide
  simp [row, isCell_append, slash, rec.severity.isCell_name, rec.status.isCell_name,
    isCell_pointsText]

theorem Evaluation.rowsOf_tabSeparated_iff (scored : evaluation.categoryScores ≠ []) :
    rowsOf evaluation.tabSeparated = evaluation.rows ↔
      (∀ score ∈ evaluation.categoryScores, IsCell score.id) ∧
        ∀ rec ∈ evaluation.recommendations, IsCell rec.category ∧ IsCell rec.id := by
  have full : ∀ row ∈ evaluation.rows, row ≠ [] := by
    unfold rows
    rw [List.forall_mem_append, List.forall_mem_map, List.forall_mem_map]
    exact ⟨fun _ _ => List.cons_ne_nil _ _, fun _ _ => List.cons_ne_nil _ _⟩
  refine (rowsOf_joined_iff (by simp [rows, scored]) full).trans ?_
  unfold rows
  rw [List.forall_mem_append, List.forall_mem_map, List.forall_mem_map]
  simp only [CategoryScore.forall_row, Recommendation.forall_row]

theorem Catalog.names_recommendations (catalog : Catalog Binary64) (facts : Facts Binary64) :
    (catalog.evaluate facts).recommendations.map (fun rec => (rec.category, rec.id)) =
      (catalog.missed facts).map fun entry => (entry.1.id, entry.2.id) := by
  have named (entry : Category Binary64 × Rule Binary64) :
      (entry.2.recommend? (catalog.outcomeOf facts entry)).map (fun rec => (rec.category, rec.id)) =
        if entry.2.status facts ≠ .pass then some (entry.1.id, entry.2.id) else none := by
    unfold Rule.recommend?
    rw [(@Catalog.outcomeOf_isOf catalog).status, ite_not]
    split_ifs
    · rfl
    · rfl
  rw [catalog.recommendations_eq_filterMap, List.map_filterMap, missed, ← List.filterMap_eq_map,
    List.filterMap_filter]
  simp only [named, decide_eq_true_eq]
  rfl

theorem Catalog.forall_recommendations {P : String → String → Prop} :
    (∀ rec ∈ (catalog.evaluate facts).recommendations, P rec.category rec.id) ↔
      ∀ entry ∈ catalog.missed facts, P entry.1.id entry.2.id := by
  have names := catalog.names_recommendations facts
  have listed : (∀ name ∈ (catalog.evaluate facts).recommendations.map fun rec => (rec.category, rec.id),
      P name.1 name.2) ↔ ∀ name ∈ (catalog.missed facts).map fun entry => (entry.1.id, entry.2.id),
        P name.1 name.2 := by rw [names]
  simpa only [List.forall_mem_map] using listed

theorem Catalog.mem_categories_of_missed {entry : Category Binary64 × Rule Binary64}
    (listed : entry ∈ catalog.missed facts) : entry.1 ∈ catalog.categories := by
  obtain ⟨category, member, within⟩ := List.mem_flatMap.mp (List.mem_filter.mp listed).1
  obtain ⟨rule, _, rfl⟩ := List.mem_map.mp within
  exact member

theorem Catalog.rowsOf_tabSeparated_iff (some : catalog.categories ≠ []) :
    rowsOf (catalog.evaluate facts).tabSeparated = (catalog.evaluate facts).rows ↔
      (∀ category ∈ catalog.categories, IsCell category.id) ∧
        ∀ entry ∈ catalog.missed facts, IsCell entry.2.id := by
  have ids := catalog.ids_categoryScores facts
  have scored : (catalog.evaluate facts).categoryScores ≠ [] := by
    intro none
    rw [none] at ids
    exact some (List.map_eq_nil_iff.mp ids.symm)
  have categories : (∀ score ∈ (catalog.evaluate facts).categoryScores, IsCell score.id) ↔
      ∀ category ∈ catalog.categories, IsCell category.id := by
    rw [← List.forall_mem_map (P := IsCell), ids, List.forall_mem_map]
  rw [Evaluation.rowsOf_tabSeparated_iff scored, categories,
    Catalog.forall_recommendations (P := fun category rule => IsCell category ∧ IsCell rule)]
  refine and_congr_right fun cells => forall₂_congr fun entry listed => ?_
  exact and_iff_right (cells _ (Catalog.mem_categories_of_missed listed))

theorem Catalog.names_ne_iff :
    (∀ rec ∈ (catalog.evaluate facts).recommendations,
      ∀ other ∈ (catalog.evaluate facts).recommendations,
        (rec.category, rec.id) ≠ (other.category, other.id) → rec.row.head? ≠ other.row.head?) ↔
      ∀ entry ∈ catalog.missed facts, ∀ other ∈ catalog.missed facts,
        SlashesApart entry.1.id entry.2.id other.1.id other.2.id := by
  have heads (rec other : Recommendation Binary64) : rec.row.head? ≠ other.row.head? ↔
      rec.category ++ "/" ++ rec.id ≠ other.category ++ "/" ++ other.id := not_congr Option.some_inj
  simp only [heads, name_ne_iff]
  rw [Catalog.forall_recommendations (P := fun category rule =>
    ∀ other ∈ (catalog.evaluate facts).recommendations,
      SlashesApart category rule other.category other.id ∧
        SlashesApart other.category other.id category rule)]
  have seconds (entry : Category Binary64 × Rule Binary64) :=
    @Catalog.forall_recommendations catalog facts fun category rule =>
      SlashesApart entry.1.id entry.2.id category rule ∧
        SlashesApart category rule entry.1.id entry.2.id
  simp only [seconds]
  exact ⟨fun both entry listed other there => (both entry listed other there).1,
    fun apart entry listed other there =>
      ⟨apart entry listed other there, apart other there entry listed⟩⟩

/-- The rows come back exactly if no id that is written has a tab or a line break; names are distinct
exactly if no piece between slashes can stand in the category id of one recommendation as well as in the
rule id of another. -/
theorem Catalog.splitsBack_iff (catalog : Catalog Binary64) (accepted : catalog.problems = [])
    (facts : Facts Binary64) :
    (catalog.evaluate facts).SplitsBack ↔
      ((∀ category ∈ catalog.categories, IsCell category.id) ∧
        ∀ entry ∈ catalog.missed facts, IsCell entry.2.id) ∧
      ∀ entry ∈ catalog.missed facts, ∀ other ∈ catalog.missed facts,
        SlashesApart entry.1.id entry.2.id other.1.id other.2.id := by
  have some := (Catalog.problems_eq_nil_iff.mp accepted).categories_nonempty
  constructor
  · rintro ⟨rows, names⟩
    exact ⟨(Catalog.rowsOf_tabSeparated_iff some).mp rows, Catalog.names_ne_iff.mp names⟩
  · rintro ⟨cells, apart⟩
    exact ⟨(Catalog.rowsOf_tabSeparated_iff some).mpr cells, Catalog.names_ne_iff.mpr apart⟩

def Catalog.ofIds (ids : List (String × String)) : Catalog Binary64 where
  version := "1.0.0"
  engine := ""
  scoring := Scoring.standard
  categories := ids.map fun (category, rule) => ⟨category, "", 10,
    [⟨rule, .high, "", "", some [⟨"page.title", "equals", .text "Home"⟩], none⟩]⟩

/-- Slashes in rule ids do no harm by themselves. -/
theorem Catalog.splitsBack_ofIds :
    (ofIds [("seo", "title/length"), ("speed", "title/length")]).problems = [] ∧
      ((ofIds [("seo", "title/length"), ("speed", "title/length")]).evaluate Facts.empty).SplitsBack := by
  have accepted : (ofIds [("seo", "title/length"), ("speed", "title/length")]).problems = [] :=
    List.isEmpty_iff.mp (by decide +kernel)
  refine ⟨accepted, (Catalog.splitsBack_iff _ accepted Facts.empty).mpr ⟨⟨?_, ?_⟩, ?_⟩⟩
  · decide +kernel
  · decide +kernel
  · have absent : ∀ entry ∈ (ofIds [("seo", "title/length"), ("speed", "title/length")]).missed
        Facts.empty, '/' ∉ entry.1.id.toList := by decide +kernel
    exact fun entry _ other listed => slashesApart_of_notMem (absent other listed)

/-- A tab in an id makes a fifth column, and a slash in two ids makes one name out of two. -/
theorem Catalog.not_splitsBack_ofIds :
    ((ofIds [("seo\tbasics", "title")]).problems = [] ∧
      ¬ ((ofIds [("seo\tbasics", "title")]).evaluate Facts.empty).SplitsBack) ∧
    (ofIds [("seo/title", "length"), ("seo", "title/length")]).problems = [] ∧
      ¬ ((ofIds [("seo/title", "length"), ("seo", "title/length")]).evaluate
        Facts.empty).SplitsBack := by
  refine ⟨⟨List.isEmpty_iff.mp (by decide +kernel), ?_⟩, List.isEmpty_iff.mp (by decide +kernel), ?_⟩
  · rintro ⟨rows, _⟩
    revert rows
    decide +kernel
  · rintro ⟨_, names⟩
    revert names
    decide +kernel

end Evaluations

end PageHealth
