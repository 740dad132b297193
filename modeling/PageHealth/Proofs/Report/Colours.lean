import Mathlib.Data.List.Forall2
import PageHealth.Proofs.Report.Rows

/-! Colours. A coloured text is the plain one with terminal sequences in it that select renditions. Where no
text of the evaluation starts such a sequence by itself, the coloured report without the sequences is the
plain report. -/
namespace PageHealth

def escapeChar : Char := '\x1b'

section Sequences

variable {cs rest behind : List Char} {c : Char}

def isParameter (c : Char) : Bool := isDigit c || c = ';'

/-- What stands behind the sequence at the start of a text, if there is one: an escape character, a bracket,
parameters and the letter of renditions. -/
def afterSequence? : List Char → Option (List Char)
  | '\x1b' :: '[' :: rest =>
    match rest.dropWhile isParameter with
    | 'm' :: behind => some behind
    | _ => none
  | _ => none

theorem length_lt_of_afterSequence? (found : afterSequence? cs = some behind) :
    behind.length < cs.length := by
  unfold afterSequence? at found
  split at found
  · rename_i parameters
    split at found
    · rename_i ends
      have shorter := (List.dropWhile_suffix isParameter (l := parameters)).length_le
      rw [ends, List.length_cons, Option.some.inj found] at shorter
      simp only [List.length_cons]
      omega
    · cases found
  · cases found

/-- A text without its sequences. An escape character that starts none stays. -/
def withoutSequences : List Char → List Char
  | [] => []
  | c :: rest =>
    match _ : afterSequence? (c :: rest) with
    | some behind => withoutSequences behind
    | none => c :: withoutSequences rest
  termination_by cs => cs.length
  decreasing_by
    · exact length_lt_of_afterSequence? ‹_›
    · exact Nat.lt_succ_self _

theorem withoutSequences_of_afterSequence? (found : afterSequence? cs = some behind) :
    withoutSequences cs = withoutSequences behind := by
  cases cs with
  | nil => cases found
  | cons c rest =>
    rw [withoutSequences]
    split
    · rename_i same
      rw [found] at same
      rw [Option.some.inj same]
    · rename_i same
      rw [found] at same
      cases same

theorem withoutSequences_cons (none : afterSequence? (c :: rest) = none) :
    withoutSequences (c :: rest) = c :: withoutSequences rest := by
  rw [withoutSequences]
  split
  · rename_i same
    rw [none] at same
    cases same
  · rfl

theorem afterSequence?_cons_of_ne (other : c ≠ escapeChar) : afterSequence? (c :: rest) = none := by
  unfold afterSequence?
  split
  · rename_i same
    exact absurd (List.cons.inj same).1 other
  · rfl

theorem withoutSequences_append (absent : escapeChar ∉ cs) :
    withoutSequences (cs ++ rest) = cs ++ withoutSequences rest := by
  induction cs with
  | nil => rfl
  | cons c cs ih =>
    rw [List.mem_cons, not_or] at absent
    have here := @afterSequence?_cons_of_ne (cs ++ rest) c (Ne.symm absent.1)
    rw [List.cons_append, withoutSequences_cons here, ih absent.2, List.cons_append]

end Sequences

def uncoloured (text : String) : String := String.ofList (withoutSequences text.toList)

def Unstyled (text : String) : Prop := escapeChar ∉ text.toList

instance (text : String) : Decidable (Unstyled text) := inferInstanceAs (Decidable (_ ∉ _))

/-- The first text is the second with whole sequences in it, so that what stands behind it does not matter. -/
def Shows (coloured text : String) : Prop :=
  ∀ rest, withoutSequences (coloured.toList ++ rest) = text.toList ++ withoutSequences rest

section Showing

variable {coloured coloured' text text' : String}

theorem Shows.uncoloured_eq (shows : Shows coloured text) : uncoloured coloured = text := by
  have whole := shows []
  rw [withoutSequences, List.append_nil, List.append_nil] at whole
  rw [uncoloured, whole, String.ofList_toList]

theorem shows_of_unstyled (unstyled : Unstyled text) : Shows text text :=
  fun _ => withoutSequences_append unstyled

theorem Shows.append (front : Shows coloured text) (back : Shows coloured' text') :
    Shows (coloured ++ coloured') (text ++ text') := by
  intro rest
  rw [String.toList_append, String.toList_append, List.append_assoc, front, back, List.append_assoc]

theorem shows_renditionSequence {number : String} (parameters : number.toList.all isParameter = true) :
    Shows (renditionSequence number) "" := by
  intro rest
  have dropped : (number.toList ++ 'm' :: rest).dropWhile isParameter = 'm' :: rest := by
    rw [List.dropWhile_append_of_pos (List.all_eq_true.mp parameters)]
    rfl
  have listed : (renditionSequence number).toList ++ rest =
      '\x1b' :: '[' :: (number.toList ++ 'm' :: rest) := by
    simp [renditionSequence]
  have found : afterSequence? ('\x1b' :: '[' :: (number.toList ++ 'm' :: rest)) = some rest := by
    simp only [afterSequence?, dropped]
  rw [listed, withoutSequences_of_afterSequence? found, String.toList_empty, List.nil_append]

theorem Style.shows_start (style : Style) : Shows style.start "" := by
  cases style <;> exact shows_renditionSequence (by decide)

theorem Style.shows_stop (style : Style) : Shows style.stop "" := by
  cases style <;> exact shows_renditionSequence (by decide)

theorem Style.shows_paint (style : Style) (shows : Shows coloured text) :
    Shows (style.paint coloured) text := by
  have around := (style.shows_start.append shows).append style.shows_stop
  rwa [String.empty_append, String.append_empty] at around

theorem shows_intercalate {separator : String} (unstyled : Unstyled separator)
    {painted plain : List String} (shown : List.Forall₂ Shows painted plain) :
    Shows (separator.intercalate painted) (separator.intercalate plain) := by
  induction shown with
  | nil => exact shows_of_unstyled (by decide : Unstyled "")
  | cons first others ih =>
    cases others with
    | nil => simpa using first
    | cons second others =>
      simp only [String.intercalate_cons_cons] at ih ⊢
      exact (first.append (shows_of_unstyled unstyled)).append ih

end Showing

section Texts

variable {text other : String} {width : Nat}

@[simp] theorem unstyled_append : Unstyled (text ++ other) ↔ Unstyled text ∧ Unstyled other := by
  simp [Unstyled, not_or]

@[simp] theorem unstyled_digitsText (n : Nat) : Unstyled (digitsText n) := notMem_digitsText rfl n

@[simp] theorem unstyled_pointsText (points : Binary64) : Unstyled (pointsText points) :=
  notMem_pointsText rfl (by decide) points

@[simp] theorem unstyled_padLeft : Unstyled (padLeft width ' ' text) ↔ Unstyled text := by
  have blanks : escapeChar ≠ ' ' := by decide
  simp [padLeft, Unstyled, List.mem_replicate, blanks]

@[simp] theorem unstyled_padRight : Unstyled (padRight width text) ↔ Unstyled text := by
  have blanks : escapeChar ≠ ' ' := by decide
  simp [padRight, Unstyled, List.mem_replicate, blanks]

theorem Unstyled.truncate (unstyled : Unstyled text) (length : Nat) :
    Unstyled (PageHealth.truncate length text) := by
  have start (n : Nat) : Unstyled (String.ofList (text.toList.take n)) := by
    rw [Unstyled, String.toList_ofList]
    exact fun member => unstyled (List.mem_of_mem_take member)
  unfold PageHealth.truncate
  split_ifs
  · exact unstyled
  · exact unstyled_append.mpr ⟨start _, by decide⟩
  · exact start _

@[simp] theorem Severity.unstyled_name (severity : Severity) : Unstyled severity.name := by
  cases severity <;> decide

@[simp] theorem Status.unstyled_name (status : Status) : Unstyled status.name := by
  cases status <;> decide

end Texts

def Evaluation.shownTexts (evaluation : Evaluation Binary64) : List String :=
  evaluation.catalogVersion :: evaluation.categoryScores.map CategoryScore.label ++
    evaluation.recommendations.map Recommendation.message ++
    evaluation.recommendations.map Recommendation.recommendation

section Lines

variable {text : String} {width : Option Nat}

theorem unstyled_fitMessage {message : String} (unstyled : Unstyled message) :
    Unstyled (fitMessage width message) := by
  cases width with
  | none => exact unstyled
  | some width => exact unstyled.truncate _

theorem unstyled_fitAdvice {advice : String} (unstyled : Unstyled advice) :
    Unstyled (fitAdvice width advice) := by
  unfold fitAdvice
  split
  · split_ifs
    · exact unstyled.truncate _
    · exact unstyled
  · exact unstyled

theorem shows_paintPercentage (unstyled : Unstyled text) (percentage : Nat) :
    Shows (paintPercentage text percentage true) (paintPercentage text percentage false) := by
  have plain := shows_of_unstyled unstyled
  unfold paintPercentage
  cases Band.ofPercentage percentage with
  | good => exact Style.green.shows_paint plain
  | fair => exact Style.yellow.shows_paint plain
  | poor => exact Style.red.shows_paint plain

theorem Severity.shows_tag (severity : Severity) : Shows (severity.tag true) (severity.tag false) := by
  have plain : Shows (padRight 6 severity.name) (padRight 6 severity.name) :=
    shows_of_unstyled (by simp)
  cases severity with
  | high => exact Style.bold.shows_paint (Style.red.shows_paint plain)
  | medium => exact Style.yellow.shows_paint plain
  | low => exact Style.dimmed.shows_paint plain

theorem Status.shows_tag (status : Status) : Shows (status.tag true) (status.tag false) := by
  have plain : Shows (padRight 7 status.name) (padRight 7 status.name) :=
    shows_of_unstyled (by simp)
  cases status with
  | pass => exact Style.green.shows_paint plain
  | warning => exact Style.yellow.shows_paint plain
  | fail => exact Style.red.shows_paint plain

theorem CategoryScore.shows_line {score : CategoryScore} (unstyled : Unstyled score.label)
    (labelWidth : Nat) : Shows (score.line labelWidth true) (score.line labelWidth false) := by
  have marks : ∀ text ∈ ["  ", "/", "%"], Unstyled text := by decide
  simp only [List.forall_mem_cons] at marks
  refine (shows_of_unstyled ?columns).append (shows_paintPercentage ?percentage _)
  case columns => simp [unstyled, marks]
  case percentage => simp [marks]

theorem Recommendation.shows_lines {rec : Recommendation Binary64} (message : Unstyled rec.message)
    (advice : Unstyled rec.recommendation) (index : Nat) :
    List.Forall₂ Shows (rec.lines index width true) (rec.lines index width false) := by
  have marks : ∀ text ∈ [" ", "  ", "      ", ".", "-"], Unstyled text := by decide
  simp only [List.forall_mem_cons] at marks
  have blank := shows_of_unstyled marks.1
  have blanks := shows_of_unstyled marks.2.1
  have indent := shows_of_unstyled marks.2.2.1
  have number := Style.dimmed.shows_paint (shows_of_unstyled
    (by simp [marks] : Unstyled (padLeft 2 ' ' (digitsText (index + 1)) ++ ".")))
  have lost := Style.bold.shows_paint (shows_of_unstyled
    (by simp [marks] : Unstyled (padLeft 6 ' ' ("-" ++ pointsText rec.pointsLost))))
  have said := shows_of_unstyled (@unstyled_fitMessage width _ message)
  have advised := Style.dimmed.shows_paint (shows_of_unstyled (@unstyled_fitAdvice width _ advice))
  have tagged := (number.append blank).append rec.severity.shows_tag
  have first := ((((tagged.append blank).append rec.status.shows_tag).append blank).append lost).append
    blanks
  exact .cons (first.append said) (.cons (indent.append advised) .nil)

namespace Evaluation

variable {evaluation : Evaluation Binary64}

theorem shows_healthText (evaluation : Evaluation Binary64) :
    Shows (evaluation.healthText true) (evaluation.healthText false) := by
  have words : ∀ text ∈ ["Health score:", " ", "/100"], Unstyled text := by decide
  simp only [List.forall_mem_cons] at words
  have heading := Style.bold.shows_paint (shows_of_unstyled words.1)
  have score : Unstyled (digitsText evaluation.healthScore ++ "/100") := by simp [words]
  have painted := Style.bold.shows_paint (shows_paintPercentage score evaluation.healthScore)
  exact (heading.append (shows_of_unstyled words.2.1)).append painted

theorem shows_recommendationLines
    (messages : ∀ rec ∈ evaluation.recommendations, Unstyled rec.message)
    (advices : ∀ rec ∈ evaluation.recommendations, Unstyled rec.recommendation) :
    List.Forall₂ Shows (evaluation.recommendationLines width true)
      (evaluation.recommendationLines width false) := by
  have words : ∀ text ∈ ["", "No recommendations. Every rule passed.", "Recommendations (", ")"],
      Unstyled text := by decide
  simp only [List.forall_mem_cons] at words
  cases none : evaluation.recommendations.isEmpty with
  | true =>
    simp only [recommendationLines, none, if_true]
    exact .cons (shows_of_unstyled words.2.1) .nil
  | false =>
    simp only [recommendationLines, none, Bool.false_eq_true, if_false, if_true]
    have heading : Unstyled
        ("Recommendations (" ++ digitsText evaluation.recommendations.length ++ ")") := by simp [words]
    have shown := Style.bold.shows_paint (shows_of_unstyled heading)
    have same : List.Forall₂ (fun a b => a = b ∧ a ∈ evaluation.recommendations.zipIdx)
        evaluation.recommendations.zipIdx evaluation.recommendations.zipIdx :=
      List.forall₂_same.mpr fun _ listed => ⟨rfl, listed⟩
    refine .cons (shows_of_unstyled words.1) (.cons shown (List.rel_flatMap same ?_))
    rintro ⟨rec, index⟩ _ ⟨rfl, listed⟩
    have member : rec ∈ evaluation.recommendations := List.fst_mem_of_mem_zipIdx listed
    exact rec.shows_lines (messages rec member) (advices rec member) index

theorem shows_tableLines (unstyled : ∀ text ∈ evaluation.shownTexts, Unstyled text) :
    List.Forall₂ Shows (evaluation.tableLines width true) (evaluation.tableLines width false) := by
  simp only [shownTexts, List.cons_append, List.forall_mem_cons, List.forall_mem_append,
    List.forall_mem_map] at unstyled
  obtain ⟨version, ⟨labels, messages⟩, advices⟩ := unstyled
  have words : ∀ text ∈ ["", "  (catalog ", ")", " passed, ", " warnings, ", " failed"],
      Unstyled text := by decide
  simp only [List.forall_mem_cons] at words
  have empty := shows_of_unstyled words.1
  have summary : Unstyled evaluation.summaryText := by simp [summaryText, words]
  have rows : List.Forall₂ Shows
      (evaluation.categoryScores.map fun score => score.line evaluation.labelWidth true)
      (evaluation.categoryScores.map fun score => score.line evaluation.labelWidth false) := by
    rw [List.forall₂_map_left_iff, List.forall₂_map_right_iff, List.forall₂_same]
    exact fun score listed => score.shows_line (labels score listed) evaluation.labelWidth
  have last := @shows_recommendationLines width evaluation messages advices
  have opened := evaluation.shows_healthText.append (shows_of_unstyled words.2.1)
  have first := (opened.append (shows_of_unstyled version)).append (shows_of_unstyled words.2.2.1)
  have between := List.Forall₂.cons empty (.cons (shows_of_unstyled summary) .nil)
  exact List.rel_append (List.rel_append (.cons first (.cons empty rows)) between) last

/-- Colours add sequences to the report and nothing else. -/
theorem uncoloured_table (evaluation : Evaluation Binary64) (width : Option Nat)
    (unstyled : ∀ text ∈ evaluation.shownTexts, Unstyled text) :
    uncoloured (evaluation.table true width) = evaluation.table false width := by
  apply Shows.uncoloured_eq
  exact shows_intercalate (by decide) (shows_tableLines unstyled)

def ofGrades : Evaluation Binary64 where
  catalogVersion := "1.0.0"
  healthScore := 72
  categoryScores := [⟨"content", 24, 30, 80, "Content"⟩, ⟨"speed", 12, 25, 48, "Speed & Performance"⟩]
  recommendations :=
    [⟨"size", .medium, "speed", .warning, "HTML document is too large", "Minify markup", .ofNat 4⟩,
      ⟨"https", .high, "security", .fail, "Page is not served over HTTPS", "Redirect to HTTPS",
        .ofNat 10⟩]
  summary := ⟨10, 1, 1⟩
  outcomes := []

theorem uncoloured_table_ofGrades :
    ofGrades.table true (some 40) ≠ ofGrades.table false (some 40) ∧
      uncoloured (ofGrades.table true (some 40)) = ofGrades.table false (some 40) :=
  ⟨by decide +kernel, uncoloured_table ofGrades (some 40) (by decide)⟩

/-- Only sequences that select renditions are taken out. -/
example : uncoloured "\x1b[1;31mHIGH\x1b[0m\x1b[2J" = "HIGH\x1b[2J" := by cbv

end Evaluation

end Lines

end PageHealth
