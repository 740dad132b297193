import PageHealth.Proofs.Scoring.Bounds
import PageHealth.Report.Table

namespace PageHealth

section Texts

variable {width : Nat} {text : String}

@[simp] theorem length_padLeft (fill : Char) :
    (padLeft width fill text).length = max width text.length := by
  rw [padLeft, String.length_append, String.length_ofList, List.length_replicate]
  omega

@[simp] theorem length_padRight : (padRight width text).length = max width text.length := by
  rw [padRight, String.length_append, String.length_ofList, List.length_replicate]
  omega

theorem length_digitsText_le_iff {n k : Nat} (positive : 0 < k) : (digitsText n).length ≤ k ↔ n < 10 ^ k := by
  rw [digitsText, String.length_ofList]
  exact Nat.length_toDigits_le_iff (by decide) positive

theorem length_truncate (length : Nat) (text : String) :
    (truncate length text).length = min length text.length := by
  have dots : "...".length = 3 := rfl
  unfold truncate
  split_ifs with fits room
  · omega
  · rw [String.length_append, String.length_ofList, List.length_take, String.length_toList, dots]
    omega
  · rw [String.length_ofList, List.length_take, String.length_toList]

/-- A text is shown whole where there is room for it, and else a beginning of it with dots behind. -/
structure ShownIn (room : Nat) (text shown : String) : Prop where
  whole : text.length ≤ room → shown = text
  cut : room < text.length → ∃ start, start.toList <+: text.toList ∧ shown = start ++ "..."

theorem shownIn_truncate {room : Nat} (dots : 3 < room) (text : String) :
    ShownIn room text (truncate room text) := by
  constructor
  · exact fun fits => if_pos fits
  · intro long
    refine ⟨String.ofList (text.toList.take (room - 3)), ?_, ?_⟩
    · rw [String.toList_ofList]
      exact List.take_prefix _ _
    · rw [truncate, if_neg (by omega), if_pos dots]

end Texts

section Points

/-- How many tenths of a point the report shows, for a number that is not negative. -/
def Binary64.tenths : Binary64 → Nat
  | .nan => 0
  | .signed _ rank => divNearestEven (10 * units rank) unitsPerOne

theorem Binary64.HasRank.tenths_eq {x : Binary64} {rank : Nat} (located : x.HasRank rank) :
    x.tenths = divNearestEven (10 * units rank) unitsPerOne := by
  rcases located.cases with ⟨small, rfl⟩ | ⟨rfl, rfl⟩
  · rfl
  · rfl

theorem Binary64.tenths_le_tenths {x y : Binary64} (nonneg : 0 ≤ x) (ordered : x ≤ y) :
    x.tenths ≤ y.tenths := by
  obtain ⟨a, ha⟩ := nonneg_iff.mp nonneg
  obtain ⟨b, hb⟩ := nonneg_iff.mp (Binary64.le_trans nonneg ordered)
  have ranks := units_le_units_iff.mpr ((ha.le_iff hb).mp ordered)
  rw [ha.tenths_eq, hb.tenths_eq]
  apply divNearestEven_mono unitsPerOne_pos unitsPerOne_pos
  exact Nat.mul_le_mul_right _ (Nat.mul_le_mul_left _ ranks)

/-- Points that fit in their column: below a thousand, or whole and below a hundred thousand. -/
def FitsColumn (points : Binary64) : Prop :=
  points.tenths < 10000 ∨ points.tenths % 10 = 0 ∧ points.tenths < 1000000

theorem pointsText_of_tenthsText {points : Binary64} {tenths : Nat}
    (text : tenthsText points = digitsText (tenths / 10) ++ "." ++ digitsText (tenths % 10)) :
    pointsText points = if tenths % 10 = 0 then digitsText (tenths / 10)
      else digitsText (tenths / 10) ++ "." ++ digitsText (tenths % 10) := by
  have last : Nat.toDigits 10 (tenths % 10) = [(tenths % 10).digitChar] :=
    Nat.toDigits_of_lt_base (Nat.mod_lt _ (by decide))
  have listed : (tenthsText points).toList =
      Nat.toDigits 10 (tenths / 10) ++ ['.', (tenths % 10).digitChar] := by
    rw [text, digitsText, digitsText, last]
    simp
  have zero : (tenths % 10).digitChar = '0' ↔ tenths % 10 = 0 := by
    have digits : ∀ d < 10, Nat.digitChar d = '0' ↔ d = 0 := by decide
    exact digits _ (Nat.mod_lt _ (by decide))
  have ends : ['.', '0'].isSuffixOf (tenthsText points).toList = true ↔ tenths % 10 = 0 := by
    rw [listed, List.isSuffixOf_iff_suffix, ← zero]
    constructor
    · rintro ⟨front, same⟩
      have ends := (List.append_inj' same rfl).2
      simpa using ends.symm
    · intro same
      rw [same]
      exact List.suffix_append _ _
  unfold pointsText
  by_cases whole : tenths % 10 = 0
  · rw [if_pos whole, if_pos (ends.mpr whole), listed]
    simp [digitsText]
  · rw [if_neg whole, if_neg (mt ends.mp whole), String.ofList_toList, text]

theorem tenthsText_signed {rank : Fin (infiniteRank + 1)} (finite : rank.val ≠ infiniteRank) :
    tenthsText (.signed false rank) =
      digitsText ((Binary64.signed false rank).tenths / 10) ++ "." ++
        digitsText ((Binary64.signed false rank).tenths % 10) := by
  simp only [tenthsText, Binary64.tenths, if_neg finite, Bool.false_eq_true, if_false]

theorem length_pointsText_le_iff {points : Binary64} (nonneg : 0 ≤ points)
    (finite : points.isFinite = true) : (pointsText points).length ≤ 5 ↔ FitsColumn points := by
  obtain ⟨rank, located⟩ := Binary64.nonneg_iff.mp nonneg
  have below := located.isFinite_iff.mp finite
  rcases located.cases with ⟨small, rfl⟩ | ⟨rfl, rfl⟩
  · have shown := pointsText_of_tenthsText (@tenthsText_signed ⟨rank, small⟩ (Nat.ne_of_lt below))
    rw [shown, FitsColumn]
    generalize (Binary64.signed false ⟨rank, small⟩).tenths = tenths
    split_ifs with whole
    · rw [length_digitsText_le_iff (by decide)]
      omega
    · have last : (digitsText (tenths % 10)).length = 1 := by
        rw [digitsText, Nat.toDigits_of_lt_base (Nat.mod_lt _ (by decide)), String.length_ofList]
        rfl
      have first := @length_digitsText_le_iff (tenths / 10) 3 (by decide)
      have point : ".".length = 1 := rfl
      rw [String.length_append, String.length_append, last, point]
      omega
  · refine iff_of_true ?_ (.inl ?_)
    · decide +kernel
    · decide +kernel

end Points

/-- Points that a recommendation for a page can lose by an accepted catalog. -/
def IsLoss (points : Binary64) : Prop :=
  ∃ (catalog : Catalog Binary64) (facts : Facts Binary64), catalog.problems = [] ∧
    ∃ rec ∈ (catalog.evaluate facts).recommendations, rec.pointsLost = points

theorem IsLoss.length_pointsText_le_iff {points : Binary64} (loss : IsLoss points) :
    (pointsText points).length ≤ 5 ↔ FitsColumn points := by
  obtain ⟨catalog, facts, accepted, rec, listed, rfl⟩ := loss
  have sound := Catalog.sound_of_problems_eq_nil accepted
  obtain ⟨_, _, _, _, _, nonneg, _⟩ := sound.recommendation_bounds listed
  exact PageHealth.length_pointsText_le_iff nonneg (sound.isFinite_pointsLost listed)

namespace Recommendation

variable {rec : Recommendation Binary64} {index width : Nat}

def columns (index : Nat) (rec : Recommendation Binary64) : String :=
  padLeft 2 ' ' (digitsText (index + 1)) ++ "." ++ " " ++ padRight 6 rec.severity.name ++ " " ++
    padRight 7 rec.status.name ++ " " ++ padLeft 6 ' ' ("-" ++ pointsText rec.pointsLost) ++ "  "

/-- Both lines of a recommendation are within the width, and each of its texts is shown in the room that
its line has left. -/
structure FitsTerminal (rec : Recommendation Binary64) (index width : Nat) : Prop where
  within : ∀ line ∈ rec.lines index (some width) false, line.length ≤ width
  texts : ∃ message advice,
    rec.lines index (some width) false = [rec.columns index ++ message, "      " ++ advice] ∧
    ShownIn (width - (rec.columns index).length) rec.message message ∧
    ShownIn (width - adviceIndent) rec.recommendation advice

theorem lines_plain (rec : Recommendation Binary64) (index : Nat) (width : Option Nat) :
    rec.lines index width false =
      [rec.columns index ++ fitMessage width rec.message,
        "      " ++ fitAdvice width rec.recommendation] := rfl

theorem length_columns (rec : Recommendation Binary64) (index : Nat) :
    (rec.columns index).length =
      max 2 (digitsText (index + 1)).length + max 5 (pointsText rec.pointsLost).length + 20 := by
  have severity : max 6 rec.severity.name.length = 6 := by cases rec.severity <;> decide
  have status : max 7 rec.status.name.length = 7 := by cases rec.status <;> decide
  have dot : ".".length = 1 := rfl
  have minus : "-".length = 1 := rfl
  have blank : " ".length = 1 := rfl
  have blanks : "  ".length = 2 := rfl
  simp only [columns, String.length_append, length_padLeft, length_padRight, severity, status, dot,
    minus, blank, blanks]
  omega

theorem fitMessage_of_wide (wide : 37 < width) (message : String) :
    fitMessage (some width) message = truncate (width - messageIndent) message :=
  congrArg (truncate · message) (if_pos wide)

theorem fitAdvice_of_wide (wide : 37 < width) (advice : String) :
    fitAdvice (some width) advice = truncate (width - adviceIndent) advice :=
  if_pos (by omega)

/-- The second line always fits: nothing before its text varies in width. -/
theorem length_advice_le (wide : 37 < width) (advice : String) :
    ("      " ++ fitAdvice (some width) advice).length ≤ width := by
  have indent : "      ".length = 6 := rfl
  rw [String.length_append, indent, fitAdvice_of_wide wide, length_truncate, adviceIndent]
  omega

theorem shownIn_fitAdvice (wide : 37 < width) (advice : String) :
    ShownIn (width - adviceIndent) advice (fitAdvice (some width) advice) := by
  have dots : 3 < width - adviceIndent := by
    rw [adviceIndent]
    omega
  rw [fitAdvice_of_wide wide]
  exact shownIn_truncate dots advice

theorem length_columns_eq_iff (loss : IsLoss rec.pointsLost) :
    (rec.columns index).length = messageIndent ↔ index < 99 ∧ FitsColumn rec.pointsLost := by
  have digits := @length_digitsText_le_iff (index + 1) 2 (by decide)
  have points := loss.length_pointsText_le_iff
  rw [length_columns, messageIndent, ← points]
  omega

theorem messageIndent_le (rec : Recommendation Binary64) (index : Nat) :
    messageIndent ≤ (rec.columns index).length := by
  rw [length_columns, messageIndent]
  omega

/-- The first line reaches past the edge exactly if the columns are wider than what is reserved for them
and the message would fill the rest. -/
theorem within_iff (wide : 37 < width) :
    (∀ line ∈ rec.lines index (some width) false, line.length ≤ width) ↔
      (rec.columns index).length = messageIndent ∨
        rec.message.length + (rec.columns index).length ≤ width := by
  have least := rec.messageIndent_le index
  have advice := length_advice_le wide rec.recommendation
  have reserved : messageIndent = 27 := rfl
  rw [lines_plain, List.forall_mem_cons, List.forall_mem_singleton, and_iff_left advice,
    String.length_append, fitMessage_of_wide wide, length_truncate]
  omega

theorem shownIn_fitMessage (wide : 37 < width)
    (room : (rec.columns index).length = messageIndent ∨
      rec.message.length + (rec.columns index).length ≤ width) :
    ShownIn (width - (rec.columns index).length) rec.message (fitMessage (some width) rec.message) := by
  have least := rec.messageIndent_le index
  have reserved : messageIndent = 27 := rfl
  rw [fitMessage_of_wide wide]
  rcases room with same | short
  · rw [same]
    exact shownIn_truncate (by omega) _
  · have whole := (@shownIn_truncate (width - messageIndent) (by omega) rec.message).whole (by omega)
    exact ⟨fun _ => whole, fun long => by omega⟩

theorem fitsTerminal_iff_columns (wide : 37 < width) :
    rec.FitsTerminal index width ↔
      (rec.columns index).length = messageIndent ∨
        rec.message.length + (rec.columns index).length ≤ width := by
  constructor
  · exact fun fits => (within_iff wide).mp fits.within
  · intro room
    have message := shownIn_fitMessage wide room
    have advice := shownIn_fitAdvice wide rec.recommendation
    exact ⟨(within_iff wide).mpr room, _, _, lines_plain rec index _, message, advice⟩

/-- The lines of a recommendation fit exactly if the columns have room for its index and its points, or
the message is short enough for the wider ones. -/
theorem fitsTerminal_iff (rec : Recommendation Binary64) (loss : IsLoss rec.pointsLost) (index : Nat)
    {width : Nat} (wide : 37 < width) :
    rec.FitsTerminal index width ↔
      (index < 99 ∧ FitsColumn rec.pointsLost) ∨
        rec.message.length + (rec.columns index).length ≤ width := by
  rw [fitsTerminal_iff_columns wide, length_columns_eq_iff loss]

end Recommendation

def Catalog.ofBudget (points : UInt32) : Catalog Binary64 where
  version := "1.0.0"
  engine := ""
  scoring := Scoring.standard
  categories := [⟨"content", "Content", points,
    [⟨"title", .high, "Title is missing", "Add a title",
      some [⟨"page.title", "exists", .bool true⟩], none⟩]⟩]

/-- Ten lost points fit. -/
theorem Recommendation.fitsTerminal_ofBudget :
    ∃ rec ∈ ((Catalog.ofBudget 10).evaluate Facts.empty).recommendations, rec.FitsTerminal 0 40 := by
  have accepted : (Catalog.ofBudget 10).problems = [] := List.isEmpty_iff.mp (by decide +kernel)
  have few : ∀ rec ∈ ((Catalog.ofBudget 10).evaluate Facts.empty).recommendations,
      rec.pointsLost.tenths < 10000 := by decide +kernel
  have present : ((Catalog.ofBudget 10).evaluate Facts.empty).recommendations ≠ [] :=
    List.length_pos_iff.mp (by decide +kernel)
  obtain ⟨rec, listed⟩ := List.exists_mem_of_ne_nil _ present
  have loss : IsLoss rec.pointsLost := ⟨_, _, accepted, rec, listed, rfl⟩
  refine ⟨rec, listed, (rec.fitsTerminal_iff loss 0 (by decide)).mpr (.inl ⟨by decide, ?_⟩)⟩
  exact .inl (few rec listed)

theorem Catalog.exists_not_fitsTerminal {points : UInt32} {index : Nat}
    (single : ((ofBudget points).evaluate Facts.empty).recommendations.length = 1)
    (beyond : ∀ rec ∈ ((ofBudget points).evaluate Facts.empty).recommendations,
      '\n' ∉ rec.message.toList ∧ '\n' ∉ rec.recommendation.toList ∧
        ¬ ∀ line ∈ rec.lines index (some 40) false, line.length ≤ 40) :
    ∃ rec ∈ ((ofBudget points).evaluate Facts.empty).recommendations,
      '\n' ∉ rec.message.toList ∧ '\n' ∉ rec.recommendation.toList ∧ ¬ rec.FitsTerminal index 40 := by
  obtain ⟨rec, only⟩ := List.length_eq_one_iff.mp single
  have listed : rec ∈ ((ofBudget points).evaluate Facts.empty).recommendations := by simp [only]
  obtain ⟨message, advice, long⟩ := beyond rec listed
  exact ⟨rec, listed, message, advice, fun fits => long fits.within⟩

/-- A hundred thousand lost points push the message past the edge, and so does a three-digit index. -/
theorem Recommendation.not_fitsTerminal_ofBudget :
    ((Catalog.ofBudget 100000).problems = [] ∧
      ∃ rec ∈ ((Catalog.ofBudget 100000).evaluate Facts.empty).recommendations,
        '\n' ∉ rec.message.toList ∧ '\n' ∉ rec.recommendation.toList ∧ ¬ rec.FitsTerminal 0 40) ∧
    (Catalog.ofBudget 10).problems = [] ∧
      ∃ rec ∈ ((Catalog.ofBudget 10).evaluate Facts.empty).recommendations,
        '\n' ∉ rec.message.toList ∧ '\n' ∉ rec.recommendation.toList ∧ ¬ rec.FitsTerminal 99 40 := by
  refine ⟨⟨List.isEmpty_iff.mp ?_, Catalog.exists_not_fitsTerminal ?_ ?_⟩,
    List.isEmpty_iff.mp ?_, Catalog.exists_not_fitsTerminal ?_ ?_⟩
  all_goals decide +kernel

/-- In a catalog of categories with at most 999 points, the lines of the first 99 recommendations fit on
every terminal. -/
theorem Catalog.fitsTerminal_of_budgets (catalog : Catalog Binary64) (accepted : catalog.problems = [])
    (modest : ∀ category ∈ catalog.categories, category.maxPoints.toNat ≤ 999) (facts : Facts Binary64)
    {rec : Recommendation Binary64} (listed : rec ∈ (catalog.evaluate facts).recommendations)
    {index width : Nat} (few : index < 99) (wide : 37 < width) : rec.FitsTerminal index width := by
  have sound := Catalog.sound_of_problems_eq_nil accepted
  obtain ⟨outcome, measured, _, _, _, nonneg, lost⟩ := sound.recommendation_bounds listed
  obtain ⟨category, member, _, bounded⟩ := sound.outcome_bounded measured
  have budget : category.budget ≤ Binary64.ofNat 999 := Binary64.ofNat_le_ofNat (modest category member)
  have points : rec.pointsLost ≤ Binary64.ofNat 999 :=
    Binary64.le_trans lost (Binary64.le_trans bounded.max_le_budget budget)
  have tenths := Binary64.tenths_le_tenths nonneg points
  have most : (Binary64.ofNat 999).tenths = 9990 := by decide +kernel
  have loss : IsLoss rec.pointsLost := ⟨catalog, facts, accepted, rec, listed, rfl⟩
  refine (Recommendation.fitsTerminal_iff_columns wide).mpr (.inl ?_)
  exact (Recommendation.length_columns_eq_iff loss).mpr ⟨few, .inl (by omega)⟩

end PageHealth
