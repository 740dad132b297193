import PageHealth.Number.Notation
import PageHealth.Scoring

namespace PageHealth

inductive Style where
  | bold
  | dimmed
  | red
  | green
  | yellow
  deriving DecidableEq

def renditionSequence (number : String) : String := "\x1b[" ++ number ++ "m"

def Style.start : Style → String
  | bold => renditionSequence "1"
  | dimmed => renditionSequence "2"
  | red => renditionSequence "31"
  | green => renditionSequence "32"
  | yellow => renditionSequence "33"

def Style.stop : Style → String
  | bold | dimmed => renditionSequence "0"
  | red | green | yellow => renditionSequence "39"

def Style.paint (style : Style) (text : String) : String := style.start ++ text ++ style.stop

def pointsText (points : Binary64) : String :=
  let text := (tenthsText points).toList
  if ['.', '0'].isSuffixOf text then String.ofList (text.take (text.length - 2))
  else String.ofList text

/-- Text of at most a length; what is longer is cut and ends in dots if there is room for them. -/
def truncate (length : Nat) (text : String) : String :=
  if text.length ≤ length then text
  else if 3 < length then String.ofList (text.toList.take (length - 3)) ++ "..."
  else String.ofList (text.toList.take length)

inductive Band where
  | good
  | fair
  | poor

def Band.ofPercentage (percentage : Nat) : Band :=
  if 80 ≤ percentage then .good else if 50 ≤ percentage then .fair else .poor

def paintPercentage (text : String) (percentage : Nat) (colours : Bool) : String :=
  if !colours then text
  else
    match Band.ofPercentage percentage with
    | .good => Style.green.paint text
    | .fair => Style.yellow.paint text
    | .poor => Style.red.paint text

def Severity.tag (severity : Severity) (colours : Bool) : String :=
  let tag := padRight 6 severity.name
  if !colours then tag
  else
    match severity with
    | high => Style.bold.paint (Style.red.paint tag)
    | medium => Style.yellow.paint tag
    | low => Style.dimmed.paint tag

def Status.tag (status : Status) (colours : Bool) : String :=
  let tag := padRight 7 status.name
  if !colours then tag
  else
    match status with
    | pass => Style.green.paint tag
    | warning => Style.yellow.paint tag
    | fail => Style.red.paint tag

/-- The columns before a recommendation's message: index, severity, status and points, each with the
blanks after it. -/
def messageIndent : Nat := 3 + 1 + 6 + 1 + 7 + 1 + 6 + 2

def adviceIndent : Nat := 6

/-- A message is cut to the rest of its line; a terminal with hardly any rest still shows twenty
characters. -/
def fitMessage (width : Option Nat) (message : String) : String :=
  match width with
  | some width =>
    truncate (if messageIndent + 10 < width then width - messageIndent else 20) message
  | none => message

def fitAdvice (width : Option Nat) (advice : String) : String :=
  match width with
  | some width => if 16 < width then truncate (width - adviceIndent) advice else advice
  | none => advice

def Recommendation.lines (index : Nat) (width : Option Nat) (rec : Recommendation Binary64)
    (colours : Bool) : List String :=
  let number := padLeft 2 ' ' (digitsText (index + 1)) ++ "."
  let lost := padLeft 6 ' ' ("-" ++ pointsText rec.pointsLost)
  let message := fitMessage width rec.message
  let advice := fitAdvice width rec.recommendation
  if colours then
    [Style.dimmed.paint number ++ " " ++ rec.severity.tag true ++ " " ++ rec.status.tag true ++ " " ++
      Style.bold.paint lost ++ "  " ++ message,
     "      " ++ Style.dimmed.paint advice]
  else
    [number ++ " " ++ rec.severity.tag false ++ " " ++ rec.status.tag false ++ " " ++ lost ++ "  " ++
      message,
     "      " ++ advice]

def CategoryScore.line (labelWidth : Nat) (score : CategoryScore) (colours : Bool) : String :=
  let points := padLeft 3 ' ' (digitsText score.score) ++ "/" ++ padRight 3 (digitsText score.maxScore)
  let percentage := padLeft 4 ' ' (digitsText score.percentage ++ "%")
  "  " ++ padRight labelWidth score.label ++ "  " ++ points ++ "  " ++
    paintPercentage percentage score.percentage colours

def CategoryScore.row (score : CategoryScore) : List String :=
  [score.id, digitsText score.score, digitsText score.maxScore, digitsText score.percentage]

def Recommendation.row (rec : Recommendation Binary64) : List String :=
  [rec.category ++ "/" ++ rec.id, rec.severity.name, rec.status.name, pointsText rec.pointsLost]

namespace Evaluation

def healthText (evaluation : Evaluation Binary64) (colours : Bool) : String :=
  let score := paintPercentage (digitsText evaluation.healthScore ++ "/100") evaluation.healthScore colours
  if colours then Style.bold.paint "Health score:" ++ " " ++ Style.bold.paint score
  else "Health score: " ++ score

def labelWidth (evaluation : Evaluation Binary64) : Nat :=
  (evaluation.categoryScores.map fun score => score.label.length).foldl max 0

def summaryText (evaluation : Evaluation Binary64) : String :=
  digitsText evaluation.summary.passed ++ " passed, " ++ digitsText evaluation.summary.warnings ++
    " warnings, " ++ digitsText evaluation.summary.failed ++ " failed"

def recommendationLines (evaluation : Evaluation Binary64) (width : Option Nat) (colours : Bool) :
    List String :=
  if evaluation.recommendations.isEmpty then ["No recommendations. Every rule passed."]
  else
    let heading := "Recommendations (" ++ digitsText evaluation.recommendations.length ++ ")"
    "" :: (if colours then Style.bold.paint heading else heading) ::
      evaluation.recommendations.zipIdx.flatMap fun (rec, index) => rec.lines index width colours

def tableLines (evaluation : Evaluation Binary64) (width : Option Nat) (colours : Bool) : List String :=
  (evaluation.healthText colours ++ "  (catalog " ++ evaluation.catalogVersion ++ ")") :: "" ::
    evaluation.categoryScores.map (fun score => score.line evaluation.labelWidth colours) ++
    ["", evaluation.summaryText] ++ evaluation.recommendationLines width colours

def table (evaluation : Evaluation Binary64) (colours : Bool) (width : Option Nat) : String :=
  String.intercalate "\n" (evaluation.tableLines width colours)

def rows (evaluation : Evaluation Binary64) : List (List String) :=
  evaluation.categoryScores.map CategoryScore.row ++
    evaluation.recommendations.map Recommendation.row

def tabSeparated (evaluation : Evaluation Binary64) : String :=
  String.intercalate "\n" (evaluation.rows.map (String.intercalate "\t"))

end Evaluation

end PageHealth
