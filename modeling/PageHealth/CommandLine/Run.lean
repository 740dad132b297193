import PageHealth.Catalog.Init
import PageHealth.Catalog.Source
import PageHealth.CommandLine.Arguments
import PageHealth.Facts.Source
import PageHealth.Report.Json
import PageHealth.Report.Table

namespace PageHealth.CommandLine

open Files (Machine)

inductive Notice where
  | note (event : Log.Event)
  | line (text : String)
  deriving DecidableEq

structure Result where
  code : Nat
  output : String
  notices : List Notice
  deriving DecidableEq

def success : Nat := 0

def inputFailure : Nat := 1

def misuse : Nat := 2

def catalogFailure : Nat := 4

def belowThreshold : Nat := 5

/-- What a run depends on besides the machine. -/
structure Setting where
  surroundings : Surroundings
  width : Option Nat
  colours : Bool
  logSetting : Option String

def programName : String := "seo-health"

def programVersion : String := "0.1.0"

def usage : String :=
  String.intercalate "\n"
    ["Usage: seo-health [-v] [-c CATALOG] [--no-color] COMMAND",
     "",
     "Commands:",
     "  score FACTS [-f table|json|tsv] [-o FILE] [--fail-under N]",
     "  validate",
     "  init [--force]",
     "  catalog"]

def durationText (nanoseconds : Nat) : String :=
  let scaled (digits : Nat) (unit : String) : String :=
    let size := Nat.pow 10 digits
    let fraction := padLeft digits '0' (digitsText (nanoseconds % size))
    let shown := (fraction.toList.reverse.dropWhile (· = '0')).reverse
    digitsText (nanoseconds / size) ++
      (if shown.isEmpty then "" else "." ++ String.ofList shown) ++ unit
  if nanoseconds < 1000 then digitsText nanoseconds ++ "ns"
  else if nanoseconds < 1000000 then scaled 3 "µs"
  else if nanoseconds < 1000000000 then scaled 6 "ms"
  else scaled 9 "s"

def outcomeEvent (outcome : Outcome Binary64) : Log.Event :=
  ⟨.debug, .engine, "rule evaluated",
    [("category", outcome.category), ("rule", outcome.id), ("status", outcome.status.name),
     ("max_points", Log.numberNotation.write outcome.maxPoints),
     ("points_earned", Log.numberNotation.write outcome.pointsEarned)]⟩

def evaluationEvents (evaluation : Evaluation Binary64) : List Log.Event :=
  evaluation.outcomes.map outcomeEvent ++
    [⟨.debug, .engine, "catalog evaluated",
      [("health_score", digitsText evaluation.healthScore),
       ("passed", digitsText evaluation.summary.passed),
       ("warnings", digitsText evaluation.summary.warnings),
       ("failed", digitsText evaluation.summary.failed)]⟩]

def finishedEvent (evaluation : Evaluation Binary64) (nanoseconds : Nat) : Log.Event :=
  ⟨.info, .program, "evaluation finished",
    [("health_score", digitsText evaluation.healthScore), ("elapsed", durationText nanoseconds)]⟩

def emptyFactsEvents (source : String) (facts : Facts Binary64) : List Log.Event :=
  if facts.isEmpty then
    [⟨.warn, .program, "facts from " ++ source ++ " are empty, every rule will fail", []⟩]
  else []

def failed (code : Nat) (notices : List Notice) (message : String) : Result :=
  ⟨code, "", notices ++ [.line message]⟩

def notes (events : List Log.Event) : List Notice := events.map .note

def render (setting : Setting) (request : Request) (form : ReportForm) (report : Report) : String :=
  match form with
  | .table => report.evaluation.table (setting.colours && !request.noColour) setting.width
  | .tabSeparated => report.evaluation.tabSeparated
  | .json => report.json

def Result.atThreshold (result : Result) (healthScore : Nat) : Option Nat → Result
  | none => result
  | some threshold =>
    if healthScore < threshold then
      { result with
        code := belowThreshold
        notices := result.notices ++
          [.line ("Health score " ++ digitsText healthScore ++ " is below the required " ++
            digitsText threshold)] }
    else result

variable {m : Type → Type} [Monad m] [Machine m]

/-- Saves the report when a file is asked for; the threshold counts only after that. -/
def finish (request : Request) (report : Report) (output : Option String) (failUnder : Option Nat)
    (result : Result) : m Result := do
  match output with
  | none => return result.atThreshold report.evaluation.healthScore failUnder
  | some path =>
    match ← Files.save path report.json with
    | .error e =>
      return { result with
        code := inputFailure
        notices := result.notices ++ [.line ("Failed to write report: " ++ e.message "report")] }
    | .ok () =>
      let saved := if request.verbose then [.line ("Report written to " ++ path)] else []
      let result := { result with notices := result.notices ++ saved }
      return result.atThreshold report.evaluation.healthScore failUnder

def score (setting : Setting) (request : Request) (source : String) (form : ReportForm)
    (output : Option String) (failUnder : Option Nat) : m Result := do
  match ← Catalog.load setting.surroundings request.catalog with
  | .error e => return failed catalogFailure [] ("Catalog error: " ++ e.message)
  | .ok sourced =>
    let loaded := notes (sourced.loadEvents setting.surroundings)
    match ← Facts.loadFrom source with
    | .error e => return failed inputFailure loaded ("Facts error: " ++ e.message)
    | .ok facts =>
      let started ← Machine.clock
      let evaluation := sourced.catalog.evaluate facts
      let finished ← Machine.clock
      let report : Report := ⟨source, ← Machine.now, evaluation⟩
      let events := emptyFactsEvents source facts ++ evaluationEvents evaluation ++
        [finishedEvent evaluation (finished - started)]
      finish request report output failUnder
        ⟨success, render setting request form report ++ "\n", loaded ++ notes events⟩

def validate (setting : Setting) (request : Request) : m Result := do
  match ← Catalog.read setting.surroundings request.catalog with
  | .error e => return failed catalogFailure [] ("Catalog error: " ++ e.message)
  | .ok sourced =>
    let catalog := sourced.catalog
    let warnings := catalog.suspicions.map fun s => .line ("warning: " ++ s.message)
    let notices := notes (sourced.readEvents setting.surroundings) ++ warnings
    match catalog.problems with
    | [] =>
      return ⟨success,
        "Catalog " ++ catalog.version ++ " is valid: " ++ digitsText catalog.categories.length ++
          " categories, " ++ digitsText catalog.ruleCount ++ " rules, " ++
          digitsText catalog.totalMaxPoints ++ " points, " ++ digitsText warnings.length ++
          " warning(s)\n", notices⟩
    | problems =>
      let lines := problems.map fun p => .line ("  - " ++ p.message)
      return ⟨catalogFailure, "", notices ++ .line "Catalog errors:" :: lines⟩

def init (setting : Setting) (request : Request) (force : Bool) : m Result := do
  let path := request.catalog.getD setting.surroundings.catalogPath
  match ← Catalog.writeStandard path force with
  | .error e => return failed catalogFailure [] ("Init error: " ++ e.message)
  | .ok () => return ⟨success, "Wrote default catalog to " ++ path ++ "\n", []⟩

def showCatalog (setting : Setting) (request : Request) : m Result := do
  match ← Catalog.load setting.surroundings request.catalog with
  | .error e => return failed catalogFailure [] ("Catalog error: " ++ e.message)
  | .ok sourced =>
    return ⟨success, sourced.catalog.toYaml, notes (sourced.loadEvents setting.surroundings)⟩

def Result.shown (filter : Log.Filter) (result : Result) : Result :=
  { result with
    notices := result.notices.filter fun
      | .note event => filter.shows event
      | .line _ => true }

def Request.run (setting : Setting) (request : Request) : m Result := do
  let result ←
    match request.command with
    | .score facts form output failUnder => score setting request facts form output failUnder
    | .validate => validate setting request
    | .init force => init setting request force
    | .catalog => showCatalog setting request
  return result.shown (.choose setting.logSetting request.verbose)

def Refusal.result : Refusal → Result
  | misuse => failed CommandLine.misuse [] usage
  | help => ⟨success, usage ++ "\n", []⟩
  | version => ⟨success, programName ++ " " ++ programVersion ++ "\n", []⟩

def run (setting : Setting) (arguments : List String) : m Result :=
  match Request.read arguments with
  | .error refusal => return refusal.result
  | .ok request => request.run setting

end PageHealth.CommandLine
