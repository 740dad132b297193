import PageHealth.Number.Notation
import PageHealth.Text

namespace PageHealth.Log

inductive Level where
  | error
  | warn
  | info
  | debug
  | trace
  deriving DecidableEq

def Level.name : Level → String
  | error => "ERROR"
  | warn => "WARN"
  | info => "INFO"
  | debug => "DEBUG"
  | trace => "TRACE"

def Level.detail : Level → Nat
  | error => 1
  | warn => 2
  | info => 3
  | debug => 4
  | trace => 5

inductive Origin where
  | program
  | config
  | engine
  deriving DecidableEq

def Origin.name : Origin → String
  | program => "seo_health"
  | config => "seo_health::config"
  | engine => "seo_health::scoring::engine"

structure Event where
  level : Level
  origin : Origin
  message : String
  fields : List (String × String)
  deriving DecidableEq

def Event.line (event : Event) : String :=
  padLeft 5 ' ' event.level.name ++ " " ++ event.message ++
    String.join (event.fields.map fun f => " " ++ f.1 ++ "=" ++ f.2)

def numberNotation : NumberNotation where
  plainFrom := -4
  plainBelow := 16
  pointZero := true
  mantissaPointZero := false
  exponentPlus := false
  tie := .toEven
  nan := "NaN"
  infinity := "inf"

/-- Notes of origins whose name starts so are shown up to so much detail. -/
structure Directive where
  origin : String
  detail : Nat
  deriving DecidableEq

def detail? (text : String) : Option Nat :=
  match String.ofList (text.toList.map Char.toLower) with
  | "off" | "0" => some 0
  | "error" | "1" => some 1
  | "warn" | "2" => some 2
  | "info" | "3" => some 3
  | "debug" | "4" => some 4
  | "trace" | "5" => some 5
  | _ => none

def isOriginChar (c : Char) : Bool := c.isAlphanum || c = '_' || c = ':' || c = '-'

/-- A directive is a level for everything, an origin with a level, or an origin alone, of which all is
shown. -/
def Directive.ofText? (text : String) : Option Directive :=
  match detail? text, splitAt '=' text.toList with
  | some detail, _ => some ⟨"", detail⟩
  | none, [origin] =>
    if !origin.isEmpty ∧ origin.all isOriginChar then some ⟨String.ofList origin, 5⟩ else none
  | none, [origin, level] =>
    if origin.isEmpty ∨ !origin.all isOriginChar then none
    else if level.isEmpty then some ⟨String.ofList origin, 5⟩
    else (detail? (String.ofList level)).map (Directive.mk (String.ofList origin))
  | none, _ => none

abbrev Filter := List Directive

def Filter.ofText? (text : String) : Option Filter := do
  let parts := (splitAt ',' text.toList).filter fun part => !part.isEmpty
  let directives ← parts.mapM fun part => Directive.ofText? (String.ofList part)
  if directives.isEmpty then some [⟨"", Level.error.detail⟩] else some directives

/-- The directive for an origin is the one with the longest name that the origin's name starts with,
and of two with the same name the later one. -/
def Filter.detail (filter : Filter) (origin : Origin) : Nat :=
  let fitting := filter.filter fun d => d.origin.toList.isPrefixOf origin.name.toList
  let best := fitting.foldl
    (fun (best : Option Directive) d =>
      match best with
      | some b => if d.origin.length < b.origin.length then some b else some d
      | none => some d)
    none
  (best.map Directive.detail).getD 0

def Filter.shows (filter : Filter) (event : Event) : Bool :=
  event.level.detail ≤ filter.detail event.origin

def defaultSetting (verbose : Bool) : String := if verbose then "debug" else "warn"

/-- The filter for a setting; one that cannot be read counts as not given. -/
def Filter.choose (setting : Option String) (verbose : Bool) : Filter :=
  ((setting.bind Filter.ofText?).or (Filter.ofText? (defaultSetting verbose))).getD []

end PageHealth.Log
