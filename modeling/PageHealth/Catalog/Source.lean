import PageHealth.Catalog.Json
import PageHealth.Catalog.Lint
import PageHealth.Catalog.Problem
import PageHealth.Catalog.Standard
import PageHealth.Catalog.Yaml
import PageHealth.Files.Machine
import PageHealth.Files.Path
import PageHealth.Log

namespace PageHealth

open Files (Machine TextError)

structure Surroundings where
  home : Option String
  configHome : Option String
  accountHome : Option String

namespace Surroundings

/-- The folder for the configuration of all programs; a setting counts only when it is absolute, and
an empty home counts as none. -/
def configBase (surroundings : Surroundings) : String :=
  match surroundings.configHome.filter fun path => Files.isAbsolute path with
  | some path => path
  | none =>
    let home := (surroundings.home.filter (· ≠ "")).or surroundings.accountHome
    Files.inside (home.getD "/") ".config"

def configFolder (surroundings : Surroundings) : String :=
  Files.inside surroundings.configBase "seo-health"

def catalogPath (surroundings : Surroundings) : String :=
  Files.inside surroundings.configFolder "catalog.yaml"

end Surroundings

inductive CatalogFormat where
  | json
  | yaml
  deriving DecidableEq

/-- The format of a file by its extension; all that is not JSON is YAML. -/
def CatalogFormat.ofPath (path : String) : CatalogFormat :=
  match (Files.extension? path).map fun e => String.ofList (e.toList.map Char.toLower) with
  | some "json" => .json
  | _ => .yaml

inductive SyntaxError where
  | json (cause : Json.ReadError)
  | yaml (cause : Yaml.Fault)

def SyntaxError.message : SyntaxError → String
  | json cause => "Invalid catalog JSON: " ++ cause.message
  | yaml cause => "Invalid catalog YAML: " ++ cause.message

inductive CatalogError where
  | notFound (path : String)
  | unreadable (path : String) (cause : TextError)
  | malformed (path : String) (cause : SyntaxError)
  | unusable (path version : String) (problems : List (Problem Binary64))
  | builtInUnusable (version : String) (problems : List (Problem Binary64))

def problemsText (version : String) (problems : List (Problem Binary64)) : String :=
  "Catalog " ++ version ++ " has " ++ digitsText problems.length ++ " error(s):\n  - " ++
    String.intercalate "\n  - " (problems.map Problem.message)

def CatalogError.message : CatalogError → String
  | notFound path => "Catalog file not found at " ++ path
  | unreadable path cause => "Failed to read catalog file at " ++ path ++ ": " ++ cause.message
  | malformed path cause => "Failed to parse catalog at " ++ path ++ ": " ++ cause.message
  | unusable path version problems =>
    "Invalid catalog at " ++ path ++ ": " ++ problemsText version problems
  | builtInUnusable version problems => problemsText version problems

namespace Catalog

def parse (format : CatalogFormat) (text : String) : Except SyntaxError (Catalog Binary64) :=
  match format with
  | .json => (Catalog.ofJson text).mapError .json
  | .yaml => (Catalog.ofYaml text).mapError .yaml

structure Sourced where
  catalog : Catalog Binary64
  source : Option String

def ofFile (path : String) : Except TextError String → Except CatalogError Sourced
  | .error cause => .error (.unreadable path cause)
  | .ok text =>
    match parse (.ofPath path) text with
    | .error cause => .error (.malformed path cause)
    | .ok catalog => .ok ⟨catalog, some path⟩

def Sourced.check (sourced : Sourced) : Except CatalogError Sourced :=
  let version := sourced.catalog.version
  match sourced.catalog.problems, sourced.source with
  | [], _ => .ok sourced
  | problem :: rest, none => .error (.builtInUnusable version (problem :: rest))
  | problem :: rest, some path => .error (.unusable path version (problem :: rest))

variable {m : Type → Type} [Monad m] [Machine m]

/-- The catalog that is in effect, unchecked. A given file has to be there. -/
def read (surroundings : Surroundings) (path : Option String) : m (Except CatalogError Sourced) := do
  let place := path.getD surroundings.catalogPath
  if ← Machine.isThere place then return ofFile place (← Files.readText place)
  else if path.isSome then return .error (.notFound place)
  else return .ok ⟨Catalog.standard, none⟩

def load (surroundings : Surroundings) (path : Option String) : m (Except CatalogError Sourced) := do
  return (← read surroundings path) >>= Sourced.check

def Sourced.readEvents (surroundings : Surroundings) (sourced : Sourced) : List Log.Event :=
  if sourced.source.isSome then []
  else
    [⟨.debug, .config, "no catalog file, using built-in catalog",
      [("path", surroundings.catalogPath)]⟩]

def Sourced.loadEvents (surroundings : Surroundings) (sourced : Sourced) : List Log.Event :=
  let catalog := sourced.catalog
  let warnings := catalog.suspicions.map fun s => ⟨.warn, .config, "catalog: " ++ s.message, []⟩
  let loaded :=
    match sourced.source with
    | none => []
    | some path =>
      [⟨.info, .config, "catalog loaded",
        [("path", path), ("version", catalog.version),
         ("categories", digitsText catalog.categories.length),
         ("rules", digitsText catalog.ruleCount)]⟩]
  sourced.readEvents surroundings ++ warnings ++ loaded

end Catalog

end PageHealth
