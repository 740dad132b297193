import PageHealth.Text

namespace PageHealth.CommandLine

inductive ReportForm where
  | table
  | json
  | tabSeparated
  deriving DecidableEq

def ReportForm.name : ReportForm → String
  | table => "table"
  | json => "json"
  | tabSeparated => "tsv"

def ReportForm.ofName? (name : String) : Option ReportForm :=
  [table, json, tabSeparated].find? fun form => form.name = name

inductive Command where
  | score (facts : String) (form : ReportForm) (output : Option String) (failUnder : Option Nat)
  | validate
  | init (force : Bool)
  | catalog
  deriving DecidableEq

structure Request where
  verbose : Bool
  noColour : Bool
  catalog : Option String
  command : Command
  deriving DecidableEq

inductive Refusal where
  | misuse
  | help
  | version
  deriving DecidableEq

inductive Flag where
  | verbose
  | catalog
  | noColour
  | form
  | output
  | failUnder
  | force
  | help
  | version
  deriving DecidableEq

namespace Flag

def all : List Flag :=
  [verbose, catalog, noColour, form, output, failUnder, force, help, version]

def long : Flag → String
  | verbose => "verbose"
  | catalog => "catalog"
  | noColour => "no-color"
  | form => "format"
  | output => "output"
  | failUnder => "fail-under"
  | force => "force"
  | help => "help"
  | version => "version"

def short? : Flag → Option Char
  | verbose => some 'v'
  | catalog => some 'c'
  | form => some 'f'
  | output => some 'o'
  | help => some 'h'
  | version => some 'V'
  | noColour | failUnder | force => none

def takesValue : Flag → Bool
  | catalog | form | output | failUnder => true
  | verbose | noColour | force | help | version => false

def common : List Flag := [verbose, catalog, noColour, help]

end Flag

def percentage? (text : String) : Option Nat := do
  let (negative, digits) := splitSign text.toList
  if digits.isEmpty ∨ !digits.all isDigit then none
  else
    let n := digitsValue digits
    if 100 < n ∨ (negative ∧ n ≠ 0) then none else some n

def Flag.accepts (flag : Flag) (value : String) : Bool :=
  match flag with
  | form => (ReportForm.ofName? value).isSome
  | output => value ≠ ""
  | failUnder => (percentage? value).isSome
  | _ => true

structure Given where
  flags : List (Flag × String)
  words : List String

def Given.none : Given := ⟨[], []⟩

def Given.has (given : Given) (flag : Flag) : Bool := given.flags.any fun f => f.1 = flag

def Given.value? (given : Given) (flag : Flag) : Option String :=
  (given.flags.find? fun f => f.1 = flag).map Prod.snd

/-- A flag may be given once. Those that ask for help or the version are answered at once. -/
def Given.add (given : Given) (flag : Flag) (value : String) : Except Refusal Given :=
  if flag = .help then .error .help
  else if flag = .version then .error .version
  else if given.has flag ∨ !flag.accepts value then .error .misuse
  else .ok { given with flags := (flag, value) :: given.flags }

inductive Pending where
  | nothing
  | value (flag : Flag)

def readLetters (known : List Flag) (given : Given) : List Char → Except Refusal (Given × Pending)
  | [] => .ok (given, .nothing)
  | c :: rest =>
    match known.find? fun flag => flag.short? = some c with
    | none => .error .misuse
    | some flag =>
      if !flag.takesValue then do
        let given ← given.add flag ""
        readLetters known given rest
      else
        match rest with
        | [] => .ok (given, .value flag)
        | '=' :: value => do return (← given.add flag (String.ofList value), .nothing)
        | value => do return (← given.add flag (String.ofList value), .nothing)

def readLong (known : List Flag) (given : Given) (cs : List Char) :
    Except Refusal (Given × Pending) :=
  let name := String.ofList (cs.takeWhile (· ≠ '='))
  match known.find? fun flag => flag.long = name, cs.dropWhile (· ≠ '=') with
  | none, _ => .error .misuse
  | some flag, [] =>
    if flag.takesValue then .ok (given, .value flag)
    else do return (← given.add flag "", .nothing)
  | some flag, _ :: value =>
    if flag.takesValue then do return (← given.add flag (String.ofList value), .nothing)
    else .error .misuse

def looksLikeFlag (argument : String) : Bool :=
  match argument.toList with
  | '-' :: _ :: _ => true
  | _ => false

def readFlag (known : List Flag) (given : Given) (argument : String) :
    Except Refusal (Given × Pending) :=
  match argument.toList with
  | '-' :: '-' :: name => readLong known given name
  | _ :: letters => readLetters known given letters
  | [] => .error .misuse

/-- The arguments of a command, of which so many are not flags. After two hyphens nothing is a
flag. -/
def readCommand (known : List Flag) (words : Nat) (ended : Bool) (given : Given) :
    Pending → List String → Except Refusal Given
  | .nothing, [] => .ok given
  | .value _, [] => .error .misuse
  | .value flag, argument :: rest =>
    if looksLikeFlag argument then .error .misuse
    else do
      let given ← given.add flag argument
      readCommand known words ended given .nothing rest
  | .nothing, argument :: rest =>
    if !ended && argument = "--" then readCommand known words true given .nothing rest
    else if !ended && looksLikeFlag argument then do
      let (given, pending) ← readFlag known given argument
      readCommand known words ended given pending rest
    else if given.words.length < words then
      readCommand known words ended { given with words := given.words ++ [argument] } .nothing rest
    else .error .misuse

def readFront (given : Given) : Pending → List String → Except Refusal (Given × String × List String)
  | _, [] => .error .misuse
  | .value flag, argument :: rest =>
    if looksLikeFlag argument then .error .misuse
    else do
      let given ← given.add flag argument
      readFront given .nothing rest
  | .nothing, argument :: rest =>
    if argument = "--" then .error .misuse
    else if looksLikeFlag argument then do
      let (given, pending) ← readFlag (.version :: Flag.common) given argument
      readFront given pending rest
    else .ok (given, argument, rest)

def helpTopics : List String := ["score", "validate", "init", "catalog", "help"]

def Command.read (name : String) (arguments : List String) : Except Refusal (Given × Command) :=
  match name with
  | "score" => do
    let known := .form :: .output :: .failUnder :: Flag.common
    let given ← readCommand known 1 false .none .nothing arguments
    match given.words with
    | [facts] =>
      let form := ((given.value? .form).bind ReportForm.ofName?).getD .table
      return (given, .score facts form (given.value? .output)
        ((given.value? .failUnder).bind percentage?))
    | _ => throw .misuse
  | "validate" => do return (← readCommand Flag.common 0 false .none .nothing arguments, .validate)
  | "init" => do
    let given ← readCommand (.force :: Flag.common) 0 false .none .nothing arguments
    return (given, .init (given.has .force))
  | "catalog" => do return (← readCommand Flag.common 0 false .none .nothing arguments, .catalog)
  | "help" =>
    match arguments with
    | [] => throw .help
    | [topic] => throw (if helpTopics.contains topic then .help else .misuse)
    | _ => throw .misuse
  | _ => throw .misuse

/-- What the arguments ask for. A flag that holds for every command may stand before or after its
name; of two values the later one counts. -/
def Request.read (arguments : List String) : Except Refusal Request := do
  let (front, name, rest) ← readFront .none .nothing arguments
  let (given, command) ← Command.read name rest
  return {
    verbose := front.has .verbose || given.has .verbose
    noColour := front.has .noColour || given.has .noColour
    catalog := (given.value? .catalog).or (front.value? .catalog)
    command := command }

end PageHealth.CommandLine
