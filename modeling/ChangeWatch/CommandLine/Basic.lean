import ChangeWatch.CommandLine.Options
import ChangeWatch.Scenario.Run

/-!
The command line. One command runs the scenario in a file, the other parses an expression. A command
reads at most one file, and its result is what it prints and how it ends.
-/
namespace ChangeWatch.CommandLine

inductive Format where
  | text
  | json
deriving DecidableEq, Repr

/-- What the program can be asked to do. A version is that of the program or of one command, by its
title. -/
inductive Command where
  | run (path : String) (strategy : Option Strategy) (strict : Bool) (format : Format)
  | parse (expression : String) (reading : Reading) (location : String)
  | help
  | version (title : String)
deriving DecidableEq, Repr

/-- How the program ends: what it printed, and either well, or with a message, or with a complaint
about its arguments. -/
inductive Ending where
  | ok
  | failed (message : String)
  | usage
deriving DecidableEq, Repr

structure Result where
  output : String := ""
  ending : Ending := .ok
deriving DecidableEq, Repr

def Ending.status : Ending → Nat
  | .ok => 0
  | .failed _ => 1
  | .usage => 2

def format? (text : String) : Option Format :=
  if text = "text" then some .text else if text = "json" then some .json else none

/-- Options that every command takes. -/
def commonOptions : List OptionSpec :=
  [{ long := "verbose", short := some 'v' }, { long := "no-color" },
    { long := "help", short := some 'h', kind := .question },
    { long := "version", short := some 'V', kind := .question }]

def runOptions : List OptionSpec :=
  commonOptions ++
    [{ long := "strategy", short := some 's',
       kind := .value fun text => (Strategy.ofLabel? text).isSome },
      { long := "strict" },
      { long := "format", short := some 'f', kind := .value fun text => (format? text).isSome }]

def parseOptions : List OptionSpec :=
  commonOptions ++
    [{ long := "interpolation", short := some 'i' },
      { long := "location", short := some 'l', kind := .value fun _ => true }]

/-- The variable that chooses a strategy when no option does. -/
def strategyVariable : String := "DIRTYCHECK_STRATEGY"

/-- The name of the program. -/
def programTitle : String := "dirtycheck"

/-- The command behind a question, if reading ended with one. -/
def answer? (title : String) : Stop → Option Command
  | .misuse => none
  | .asked question => if question = "version" then some (.version title) else some .help

/-- Reads arguments of one command, unless a question among them is answered instead. -/
def readCommand? (title : String) (specs : List OptionSpec) (most : Nat)
    (arguments : List String) (command? : Arguments → Option Command) : Option Command :=
  match read specs most arguments with
  | .ok arguments => command? arguments
  | .error stop => answer? title stop

/-- A value that may be missing, but must be known if it is there. -/
def known? (read : String → Option α) : Option String → Option (Option α)
  | none => some none
  | some text => (read text).map some

def runCommand? (environment : String → Option String) (arguments : Arguments) :
    Option Command := do
  match arguments.operands with
  | [path] =>
    let chosen := (arguments.value? "strategy").or (environment strategyVariable)
    let strategy ← known? Strategy.ofLabel? chosen
    let format ← known? format? (arguments.value? "format")
    return .run path strategy (arguments.has "strict") (format.getD .text)
  | _ => none

def parseCommand? (arguments : Arguments) : Option Command :=
  match arguments.operands with
  | [expression] =>
    let reading := if arguments.has "interpolation" then Reading.interpolation else .binding
    some (.parse expression reading ((arguments.value? "location").getD "cli"))
  | _ => none

/-- The command that arguments ask for. Common options may stand in front of it, but not the two
dashes behind which a command would be an operand. -/
def command? (environment : String → Option String) (arguments : List String) : Option Command :=
  let leading := arguments.takeWhile isOption
  readCommand? programTitle commonOptions 0 leading fun _ =>
    if leading.contains "--" then none
    else
      match arguments.dropWhile isOption with
      | "run" :: rest =>
        readCommand? (programTitle ++ "-run") runOptions 1 rest (runCommand? environment)
      | "parse" :: rest => readCommand? (programTitle ++ "-parse") parseOptions 1 rest parseCommand?
      | ["help"] => some .help
      | ["help", topic] => if ["run", "parse", "help"].contains topic then some .help else none
      | _ => none

def usage : String :=
  "Usage: dirtycheck [-v] [--no-color] run SCENARIO [-s STRATEGY] [--strict] [-f FORMAT]\n" ++
  "       dirtycheck [-v] [--no-color] parse EXPRESSION [-i] [-l LOCATION]\n"

/-- What a path leads to. -/
inductive FileContent where
  | missing
  | unreadable
  | text (content : String)

abbrev Files := String → FileContent

def loadScenario (files : Files) (path : String) : Except String Scenario :=
  match files path with
  | .missing => .error s!"Scenario file does not exist: {path}"
  | .unreadable => .error s!"Failed to read {path}"
  | .text content =>
    match Scenario.ofText? content with
    | some scenario => .ok scenario
    | none => .error s!"Invalid scenario {path}"

def render (format : Format) (reports : List StepReport) : String :=
  match format with
  | .text => textReport reports
  | .json => (jsonReport reports).pretty 0 ++ "\n"

/-- The first failure among reports. -/
def failure? (reports : List StepReport) : Option String :=
  reports.findSome? fun report =>
    report.error.map fun error => s!"Step {report.step} failed: {error}"

/-- Runs a scenario. What was reported before a failure is printed all the same. -/
def runScenario (files : Files) (path : String) (strategy : Option Strategy) (strict : Bool)
    (format : Format) : Result :=
  match loadScenario files path with
  | .error message => { ending := .failed message }
  | .ok scenario =>
    match scenario.run (scenario.config.override strategy strict) with
    | .error error => { ending := .failed error.message }
    | .ok reports =>
      { output := render format reports
        ending := match failure? reports with
          | some message => .failed message
          | none => .ok }

def parseExpression (expression : String) (reading : Reading) (location : String) : Result :=
  match ChangeWatch.parse reading expression location with
  | .ok source => { output := source.canonical ++ "\n" }
  | .error error => { ending := .failed error.message }

def Command.execute (files : Files) : Command → Result
  | .run path strategy strict format => runScenario files path strategy strict format
  | .parse expression reading location => parseExpression expression reading location
  | .help => { output := usage }
  | .version title => { output := title ++ " 0.1.0\n" }

/-- The whole program. -/
def program (environment : String → Option String) (files : Files) (arguments : List String) :
    Result :=
  match command? environment arguments with
  | some command => command.execute files
  | none => { ending := .usage }

end ChangeWatch.CommandLine
