/-!
Reads command line arguments into options and operands, from left to right. Long options carry their
value behind an equals sign or in the next argument; short ones may stand together behind one dash,
and the last of them may carry its value right behind it. After two dashes alone everything is an
operand. The first argument that is wrong, or that asks a question such as for help, ends the
reading, and what stands behind it does not count.
-/
namespace ChangeWatch.CommandLine

/-- What an option is for: to be there or not, to carry a value out of those it accepts, or to ask
for something else than the command. -/
inductive OptionKind where
  | flag
  | value (accepts : String → Bool)
  | question

/-- An option that a command knows: a long name, perhaps a letter, and what it is for. -/
structure OptionSpec where
  long : String
  short : Option Char := none
  kind : OptionKind := .flag

def OptionSpec.takesValue (spec : OptionSpec) : Bool :=
  match spec.kind with
  | .value _ => true
  | .flag | .question => false

/-- Why the reading ended early: a wrong argument, or a question, by its long name. -/
inductive Stop where
  | misuse
  | asked (question : String)
deriving DecidableEq, Repr

/-- What has been read so far: options with their values in order of writing, and operands. -/
structure Arguments where
  options : List (String × Option String) := []
  operands : List String := []
deriving DecidableEq, Repr

namespace Arguments

def has (arguments : Arguments) (name : String) : Bool :=
  arguments.options.any fun option => option.1 == name

def value? (arguments : Arguments) (name : String) : Option String :=
  (arguments.options.find? fun option => option.1 == name).bind Prod.snd

/-- Adds an option, which must not be there yet. -/
def addOption (name : String) (value : Option String) (arguments : Arguments) :
    Except Stop Arguments :=
  if arguments.has name then .error .misuse
  else .ok { arguments with options := arguments.options ++ [(name, value)] }

/-- Adds an operand, of which there must be fewer than `most`. -/
def addOperand (most : Nat) (operand : String) (arguments : Arguments) : Except Stop Arguments :=
  if arguments.operands.length < most then
    .ok { arguments with operands := arguments.operands ++ [operand] }
  else .error .misuse

/-- Takes an option that stands alone. -/
def addBare (spec : OptionSpec) (arguments : Arguments) : Except Stop Arguments :=
  match spec.kind with
  | .flag => arguments.addOption spec.long none
  | .value _ => .error .misuse
  | .question => .error (.asked spec.long)

/-- Takes an option with the value that it carries. -/
def addValued (spec : OptionSpec) (value : String) (arguments : Arguments) :
    Except Stop Arguments :=
  match spec.kind with
  | .value accepts =>
    if accepts value then arguments.addOption spec.long (some value) else .error .misuse
  | .flag | .question => .error .misuse

end Arguments

/-- An argument that may be an option rather than a value or an operand; a dash alone is none. -/
def isOption (argument : String) : Bool :=
  match argument.toList with
  | '-' :: _ :: _ => true
  | _ => false

/-- A long option without its dashes: its name, and the value behind an equals sign. -/
def splitLong (text : List Char) : String × Option String :=
  let name := text.takeWhile (· ≠ '=')
  match text.dropWhile (· ≠ '=') with
  | [] => (String.ofList name, none)
  | _ :: value => (String.ofList name, some (String.ofList value))

/-- The option that is asked for, which must be known. -/
def findOption (specs : List OptionSpec) (wanted : OptionSpec → Bool) : Except Stop OptionSpec :=
  match specs.find? wanted with
  | some spec => .ok spec
  | none => .error .misuse

/-- Reads the letters behind one dash. An option that takes a value takes the letters behind it;
where there are none, it is handed back and waits for the next argument. -/
def readLetters (specs : List OptionSpec) (arguments : Arguments) :
    List Char → Except Stop (Arguments × Option OptionSpec)
  | [] => .ok (arguments, none)
  | c :: rest => do
    let spec ← findOption specs fun spec => spec.short == some c
    if spec.takesValue then
      match rest with
      | [] => return (arguments, some spec)
      | '=' :: value => return (← arguments.addValued spec (String.ofList value), none)
      | value => return (← arguments.addValued spec (String.ofList value), none)
    else readLetters specs (← arguments.addBare spec) rest

/-- Reads arguments behind those already read. Only as many operands as `most` are allowed. -/
def readFrom (specs : List OptionSpec) (most : Nat) (arguments : Arguments) :
    List String → Except Stop Arguments
  | [] => .ok arguments
  | argument :: rest =>
    match argument.toList with
    | ['-', '-'] =>
      rest.foldlM (fun arguments operand => arguments.addOperand most operand) arguments
    | '-' :: '-' :: text => do
      let (name, value) := splitLong text
      let spec ← findOption specs fun spec => spec.long == name
      match value with
      | some value => readFrom specs most (← arguments.addValued spec value) rest
      | none =>
        if spec.takesValue then readValue spec arguments rest
        else readFrom specs most (← arguments.addBare spec) rest
    | '-' :: c :: text => do
      let (arguments, waiting) ← readLetters specs arguments (c :: text)
      match waiting with
      | none => readFrom specs most arguments rest
      | some spec => readValue spec arguments rest
    | _ => do readFrom specs most (← arguments.addOperand most argument) rest
where
  /-- Reads on from an option whose value is the next argument. -/
  readValue (spec : OptionSpec) (arguments : Arguments) : List String → Except Stop Arguments
    | [] => .error .misuse
    | value :: rest => do
      if isOption value then .error .misuse
      else readFrom specs most (← arguments.addValued spec value) rest

/-- The options and operands of a command, no option twice. -/
def read (specs : List OptionSpec) (most : Nat) (arguments : List String) :
    Except Stop Arguments :=
  readFrom specs most {} arguments

end ChangeWatch.CommandLine
