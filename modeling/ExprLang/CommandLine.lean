import ExprLang.Repl
import ExprLang.Value.Text

/-!
# The command line

The arguments of the command and what it answers. Two options may stand before or behind the
subcommand, each once on either side: `--strict-brackets`, and `--max-depth` with a number, of which
the one behind the subcommand counts. `parse` decides what is asked for, `Request.file?` which file
that needs, and `answer` what is written.
-/

namespace ExprLang.CommandLine

attribute [local instance (high)] instPowNat

inductive Task where
  | eval (source : String)
  | run (script : String)
  | tokens (script : String)
  | repl
  deriving DecidableEq, Repr

structure Request where
  task : Task
  options : Options
  deriving DecidableEq, Repr

/-- How arguments are taken: as a request, as a wish for help or for the version, or not at all. -/
inductive Parsed where
  | request (request : Request)
  | help
  | version
  | misuse
  deriving DecidableEq, Repr

inductive Subcommand where
  | eval | run | tokens | repl
  deriving DecidableEq, Repr

namespace Subcommand

def ofName? : String → Option Subcommand
  | "eval" => some .eval
  | "run" => some .run
  | "tokens" => some .tokens
  | "repl" => some .repl
  | _ => none

/-- The task of a subcommand with its operand, if it takes one. A script needs a name. -/
def task? : Subcommand → Option String → Option Task
  | .eval, some source => some (.eval source)
  | .run, some script => if script = "" then none else some (.run script)
  | .tokens, some script => if script = "" then none else some (.tokens script)
  | .repl, none => some .repl
  | _, _ => none

def takesOperand (subcommand : Subcommand) (operand : Option String) (text : String) : Bool :=
  operand.isNone && (subcommand.task? (some text)).isSome

end Subcommand

/-- The options given on one side of the subcommand. -/
structure Given where
  strict : Bool := false
  maxDepth : Option Nat := none

/-- The number that a text writes: digits after an optional plus, below 2^64. -/
def number? (text : String) : Option Nat :=
  let digits := match text.toList with
    | '+' :: rest => rest
    | chars => chars
  if isDigits digits then
    let value := digitsValue digits
    if value < 2 ^ (64 : Nat) then some value else none
  else none

inductive Argument where
  /-- The mark behind which all arguments are operands. -/
  | endOfOptions
  | strict
  /-- The depth option, with the value that stands in the same argument, if one does. -/
  | depth (value : Option String)
  | help
  | version
  /-- An option that does not exist. -/
  | unknown
  | operand (text : String)
  deriving DecidableEq, Repr

/-- Classifies an argument. Of several one-letter options in one argument the first one counts. -/
def Argument.ofText (text : String) : Argument :=
  match text.toList with
  | ['-', '-'] => .endOfOptions
  | '-' :: '-' :: option =>
    let name := String.ofList (option.takeWhile (· != '='))
    match name, option.dropWhile (· != '=') with
    | "strict-brackets", [] => .strict
    | "max-depth", [] => .depth none
    | "max-depth", _ :: value => .depth (some (String.ofList value))
    | "help", [] => .help
    | "version", [] => .version
    | _, _ => .unknown
  | '-' :: 'h' :: _ => .help
  | '-' :: 'V' :: _ => .version
  | '-' :: _ :: _ => .unknown
  | _ => .operand text

namespace Given

def setDepth (given : Given) (value : String) : Option Given :=
  match given.maxDepth, number? value with
  | none, some depth => some { given with maxDepth := some depth }
  | _, _ => none

def setStrict (given : Given) : Option Given :=
  if given.strict then none else some { given with strict := true }

def options (before behind : Given) : Options where
  strict := before.strict || behind.strict
  maxDepth := (behind.maxDepth.or before.maxDepth).getD 256

end Given

/-- Whether a text can be the value of an option: it does not look like an option itself. -/
def isOptionValue (text : String) : Bool :=
  match Argument.ofText text with
  | .operand _ => true
  | _ => false

/-- Takes the values that belong to options off the arguments behind them, and turns all that
stands behind the mark that ends the options into operands. -/
def arguments : List String → List Argument
  | [] => []
  | text :: rest =>
    match Argument.ofText text with
    | .endOfOptions => .endOfOptions :: rest.map .operand
    | .depth none =>
      match rest with
      | value :: rest =>
        (if isOptionValue value then .depth (some value) else .depth none) :: arguments rest
      | [] => [.depth none]
    | argument => argument :: arguments rest

def finish (before behind : Given) (subcommand : Subcommand) (operand : Option String) : Parsed :=
  match subcommand.task? operand with
  | some task => .request ⟨task, Given.options before behind⟩
  | none => .misuse

def parseBehind (before : Given) (subcommand : Subcommand) :
    Given → Option String → List Argument → Parsed
  | given, operand, [] => finish before given subcommand operand
  | given, operand, argument :: rest =>
    match argument with
    | .endOfOptions => parseBehind before subcommand given operand rest
    | .strict =>
      match given.setStrict with
      | some given => parseBehind before subcommand given operand rest
      | none => .misuse
    | .depth (some value) =>
      match given.setDepth value with
      | some given => parseBehind before subcommand given operand rest
      | none => .misuse
    | .help => .help
    | .operand text =>
      if subcommand.takesOperand operand text then
        parseBehind before subcommand given (some text) rest
      else .misuse
    | .depth none | .version | .unknown => .misuse

/-- Takes the arguments behind the subcommand `help`: the name of at most one subcommand. -/
def parseHelp : List Argument → Parsed
  | [] => .help
  | [.operand name] =>
    if (Subcommand.ofName? name).isSome || name == "help" then .help else .misuse
  | _ => .misuse

/-- Takes the arguments up to the subcommand. Without a subcommand the loop is run. -/
def parseFrom : Given → List Argument → Parsed
  | given, [] => finish given {} .repl none
  | given, argument :: rest =>
    match argument with
    | .endOfOptions => if rest.isEmpty then finish given {} .repl none else .misuse
    | .strict =>
      match given.setStrict with
      | some given => parseFrom given rest
      | none => .misuse
    | .depth (some value) =>
      match given.setDepth value with
      | some given => parseFrom given rest
      | none => .misuse
    | .help => .help
    | .version => .version
    | .operand name =>
      if name = "help" then parseHelp rest
      else
        match Subcommand.ofName? name with
        | some subcommand => parseBehind given subcommand {} none rest
        | none => .misuse
    | .depth none | .unknown => .misuse

def parse (args : List String) : Parsed :=
  parseFrom {} (arguments args)

def Request.file? (request : Request) : Option String :=
  match request.task with
  | .run script | .tokens script => some script
  | .eval _ | .repl => none

/-- What the command writes, and its exit code. -/
structure Answer where
  exit : Nat
  out : String := ""
  err : String := ""
  deriving DecidableEq, Repr

def unlines (lines : List String) : String :=
  String.join (lines.map fun line => line ++ "\n")

def Answer.ofResult : Except Failure (List String) → Answer
  | .ok lines => { exit := 0, out := unlines lines }
  | .error failure => { exit := 1, err := failure.render ++ "\n" }

def Request.answer (request : Request) (file : FileContent) (input : ByteArray) : Answer :=
  let engine := Engine.withOptions request.options
  match request.task with
  | .eval source =>
    .ofResult <| Except.mapError .report do
      let (unit, engine) ← engine.compile source
      let (value, _) ← engine.invoke unit
      return [value.text]
  | .run script =>
    .ofResult do
      let (values, _) ← engine.runFile script file
      return values.map (·.text)
  | .tokens script =>
    .ofResult do
      let forms ← engine.formsOfFile script file
      return forms.map (·.display)
  | .repl =>
    let transcript := Repl.run engine input
    { exit := if transcript.failed then 1 else 0, out := unlines transcript.out,
      err := unlines transcript.err }

def versionText : String :=
  "schwa 0.1.0\n"

def helpText : String :=
  unlines
    ["Usage: schwa [OPTIONS] [COMMAND]", "", "Commands:",
     "  eval    Evaluate a single expression and print its value",
     "  run     Evaluate every top-level expression in a file",
     "  tokens  Print the token trees read from a file",
     "  repl    Start an interactive REPL session", "", "Options:",
     "      --strict-brackets        Require closing brackets to match their opener",
     "      --max-depth <MAX_DEPTH>  Deepest expression nesting the compiler accepts",
     "  -h, --help                   Print help",
     "  -V, --version                Print version"]

def answer (args : List String) (open? : String → FileContent) (input : ByteArray) : Answer :=
  match parse args with
  | .misuse => { exit := 2, err := "usage: schwa [OPTIONS] [COMMAND]\n" }
  | .help => { exit := 0, out := helpText }
  | .version => { exit := 0, out := versionText }
  | .request request =>
    let file := (request.file?.map open?).getD FileContent.missing
    request.answer file input

end ExprLang.CommandLine
