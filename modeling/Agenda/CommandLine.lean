import Agenda.CommandLine.Help
import Agenda.CommandLine.Options
import Agenda.Json
import Agenda.Number.Loose
import Agenda.Session
import Agenda.Table

/-!
The command line: `query` runs a query and prints rows or what was done, `lint` reports on a
file, `help` explains. Settings come from the environment and from options.
-/

namespace Agenda.CommandLine

/-- What a run printed, and its exit status; a run can also break off with a fault that no
command reports. -/
structure Output where
  stdout : Text := []
  stderr : Text := []
  status : Except Fault Nat := .ok 0

/-- Options before the subcommand, as the settings that they give. -/
structure Global where
  indentSize : Option Settings.Raw := none
  heading : Option Settings.Raw := none

/-- Reads an integer loosely: margins and underscores between digits do not matter. -/
def integer? (t : Text) : Option Int :=
  match Binary64.dropUnderscores? false (Text.dropMargins t) with
  | none => none
  | some t =>
    let (negative, digits) := Numeral.takeSign t
    if digits.isEmpty || !digits.all Text.isDigit || Number.maxDigits < digits.length then none
    else
      let size : Int := Text.natOfDigits digits
      some (if negative then -size else size)

def helpOptions {σ : Type} : Known σ :=
  let action : Action σ := .flag fun _ => .error .help
  [("-h", action), ("--help", action)]

/-- A missing value is given as an empty list, which no setting accepts. -/
def setIndentSize (value : Option Text) (g : Global) : Except Stop Global :=
  match value with
  | none => .ok { g with indentSize := some .compound }
  | some t =>
    match integer? t with
    | some n => .ok { g with indentSize := some (.int n) }
    | none => .error .usage

def setHeading (value : Option Text) (g : Global) : Except Stop Global :=
  .ok { g with heading := some (value.elim .compound .text) }

def globalOptions : Known Global :=
  let own : Known Global :=
    [("--indent-size", .value setIndentSize),
      ("--section", .value setHeading),
      ("-v", .flag .ok), ("--verbose", .flag .ok)]
  helpOptions ++ own

inductive RowFormat where
  | table
  | json
deriving DecidableEq, Repr

/-- A missing value stands for a table. -/
def readFormat : Option Text → Except Stop RowFormat
  | none => .ok .table
  | some t =>
    if t = "table" then .ok .table
    else if t = "json" then .ok .json
    else .error .usage

def queryOptions : Known RowFormat :=
  let own : Known RowFormat :=
    [("-o", .value fun v _ => readFormat v), ("--format", .value fun v _ => readFormat v)]
  helpOptions ++ own

inductive Command where
  | query (text : Text) (format : RowFormat)
  | lint (file : Text)
  | help
deriving DecidableEq, Repr

def readGiven {σ : Type} (known : Known σ) (takes : Bool) (s : σ) (args : List Text) :
    Except Stop (Given σ) := do
  readOperands known takes (args.length + 1) { settings := s } (← classifyAll known args)

def operand {σ : Type} (g : Given σ) : Except Stop Text :=
  match g.operand, g.surplus with
  | some t, false => .ok t
  | _, _ => .error .usage

def readCommand (name : Text) (args : List Text) : Except Stop Command :=
  if name = "query" then do
    let g ← readGiven queryOptions true .table args
    return .query (← operand g) g.settings
  else if name = "lint" then do
    return .lint (← operand (← readGiven helpOptions true () args))
  else if name = "help" then do
    let g ← readGiven helpOptions false () args
    if g.surplus then throw .usage
    return .help
  else .error .usage

def readArguments (args : List Text) : Except Stop (Global × Option Command) := do
  let arguments ← classifyAll globalOptions args
  let (globals, surplus, rest) ← readLeading globalOptions (args.length + 1) {} false arguments args
  match rest with
  | [] => if surplus then throw .usage else return (globals, none)
  | name :: args =>
    let command ← readCommand name args
    if surplus then throw .usage
    return (globals, some command)

def errorLine (message : Text) : Text := Text.concat ["Error: ", message, "\n"]

/-- How the query command reports a fault; a fault that it does not know breaks the run off. -/
def reportFault (f : Fault) : Output :=
  match f with
  | .refused problems =>
    { stderr := Text.concat (problems.map fun p => errorLine p.message), status := .ok 1 }
  | .lint path issues =>
    { stderr := errorLine (path.text ++ " has lint errors; fix them before querying.".toList) ++
        Text.join ['\n'] (Lint.report (some path.text) issues) ++ ['\n']
      status := .ok 1 }
  | .query .unreadableLimit => { status := .error f }
  | .query e => { stderr := errorLine e.message, status := .ok 1 }
  | .file (.notText _) | .file (.unnameable _) => { status := .error f }
  | .file e => { stderr := errorLine e.message, status := .ok 1 }
  | .oversize | .outOfRange | .outOfMemory | .noFreeId => { status := .error f }

def showResult (format : RowFormat) : Session.Result → Except Oversize Text
  | .rows rows =>
    match format with
    | .json => Json.indented rows
    | .table => Table.render rows
  | r => .ok r.message

def runQuery (s : Settings) (text : Text) (format : RowFormat) (d : Directory) :
    Output × Directory :=
  match (Session.executeText s text).run.run d with
  | (.ok r, d) =>
    match showResult format r with
    | .ok t => ({ stdout := t ++ ['\n'] }, d)
    | .error e => (reportFault (.ofOversize e), d)
  | (.error f, d) => (reportFault f, d)

def showIssues (path : Path) (issues : List Lint.Issue) : Output :=
  if issues.isEmpty then { stdout := "No lint issues found.\n" }
  else
    { stdout := (Lint.report (some path.text) issues).flatMap (· ++ ['\n'])
      status := .ok (if issues.any (·.isError) then 1 else 0) }

def runLint (s : Settings) (file : Text) (d : Directory) : Output :=
  let path := Path.ofText file
  match d.isFile path with
  | .error e => { status := .error (.file e) }
  | .ok false =>
    { stderr := errorLine ("File not found: ".toList ++ path.text), status := .ok 1 }
  | .ok true =>
    match d.linesAt path with
    | .error e => { status := .error (.file e) }
    | .ok lines =>
      match Session.measureFault? s lines with
      | some f => { status := .error f }
      | none => showIssues path (Lint.run s.indentSize (some s.heading) lines)

def runCommand (s : Settings) (c : Command) (d : Directory) : Output × Directory :=
  match c with
  | .query text format => runQuery s text format d
  | .lint file => (runLint s file d, d)
  | .help => ({ stdout := help }, d)

def Global.given (g : Global) : Settings.Field → Option Settings.Raw
  | .indentSize => g.indentSize
  | .heading => g.heading
  | _ => none

def configurationError (problems : List Settings.Problem) : Text :=
  let lines := problems.map fun p => Text.concat [p.field.name, ": ", p.cause.message, "\n"]
  Text.concat ("Error: invalid configuration\n" :: lines)

/-- Runs the command line. Wrong arguments come before wrong settings, and these before the
command. -/
def run (environment : List (Text × Text)) (args : List Text) (d : Directory) :
    Output × Directory :=
  match readArguments args with
  | .error .help => ({ stdout := usage }, d)
  | .error .usage => ({ stderr := usage, status := .ok 2 }, d)
  | .ok (globals, command) =>
    match Settings.ofEnvironment environment globals.given with
    | .error problems => ({ stderr := configurationError problems, status := .ok 1 }, d)
    | .ok s =>
      match command with
      | none => ({ stdout := usage, status := .ok 1 }, d)
      | some c => runCommand s c d

/-- The files that a run may touch: those that its command names. -/
def filesOf (args : List Text) : List Path :=
  match readArguments args with
  | .ok (_, some (.lint file)) => [Path.ofText file]
  | .ok (_, some (.query text _)) =>
    match Query.read text with
    | .ok (.select s) => Path.ofText s.file :: (s.target.map Path.ofText).toList
    | .ok q => [Path.ofText q.file]
    | .error _ => []
  | _ => []

end Agenda.CommandLine
