import Agenda.Lint.Rule
import Agenda.Quote
import Agenda.Shorthand

/-!
What the linter finds, and how it is reported.
-/

namespace Agenda.Lint

inductive Finding where
  | unclosed (quote : Quote)
  | misplaced (kind : Shorthand.Kind)
  | unquotedTitle
  /-- A value after the value of a key. -/
  | valueAfter (key token : Text)
  /-- A value that no key comes before. -/
  | valueBefore (token : Text)
  | unevenIndent (indent size : Nat)
  | emptyBullet
  | orphan
  | jump (distance size : Nat)
  | blockWithoutMarker
  | strayLine
  | emptyBlock (key : Text)
  | duplicateId (id : Text)
  | unquotedSpaces (key : Text)
  | severalPriorities
deriving DecidableEq, Repr

namespace Finding

def rule : Finding → Rule
  | .unclosed .double => .unclosedDoubleQuote
  | .unclosed .single => .unclosedSingleQuote
  | .unclosed .backtick => .unclosedBacktick
  | .misplaced .stakeholder => .misplacedStakeholder
  | .misplaced .tag => .misplacedTag
  | .misplaced .priority => .misplacedShorthand
  | .misplaced .completion => .misplacedShorthand
  | .unquotedTitle => .unquotedTitle
  | .valueAfter _ _ => .valueWithoutKey
  | .valueBefore _ => .valueWithoutKey
  | .unevenIndent _ _ => .indentNotMultiple
  | .emptyBullet => .emptyBullet
  | .orphan => .orphanChild
  | .jump _ _ => .indentJump
  | .blockWithoutMarker => .multilineWithoutPipe
  | .strayLine => .invalidContinuation
  | .emptyBlock _ => .emptyMultiline
  | .duplicateId _ => .duplicateId
  | .unquotedSpaces _ => .unquotedSpaces
  | .severalPriorities => .multiplePriorities

def message : Finding → Text
  | .unclosed quote => Text.concat ["Unclosed ", quote.name, " quote"]
  | .misplaced .stakeholder =>
    "@stakeholder tags are only allowed at the beginning of the task prefix"
  | .misplaced .tag => "#tags are only allowed at the beginning of the task prefix"
  | .misplaced _ => Text.concat ["priority and completion shorthand are only allowed ",
      "at the beginning of the task prefix"]
  | .unquotedTitle => Text.concat ["strings need to be quoted or the remainder of the line ",
      "will be assumed to be the task title"]
  | .valueAfter key token => Text.concat ["values without keys are not allowed ",
      "(quote the value of '", key, "' if it contains spaces): ", token]
  | .valueBefore token => Text.concat ["values without keys are not allowed ",
      "(except in task prefix shorthand): ", token]
  | .unevenIndent indent size => Text.concat
      ["Indentation ", Text.ofNat indent, " not multiple of ", Text.ofNat size, " spaces"]
  | .emptyBullet => "Bullet line missing content"
  | .orphan => "bullet hierarchy is not indented correctly; child exists without parent"
  | .jump distance size => Text.concat ["Indentation jumped by ", Text.ofNat distance,
      " spaces (expected ", Text.ofNat size, ")"]
  | .blockWithoutMarker => Text.concat ["multi-line string value indentation without pipe; ",
      "unexpected lines appearing indented within task"]
  | .strayLine => "Expected key: value or multi-line content indented under key with |"
  | .emptyBlock key => Text.concat ["Multi-line '|' for key '", key, "' has no indented content"]
  | .duplicateId id => Text.concat ["Duplicate id '", id, "'"]
  | .unquotedSpaces key => Text.concat
      ["Unquoted value with spaces for key \"", key, "\" (consider quoting)"]
  | .severalPriorities => "multiple priority shorthands; only the first is used"

end Finding

/-- A finding and its place: the number of the line, from one, and a span of columns. -/
structure Issue where
  line : Nat
  finding : Finding
  start : Nat
  stop : Nat
deriving DecidableEq, Repr

namespace Issue

def severity (i : Issue) : Severity := i.finding.rule.severity

def isError (i : Issue) : Bool := i.severity = .error

/-- One line of a report; without a file, the place is the number of the line alone. -/
def text (file : Option Text) (i : Issue) : Text :=
  let place : Text := match file with
    | some f => Text.concat [f, ":", Text.ofNat i.line]
    | none => Text.concat ["line ", Text.ofNat i.line]
  let label : Text := match i.severity with
    | .error => "ERROR"
    | .warning => "WARN"
  Text.concat [place, " ", label, ": ", i.finding.message]

def isBefore (i j : Issue) : Bool := i.line < j.line || (i.line == j.line && i.start ≤ j.start)

end Issue

def errors (issues : List Issue) : List Issue := issues.filter (·.isError)

def warnings (issues : List Issue) : List Issue := issues.filter (!·.isError)

/-- The issues by their place in the document; at one place errors come first. -/
def sorted (issues : List Issue) : List Issue :=
  (errors issues ++ warnings issues).mergeSort Issue.isBefore

def report (file : Option Text) (issues : List Issue) : List Text :=
  (sorted issues).map (·.text file)

end Agenda.Lint
