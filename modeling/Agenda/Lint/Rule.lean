import Agenda.Text.Basic

/-!
The rules of the linter, each with a code, a name and a description.
-/

namespace Agenda.Lint

inductive Severity where
  | error
  | warning
deriving DecidableEq, Repr

inductive Rule where
  | unclosedDoubleQuote
  | unclosedSingleQuote
  | unclosedBacktick
  | misplacedStakeholder
  | misplacedTag
  | misplacedShorthand
  | unquotedTitle
  | valueWithoutKey
  | indentNotMultiple
  | emptyBullet
  | orphanChild
  | indentJump
  | multilineWithoutPipe
  | invalidContinuation
  | emptyMultiline
  | duplicateId
  | unquotedSpaces
  | multiplePriorities
deriving DecidableEq, Repr

namespace Rule

def all : List Rule :=
  [unclosedDoubleQuote, unclosedSingleQuote, unclosedBacktick, misplacedStakeholder, misplacedTag,
    misplacedShorthand, unquotedTitle, valueWithoutKey, indentNotMultiple, emptyBullet,
    orphanChild, indentJump, multilineWithoutPipe, invalidContinuation, emptyMultiline,
    duplicateId, unquotedSpaces, multiplePriorities]

def code : Rule → Text
  | unclosedDoubleQuote => "TD001"
  | unclosedSingleQuote => "TD002"
  | unclosedBacktick => "TD003"
  | misplacedStakeholder => "TD010"
  | misplacedTag => "TD011"
  | misplacedShorthand => "TD012"
  | unquotedTitle => "TD020"
  | valueWithoutKey => "TD021"
  | indentNotMultiple => "TD030"
  | emptyBullet => "TD031"
  | orphanChild => "TD032"
  | indentJump => "TD033"
  | multilineWithoutPipe => "TD040"
  | invalidContinuation => "TD041"
  | emptyMultiline => "TD042"
  | duplicateId => "TD050"
  | unquotedSpaces => "TD100"
  | multiplePriorities => "TD101"

def name : Rule → Text
  | unclosedDoubleQuote => "UNCLOSED_DOUBLE_QUOTE"
  | unclosedSingleQuote => "UNCLOSED_SINGLE_QUOTE"
  | unclosedBacktick => "UNCLOSED_BACKTICK"
  | misplacedStakeholder => "MISPLACED_STAKEHOLDER"
  | misplacedTag => "MISPLACED_TAG"
  | misplacedShorthand => "MISPLACED_SHORTHAND"
  | unquotedTitle => "UNQUOTED_TITLE"
  | valueWithoutKey => "VALUE_WITHOUT_KEY"
  | indentNotMultiple => "INDENT_NOT_MULTIPLE"
  | emptyBullet => "EMPTY_BULLET"
  | orphanChild => "ORPHAN_CHILD"
  | indentJump => "INDENT_JUMP"
  | multilineWithoutPipe => "MULTILINE_WITHOUT_PIPE"
  | invalidContinuation => "INVALID_CONTINUATION"
  | emptyMultiline => "EMPTY_MULTILINE"
  | duplicateId => "DUPLICATE_ID"
  | unquotedSpaces => "UNQUOTED_SPACES"
  | multiplePriorities => "MULTIPLE_PRIORITIES"

def description : Rule → Text
  | unclosedDoubleQuote => "Double-quoted string is never closed"
  | unclosedSingleQuote => "Single-quoted string is never closed"
  | unclosedBacktick => "Backtick-quoted string is never closed"
  | misplacedStakeholder => "@stakeholder shorthand outside the bullet prefix"
  | misplacedTag => "#tag shorthand outside the bullet prefix"
  | misplacedShorthand => "Priority or completion shorthand outside the bullet prefix"
  | unquotedTitle => "Unquoted title followed by key: value pairs"
  | valueWithoutKey => "Bare value that is neither prefix, title nor key value"
  | indentNotMultiple => "Bullet indentation is not a multiple of the indent size"
  | emptyBullet => "Bullet has no content"
  | orphanChild => "Indented bullet has no parent bullet"
  | indentJump => "Bullet indented more than one level past its parent"
  | multilineWithoutPipe => "Indented multi-line content without a `key: |` marker"
  | invalidContinuation => "Continuation line is not `key: value`"
  | emptyMultiline => "Multi-line `key: |` block has no content"
  | duplicateId => "Id used by more than one task"
  | unquotedSpaces => "Unquoted value containing spaces"
  | multiplePriorities => "More than one priority shorthand on a bullet"

/-- Three rules warn of what is read all the same; the others are errors. -/
def severity : Rule → Severity
  | indentJump | unquotedSpaces | multiplePriorities => .warning
  | _ => .error

def byName : List Rule := all.mergeSort fun a b => (Text.compare a.name b.name).isLE

end Rule

end Agenda.Lint
