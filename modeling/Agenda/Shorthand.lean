import Agenda.Text.Basic

/-!
Shorthand at the start of a bullet: a priority letter, a mark for a task that is done, not done
or skipped, and the names of stakeholders and tags.
-/

namespace Agenda

inductive Shorthand where
  | priority (letter : Text)
  | completed (done : Bool)
  | skipped
  | stakeholder (name : Text)
  | tag (name : Text)
deriving DecidableEq, Repr

namespace Shorthand

/-- A stakeholder or a tag: a marker and a name that begins with neither marker nor blank. -/
def readName? : Text → Option Shorthand
  | marker :: c :: cs =>
    if isBlank c || c = '@' || c = '#' then none
    else if marker = '@' then some (.stakeholder (c :: cs))
    else if marker = '#' then some (.tag (c :: cs))
    else none
  | _ => none

/-- A priority is one letter from A to D, perhaps with a final line feed. -/
def isPriority (t : Text) : Bool :=
  match Text.dropFinalNewline t with
  | [c] => 'A' ≤ c && c ≤ 'D'
  | _ => false

def read? (t : Text) : Option Shorthand :=
  if isPriority t then some (.priority t)
  else if t = "x" || t = "X" || t = "[x]" || t = "[X]" then some (.completed true)
  else if t = "[_]" then some (.completed false)
  else if t = "-" || t = "[-]" then some .skipped
  else readName? t

inductive Kind where
  | priority
  | completion
  | stakeholder
  | tag
deriving DecidableEq, Repr

def kind : Shorthand → Kind
  | .priority _ => .priority
  | .completed _ => .completion
  | .skipped => .completion
  | .stakeholder _ => .stakeholder
  | .tag _ => .tag

def Kind.name : Kind → Text
  | .priority => "priority"
  | .completion => "completion"
  | .stakeholder => "stakeholder"
  | .tag => "tag"

end Shorthand

end Agenda
