import Agenda.Directory
import Agenda.Lint
import Agenda.Query.Change

/-!
Why a request on files can fail.
-/

namespace Agenda

inductive Fault where
  | file (e : FileError)
  | lint (path : Path) (issues : List Lint.Issue)
  | query (e : Query.Error)
  | refused (problems : List Query.Problem)
  /-- An integer is written with too many digits. -/
  | oversize
  /-- An integer is too large to be compared, or to be an indentation. -/
  | outOfRange
  /-- A text is too long to be held. -/
  | outOfMemory
  | noFreeId
deriving DecidableEq, Repr

namespace Fault

def ofRead : ReadError → Fault
  | .oversize => .oversize
  | .noFreeId => .noFreeId

def ofOversize : Oversize → Fault
  | .integer => .oversize

def ofEval : Query.EvalError → Fault
  | .oversize => .oversize
  | .outOfRange => .outOfRange

def ofChange : Query.ChangeError → Fault
  | .eval e => ofEval e
  | .refused problems => .refused problems
  | .noFreeId => .noFreeId

end Fault

end Agenda
