import Agenda.Document
import Agenda.Fault
import Agenda.Query.Grammar
import Agenda.Query.Select

/-!
Queries on files. A request reads the directory and may write one file, as its last step; a
request that fails has not written.
-/

namespace Agenda

/-- A request on a directory: it ends with a result or a fault, and with a directory in either
case. -/
abbrev Session := ExceptT Fault (StateM Directory)

namespace Session

/-- A computation that may fail and touches no file. -/
def ofExcept {ε α : Type} (fault : ε → Fault) (r : Except ε α) : Session α :=
  match r with
  | .ok a => pure a
  | .error e => throw (fault e)

def linesAt (p : Path) : Session (List Text) := do
  ofExcept .file ((← get).linesAt p)

def hasPath (p : Path) : Session Bool := do
  ofExcept .file ((← get).hasPath p)

def putLines (p : Path) (lines : List Text) : Session Unit := do
  set (← ofExcept .file ((← get).putLines p lines))

/-- The number of characters above which no text can be counted. -/
def countLimit : Nat := 2 ^ 63 - 1

/-- The number of characters above which no text can be held. -/
def memoryLimit : Nat := 2 ^ 40

/-- What is wrong with the width of a level of indentation once it has to be laid out. -/
def stepFault? (s : Settings) : Option Fault :=
  if countLimit < s.indentSize then some .outOfRange
  else if memoryLimit < s.indentSize then some .outOfMemory
  else none

def measureFault? (s : Settings) (lines : List Text) : Option Fault :=
  let r := Section.region (some s.heading) lines
  if r.start < r.stop then stepFault? s else none

/-- Whether writing tasks into lines takes the width of a level: for a child, for a field on a
line of its own, or to find the bullets in lines without a heading. -/
def usesStep (s : Settings) (tasks : Forest Task) (lines : List Text) : Bool :=
  (tasks.outline 0).any (fun (depth, t) => depth ≠ 0 || Layout.isMultiline s.longValue t) ||
    (!lines.isEmpty && (Section.heading? s.heading lines).isNone)

def refuse : Option Fault → Session Unit
  | none => return
  | some f => throw f

/-- Reads the document in a file. If `strict`, a document with lint errors is refused. -/
def load (s : Settings) (strict : Bool) (p : Path) : Session Document := do
  let lines ← linesAt p
  refuse (measureFault? s lines)
  let issues := Lint.run s.indentSize (some s.heading) lines
  if strict && issues.any (·.isError) then throw (.lint p issues)
  ofExcept .ofRead (Document.ofLines s lines)

/-- Reads the document in a file, or starts an empty one if there is nothing at the path. -/
def loadOrStart (s : Settings) (p : Path) : Session Document := do
  if ← hasPath p then load s true p else return {}

def save (s : Settings) (p : Path) (tasks : Forest Task) (lines : List Text) : Session Unit := do
  refuse (if usesStep s tasks lines then stepFault? s else none)
  putLines p (← ofExcept .ofOversize (Document.replaceTasks s tasks lines))

inductive Result where
  | rows (found : List Fields)
  | saved (count : Nat) (path : Path)
  | updated (count : Nat) (path : Path)
  | deleted (count : Nat) (path : Path)
  | inserted (id : Text) (path : Path)
deriving DecidableEq, Repr

namespace Result

def command : Result → Text
  | .rows _ => "SELECT"
  | .saved _ _ => "SELECT"
  | .updated _ _ => "UPDATE"
  | .deleted _ _ => "DELETE"
  | .inserted _ _ => "INSERT"

def count : Result → Nat
  | .rows found => found.length
  | .saved n _ => n
  | .updated n _ => n
  | .deleted n _ => n
  | .inserted _ _ => 1

def path? : Result → Option Path
  | .rows _ => none
  | .saved _ p => some p
  | .updated _ p => some p
  | .deleted _ p => some p
  | .inserted _ p => some p

def message : Result → Text
  | .rows found => Text.concat [Text.ofNat found.length, " task(s) found"]
  | .saved n p => Text.concat ["Saved ", Text.ofNat n, " tasks into ", p.text]
  | .updated n p => Text.concat ["Updated ", Text.ofNat n, " tasks in ", p.text]
  | .deleted n p => Text.concat ["Deleted ", Text.ofNat n, " tasks from ", p.text]
  | .inserted id p => Text.concat ["Inserted task ", id, " into ", p.text]

end Result

/-- The lines that selected tasks are written into: those of the target if there is one that is
not the source itself, and those of the source otherwise. -/
def baseLines (source target : Path) (own : List Text) : Session (List Text) := do
  if (← hasPath target) && target ≠ source then linesAt target else return own

def select (s : Settings) (q : Query.Selection) : Session Result := do
  let path := Path.ofText q.file
  let document ← load s true path
  match q.target with
  | none => return .rows (← ofExcept .ofEval (q.rows document.tasks))
  | some file =>
    let tasks ← ofExcept .ofEval (q.tasks document.tasks)
    let target := Path.ofText file
    save s target (Query.rebuild tasks) (← baseLines path target document.lines)
    return .saved tasks.length target

def update (s : Settings) (file : Text) (assignments : List Query.Assignment)
    (filter : Option Query.Filter) : Session Result := do
  let path := Path.ofText file
  let changes ← ofExcept .ofChange (Query.readChanges false assignments)
  let document ← load s true path
  let (tasks, count) ← ofExcept .ofEval (Query.changeMatching changes filter document.tasks)
  if count ≠ 0 then save s path tasks document.lines
  return .updated count path

def delete (s : Settings) (file : Text) (filter : Option Query.Filter) : Session Result := do
  let path := Path.ofText file
  let document ← load s true path
  let (tasks, count) ← ofExcept .ofEval (Query.removeMatching filter document.tasks)
  if count ≠ 0 then save s path tasks document.lines
  return .deleted count path

def insert (s : Settings) (file : Text) (assignments : List Query.Assignment) :
    Session Result := do
  let path := Path.ofText file
  let changes ← ofExcept .ofChange (Query.readChanges true assignments)
  let document ← loadOrStart s path
  let (tasks, task) ← ofExcept .ofChange (Query.addTask changes s.idLength document.tasks)
  save s path tasks document.lines
  return .inserted (task.id?.getD []) path

def execute (s : Settings) : Query → Session Result
  | .select q => select s q
  | .update file assignments filter => update s file assignments filter
  | .delete file filter => delete s file filter
  | .insert file assignments => insert s file assignments

def executeText (s : Settings) (t : Text) : Session Result := do
  execute s (← ofExcept .query (Query.read t))

end Session

end Agenda
