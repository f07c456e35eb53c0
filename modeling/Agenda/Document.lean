import Agenda.Bullet
import Agenda.Identity
import Agenda.Section
import Agenda.Settings

/-!
Documents: the lines of a text and the forest of the tasks in its task section. Reading is
lenient, lines that make no sense are passed over. A document can be read unless a value is too
large or no id can be found.
-/

namespace Agenda

structure Document where
  tasks : Forest Task := .nil
  lines : List Text := []
deriving DecidableEq, Repr

namespace Document

/-- The forest of tasks with their columns. Ids are given in document order; the tasks are put into
the forest in the same order, each below the innermost open one that stands in a smaller column. -/
def assemble (idLength : Nat) (found : List (Nat × Task)) : Except ReadError (Forest Task) :=
  let ts := found.map (·.2)
  (Task.assignIds idLength (Task.ids ts) ts).map fun ts =>
    let forest := Forest.grow (·.1) ((found.map (·.1)).zip ts)
    Task.link none (forest.map (·.2))

def tasksIn (size idLength : Nat) (lines : List Line) : Except ReadError (Forest Task) :=
  match Entry.tasks size (Entry.ofLines size lines) with
  | .error e => .error (.ofOversize e)
  | .ok found => assemble idLength found

def readTasks (size idLength : Nat) (heading : Option Text) (lines : List Text) :
    Except ReadError (Forest Task) :=
  tasksIn size idLength ((Section.region heading lines).lines size lines)

def ofLines (s : Settings) (lines : List Text) : Except ReadError Document :=
  (readTasks s.indentSize s.idLength (some s.heading) lines).map fun tasks => ⟨tasks, lines⟩

def ofText (s : Settings) (t : Text) : Except ReadError Document := ofLines s (Text.split '\n' t)

def replaceTasks (s : Settings) (tasks : Forest Task) (lines : List Text) :
    Except Oversize (List Text) :=
  (s.layout.lines tasks).map fun written => Section.replace s.indentSize s.heading written lines

/-- The task with the given id: the first one in document order. -/
def find? (d : Document) (id : Text) : Option (Task × Forest Task) :=
  d.tasks.subtrees.find? fun (t, _) => t.id? = some id

end Document

end Agenda
