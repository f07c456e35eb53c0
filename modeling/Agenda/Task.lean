import Agenda.Fields
import Agenda.Forest

/-!
Tasks: a field map, and what is known of where the task stands in its document.
-/

namespace Agenda

structure Task where
  fields : Fields := []
  /-- The id of the task that this one belongs to. -/
  parent : Option Text := none
  /-- The nesting level that the bullet's column stands for. -/
  indent : Nat := 0
  /-- The number of the bullet's line, from one; zero for a task that was never in a document. -/
  line : Nat := 0
  /-- Whether the bullet's line is all there is of the task. -/
  inline : Bool := true
deriving DecidableEq, Repr

namespace Task

/-- The id of a task; an empty one counts as none. -/
def id? (t : Task) : Option Text :=
  match t.fields.get Key.id with
  | .null => none
  | .text [] => none
  | v => some v.shown

def title? (t : Task) : Option Text :=
  match t.fields.get Key.title with
  | .null => none
  | v => some v.shown

def same (t u : Task) : Bool := t.fields.same u.fields

/-- Gives each task of a forest the id of its owner as parent; `owner` is that of the roots. -/
def link (owner : Option Text) : Forest Task → Forest Task
  | .nil => .nil
  | .cons t children rest =>
    .cons { t with parent := owner } (link t.id? children) (link owner rest)

def ids (ts : List Task) : List Text := ts.filterMap id?

end Task

end Agenda
