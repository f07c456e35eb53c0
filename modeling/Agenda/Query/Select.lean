import Agenda.Query.Condition

/-!
Selecting tasks: filter, sort, limit, and then either rows to be shown or a forest of the tasks
that were selected.
-/

namespace Agenda.Query

/-- The value that a task is sorted by. A root sorts by the empty text as its parent. -/
def sortValue (t : Task) (key : Text) : Value :=
  if key = Key.parent then .text (t.parent.getD [])
  else if key = Key.id then (t.id?.map .text).getD .null
  else t.fields.get key

/-- Compares two values that are there: numbers as numbers, anything else as texts. -/
def compareValues (v w : Value) : Ordering :=
  match v, w with
  | .number m, .number n => m.order n
  | v, w => Text.compare v.plain w.plain

/-- Compares two tasks by one key. A missing value comes first in either direction. -/
def SortKey.compare (k : SortKey) (t u : Task) : Ordering :=
  match sortValue t k.key, sortValue u k.key with
  | .null, .null => .eq
  | .null, _ => .lt
  | _, .null => .gt
  | v, w =>
    match k.direction with
    | .ascending => compareValues v w
    | .descending => (compareValues v w).swap

def compareBy : List SortKey → Task → Task → Ordering
  | [], _, _ => .eq
  | k :: ks, t, u => (k.compare t u).then (compareBy ks t u)

/-- Sorts tasks; those that compare equal keep their order. -/
def sortBy (order : List SortKey) (ts : List Task) : List Task :=
  ts.mergeSort fun t u => (compareBy order t u).isLE

def filterTasks (filter : Option Filter) : List Task → Except EvalError (List Task)
  | [] => .ok []
  | t :: ts =>
    match isMatch filter t with
    | .error e => .error e
    | .ok true => (filterTasks filter ts).map (t :: ·)
    | .ok false => filterTasks filter ts

def Selection.tasks (s : Selection) (f : Forest Task) : Except EvalError (List Task) :=
  (filterTasks s.filter f.toList).map fun ts =>
    let sorted := sortBy s.order ts
    match s.limit with
    | some limit => sorted.take limit
    | none => sorted

def rowHead (t : Task) : Fields :=
  [(Key.id, (t.id?.map Value.text).getD .null), (Key.parent, (t.parent.map Value.text).getD .null)]

/-- The row of a task: its id, its parent, and all of its fields or the named ones. -/
def row (columns : List Text) (t : Task) : Fields :=
  if columns = [['*']] then
    (t.fields.erase Key.id).foldl (fun fs (key, v) => fs.set key v) (rowHead t)
  else
    columns.foldl (fun fs key =>
      if !fs.has key && t.fields.has key then fs.set key (t.fields.get key) else fs) (rowHead t)

def Selection.rows (s : Selection) (f : Forest Task) : Except EvalError (List Fields) :=
  (s.tasks f).map fun ts => ts.map (row s.columns)

def ownerAmong (ids : List Text) (t : Task) : Option Text := t.parent.filter ids.contains

/-- The tasks with the given owner and, up to a depth, those below them. -/
def below (ids : List Text) (ts : List Task) : Nat → Option Text → Forest Task
  | 0, _ => .nil
  | depth + 1, owner =>
    (ts.filter fun t => ownerAmong ids t = owner).foldr
      (fun t rest => .cons { t with parent := owner } (below ids ts depth t.id?) rest) .nil

/-- The forest that selected tasks make up: a task whose owner was not selected is a root. No
task lies deeper than there are tasks. -/
def rebuild (ts : List Task) : Forest Task := below (Task.ids ts) ts ts.length none

end Agenda.Query
